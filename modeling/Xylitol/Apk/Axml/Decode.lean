import Xylitol.Apk.Axml.Layout

/-!
# Binary XML: every piece of a layout is decoded

One specification for each reader, over the bytes the layout writes for it: the cursor operations on
the words they read, the pool reader on a pool chunk, the element reader on a START chunk, and the
chunk loop on a chunk sequence. `Chunk.apply` says what one chunk does to the state of the loop with
no bytes involved; `parseChunks_chunksBytes` is the link, whatever follows the chunks.
-/

namespace Xylitol.Apk.Axml

variable {w : PtrWidth}

/-! ## Cursor operations -/

theorem consumes_take {xs : Bytes} {n : Nat} (h : xs.length = n) :
    Consumes w (take w n) xs xs := by
  intro c suf hok hrest
  have hlen := hok.length_rest
  rw [hrest, List.length_append, h] at hlen
  -- the end of the bytes is inside the buffer, so the addition does not wrap
  have hfit : c.pos + n < w.size := by have := hok.fits; omega
  show take w n c = _
  rw [take, checkedAdd_of_lt hfit]
  have hle : ¬ c.pos + n > c.buf.length := by omega
  have hxs : (c.buf.drop c.pos).take n = xs := by
    show c.rest.take n = xs
    rw [hrest]
    exact List.take_left' h
  simp only [hle, if_false, hxs, h]
  rfl

theorem consumes_u16 (x : UInt16) : Consumes w (u16 w) (le16 x) x := by
  have h := (consumes_take (length_le16 x)).bind_pure (w := w)
    (fun b => u16OfLe (b.getD 0 0) (b.getD 1 0))
  have hval : u16OfLe ((le16 x).getD 0 0) ((le16 x).getD 1 0) = x := u16OfLe_le16 x
  rwa [hval] at h

theorem consumes_u32 (x : UInt32) : Consumes w (u32 w) (le32 x) x := by
  have h := (consumes_take (length_le32 x)).bind_pure (w := w)
    (fun b => u32OfLe (b.getD 0 0) (b.getD 1 0) (b.getD 2 0) (b.getD 3 0))
  have hval : u32OfLe ((le32 x).getD 0 0) ((le32 x).getD 1 0) ((le32 x).getD 2 0)
      ((le32 x).getD 3 0) = x := u32OfLe_le32 x
  rwa [hval] at h

theorem consumes_skipPast {pad : Bytes} {declared base : Nat}
    (h : declared = base + pad.length) : Consumes w (skipPast w declared base) pad () := by
  unfold skipPast
  split
  · have hlen : pad.length = declared - base := by omega
    exact (consumes_take hlen).bind_pure (fun _ => ())
  · have hnil : pad = [] := List.eq_nil_of_length_eq_zero (by omega)
    exact hnil ▸ Consumes.pure ()

/-! ## Length prefixes -/

/-- The high bit of a prefix is clear below it and set above it. -/
theorem and_two_pow_of_lt {n k : Nat} (h : n < 2 ^ k) : n &&& 2 ^ k = 0 := by
  rw [Nat.and_two_pow, Nat.testBit_lt_two_pow h]
  simp

theorem and_two_pow_add_ne_zero {q k : Nat} (h : q < 2 ^ k) : (2 ^ k + q) &&& 2 ^ k ≠ 0 := by
  rw [Nat.and_two_pow, Nat.testBit_two_pow_add_eq, Nat.testBit_lt_two_pow h]
  simp

/-- Masking the high bit off and putting the low part under the high part joins the two halves. -/
theorem mask_shift_or {q r k j : Nat} (hq : q < 2 ^ k) (hr : r < 2 ^ j) :
    (((2 ^ k + q) &&& (2 ^ k - 1)) <<< j) ||| r = q * 2 ^ j + r := by
  rw [Nat.and_two_pow_sub_one_eq_mod, Nat.add_mod_left, Nat.mod_eq_of_lt hq,
    ← Nat.shiftLeft_add_eq_or_of_lt hr, Nat.shiftLeft_eq]

theorem readLen8_len8 {n : Nat} (hn : n < 0x8000) (rest : Bytes) :
    readLen8 (len8 n ++ rest) = some (n, rest) := by
  unfold len8
  split
  · rename_i hlt
    have hb : (UInt8.ofNat n).toNat = n := toNat_ofNat8 (by omega)
    have hclear : n &&& 0x80 = 0 := and_two_pow_of_lt (k := 7) hlt
    simp [readLen8, hb, hclear]
  · -- two bytes, the first with its high bit set
    have hb : (UInt8.ofNat (0x80 + n / 256)).toNat = 2 ^ 7 + n / 256 := toNat_ofNat8 (by omega)
    have hq : n / 256 < 2 ^ 7 := by omega
    have hr : (UInt8.ofNat n).toNat = n % 256 := by rw [UInt8.toNat_ofNat']
    have hset : (2 ^ 7 + n / 256) &&& 0x80 ≠ 0 := and_two_pow_add_ne_zero hq
    have hjoin : (((2 ^ 7 + n / 256) &&& 0x7f) <<< 8) ||| n % 256 = n :=
      (mask_shift_or (k := 7) (j := 8) hq (Nat.mod_lt _ (by norm_num))).trans (by omega)
    simp only [List.cons_append, List.nil_append, readLen8, hb, hr, hset, hjoin, ne_eq,
      not_false_eq_true, if_true]

theorem readLen16_one {x : UInt16} (h : x.toNat &&& 0x8000 = 0) (rest : Bytes) :
    readLen16 (le16 x ++ rest) = some (x.toNat, rest) := by
  simp only [le16, List.cons_append, List.nil_append, readLen16, u16OfLe_le16, h, ne_eq,
    not_true_eq_false, if_false]

theorem readLen16_two {x y : UInt16} (h : x.toNat &&& 0x8000 ≠ 0) (rest : Bytes) :
    readLen16 ((le16 x ++ le16 y) ++ rest)
      = some (((x.toNat &&& 0x7fff) <<< 16) ||| y.toNat, rest) := by
  simp only [le16, List.cons_append, List.nil_append, readLen16, u16OfLe_le16, h, ne_eq,
    not_false_eq_true, if_true]

theorem readLen16_len16 {n : Nat} (hn : n < 2 ^ 31) (rest : Bytes) :
    readLen16 (len16 n ++ rest) = some (n, rest) := by
  unfold len16
  split
  · rename_i hlt
    have hb : (UInt16.ofNat n).toNat = n := toNat_ofNat16 (by omega)
    have hclear : (UInt16.ofNat n).toNat &&& 0x8000 = 0 := by
      rw [hb]
      exact and_two_pow_of_lt (k := 15) hlt
    rw [readLen16_one hclear, hb]
  · -- two units, the first with its high bit set
    have hb : (UInt16.ofNat (0x8000 + n / 65536)).toNat = 2 ^ 15 + n / 65536 :=
      toNat_ofNat16 (by omega)
    have hr : (UInt16.ofNat n).toNat = n % 65536 := by rw [UInt16.toNat_ofNat']
    have hq : n / 65536 < 2 ^ 15 := by omega
    have hset : (UInt16.ofNat (0x8000 + n / 65536)).toNat &&& 0x8000 ≠ 0 := by
      rw [hb]
      exact and_two_pow_add_ne_zero hq
    have hjoin : (((2 ^ 15 + n / 65536) &&& 0x7fff) <<< 16) ||| n % 65536 = n :=
      (mask_shift_or (k := 15) (j := 16) hq (Nat.mod_lt _ (by norm_num))).trans (by omega)
    rw [readLen16_two hset, hb, hr, hjoin]

/-! ## Strings -/

theorem getPrefix_append (xs rest : Bytes) : getPrefix (xs ++ rest) xs.length = some xs := by
  simp [getPrefix]

theorem unitsOf_flatMap_le16 (us : List UInt16) : unitsOf (us.flatMap le16) = us := by
  induction us with
  | nil => rfl
  | cons u us ih =>
      show u16OfLe _ _ :: unitsOf (us.flatMap le16) = u :: us
      rw [u16OfLe_le16, ih]

theorem length_flatMap_le16 (us : List UInt16) : (us.flatMap le16).length = us.length * 2 := by
  induction us with
  | nil => rfl
  | cons u us ih =>
      rw [List.flatMap_cons, List.length_append, ih, length_le16, List.length_cons]
      omega

/-- A string has at most as many characters as UTF-8 bytes. -/
theorem length_le_length_utf8Bytes (s : String) : s.length ≤ (utf8Bytes s).length := by
  rw [utf8Bytes, List.length_flatMap, ← String.length_toList]
  generalize s.toList = cs
  induction cs with
  | nil => simp
  | cons c cs ih =>
      have := c.utf8Size_pos
      simp only [List.map_cons, List.sum_cons, List.length_cons, String.length_utf8EncodeChar]
      simp only [String.length_utf8EncodeChar] at ih
      omega

/-- Whatever follows it, a pooled string reads back. -/
theorem readString_encode {enc : Encoding} {s : String} (h : enc.Fits s) (rest : Bytes) :
    readString (enc.encode s ++ rest) (enc = .utf8) = some s := by
  cases enc with
  | utf8 =>
      have hbytes : (utf8Bytes s).length < 0x8000 := h
      have hchars : s.length < 0x8000 :=
        Nat.lt_of_le_of_lt (length_le_length_utf8Bytes s) hbytes
      simp only [readString, Encoding.encode, List.append_assoc, decide_true, if_true,
        Option.bind_eq_bind, readLen8_len8 hchars, readLen8_len8 hbytes, Option.bind_some,
        getPrefix_append, fromUtf8Lossy_utf8Bytes, Option.pure_def]
  | utf16 =>
      have hunits : (utf16Units s).length < 2 ^ 31 := h
      have hlen := length_flatMap_le16 (utf16Units s)
      simp only [readString, Encoding.encode, List.append_assoc, reduceCtorEq, decide_false,
        Bool.false_eq_true, if_false, Option.bind_eq_bind, readLen16_len16 hunits,
        Option.bind_some, ← hlen, getPrefix_append, unitsOf_flatMap_le16,
        fromUtf16Lossy_utf16Units, Option.pure_def]

/-! ## The string pool -/

theorem length_encode_pos (enc : Encoding) (s : String) : 0 < (enc.encode s).length := by
  cases enc <;> simp [Encoding.encode]

theorem mem_offsetsFrom_le {enc : Encoding} {ss : List String} {start off : Nat}
    (h : off ∈ PoolChunk.offsetsFrom enc start ss) :
    off ≤ start + (PoolChunk.blob enc ss).length := by
  induction ss generalizing start with
  | nil => simp [PoolChunk.offsetsFrom] at h
  | cons s ss ih =>
      simp only [PoolChunk.blob, List.flatMap_cons, List.length_append]
      rcases List.mem_cons.mp h with rfl | h
      · omega
      · have := ih h
        simp only [PoolChunk.blob] at this
        omega

theorem length_offsetsFrom (enc : Encoding) (start : Nat) (ss : List String) :
    (PoolChunk.offsetsFrom enc start ss).length = ss.length := by
  induction ss generalizing start with
  | nil => rfl
  | cons s ss ih => rw [PoolChunk.offsetsFrom, List.length_cons, ih, List.length_cons]

theorem consumes_readOffsets {offs : List Nat} (h : ∀ off ∈ offs, off < 2 ^ 32) :
    Consumes w (readOffsets w offs.length)
      (offs.flatMap (fun off => le32 (UInt32.ofNat off))) offs := by
  induction offs with
  | nil => exact Consumes.pure []
  | cons off offs ih =>
      have hoff : (UInt32.ofNat off).toNat = off := by
        exact toNat_ofNat32 (h off (by simp))
      have htail := ih (fun o ho => h o (List.mem_cons_of_mem _ ho))
      have hhead : Consumes w (readOffsets w (offs.length + 1))
          (le32 (UInt32.ofNat off) ++ offs.flatMap (fun off => le32 (UInt32.ofNat off)))
          ((UInt32.ofNat off).toNat :: offs) := by
        refine (consumes_u32 _).bind ?_
        exact htail.bind_pure (fun offs => (UInt32.ofNat off).toNat :: offs)
      rwa [hoff] at hhead

/-- Reading the strings at their offsets gives the strings, the pool's strings starting `base` bytes
into the chunk. -/
theorem mapM_stringAt {enc : Encoding} {chunk tail : Bytes} {base start : Nat} {ss : List String}
    (hfit : chunk.length < w.size) (hss : ∀ s ∈ ss, enc.Fits s)
    (hdrop : chunk.drop (base + start) = PoolChunk.blob enc ss ++ tail) :
    (PoolChunk.offsetsFrom enc start ss).mapM (stringAt w chunk (enc = .utf8) base) = .ok ss := by
  induction ss generalizing start with
  | nil => rfl
  | cons s ss ih =>
      rw [PoolChunk.blob, List.flatMap_cons, List.append_assoc] at hdrop
      have hlen := congrArg List.length hdrop
      have hpos := length_encode_pos enc s
      simp only [List.length_drop, List.length_append] at hlen
      have hstring : stringAt w chunk (enc = .utf8) base start = .ok s := by
        have hin : ¬ base + start ≥ chunk.length := by omega
        rw [stringAt, checkedAdd_of_lt (by omega)]
        simp only [hin, if_false, hdrop, readString_encode (hss s (by simp))]
        rfl
      -- the next string starts where this one ends
      have hrest : chunk.drop (base + (start + (enc.encode s).length))
          = PoolChunk.blob enc ss ++ tail := by
        rw [← Nat.add_assoc, ← List.drop_drop, hdrop, List.drop_left]
        rfl
      rw [PoolChunk.offsetsFrom, List.mapM_cons, hstring, ok_bind,
        ih (fun t ht => hss t (List.mem_cons_of_mem _ ht)) hrest]
      rfl

/-- The part of a pool chunk that `readPoolHeader` reads. -/
def PoolChunk.head (p : PoolChunk) : Bytes :=
  le16 RES_STRING_POOL_TYPE ++ (le16 p.headerSize ++ (le32 (UInt32.ofNat (8 + p.body.length)) ++
    (le32 (UInt32.ofNat p.strings.length) ++ (le32 p.styleCount ++ (le32 p.flags ++
      (le32 (UInt32.ofNat p.stringsStart) ++ (le32 p.stylesStart ++
        (offsetsFrom p.encoding 0 p.strings).flatMap (fun off => le32 (UInt32.ofNat off)))))))))

theorem PoolChunk.bytes_eq (p : PoolChunk) :
    (Chunk.pool p).bytes = p.head ++ (blob p.encoding p.strings ++ p.tail) := by
  simp only [Chunk.bytes, chunkBytes, PoolChunk.head, PoolChunk.body, List.append_assoc]

theorem PoolChunk.length_head (p : PoolChunk) : p.head.length = p.stringsStart := by
  have hoffs : ((offsetsFrom p.encoding 0 p.strings).flatMap
      (fun off => le32 (UInt32.ofNat off))).length = p.strings.length * 4 := by
    rw [List.length_flatMap]
    simp [length_offsetsFrom]
  simp only [PoolChunk.head, List.length_append, length_le16, length_le32, hoffs, stringsStart]
  omega

theorem consumes_readPoolHeader {p : PoolChunk} (hlen : (Chunk.pool p).bytes.length < 2 ^ 32) :
    Consumes w (readPoolHeader w) p.head
      (decide (p.encoding = .utf8), p.stringsStart,
        PoolChunk.offsetsFrom p.encoding 0 p.strings) := by
  rw [PoolChunk.bytes_eq, List.length_append, List.length_append, PoolChunk.length_head] at hlen
  have hcount : (UInt32.ofNat p.strings.length).toNat = p.strings.length :=
    toNat_ofNat32 (by simp only [PoolChunk.stringsStart] at hlen; omega)
  have hstart : (UInt32.ofNat p.stringsStart).toNat = p.stringsStart := toNat_ofNat32 (by omega)
  have hutf8 : (decide (p.flags &&& UTF8_FLAG ≠ 0)) = decide (p.encoding = .utf8) := by
    unfold PoolChunk.encoding
    split <;> simp_all
  have hoffs := @consumes_readOffsets w (PoolChunk.offsetsFrom p.encoding 0 p.strings)
    (fun off hoff => by have := mem_offsetsFrom_le hoff; omega)
  rw [length_offsetsFrom] at hoffs
  unfold readPoolHeader PoolChunk.head
  refine (consumes_u16 _).bind ((consumes_u16 _).bind ((consumes_u32 _).bind
    ((consumes_u32 _).bind ((consumes_u32 _).bind ((consumes_u32 _).bind
      ((consumes_u32 _).bind ((consumes_u32 _).bind ?_)))))))
  rw [hcount, hstart, hutf8]
  exact hoffs.bind_pure (fun offs => (decide (p.encoding = .utf8), p.stringsStart, offs))

/-- The pool reader returns the strings of the chunk. -/
theorem parse_pool {p : PoolChunk} (hp : p.Fits) (hlen : (Chunk.pool p).bytes.length < 2 ^ 32) :
    StringPool.parse w (Chunk.pool p).bytes = .ok ⟨p.strings⟩ := by
  have hfit : (Chunk.pool p).bytes.length < w.size :=
    Nat.lt_of_lt_of_le hlen w.two_pow_32_le_size
  have hbytes := p.bytes_eq
  have hhead := consumes_readPoolHeader (w := w) hlen (Cursor.new (Chunk.pool p).bytes)
    (PoolChunk.blob p.encoding p.strings ++ p.tail) ⟨Nat.zero_le _, hfit⟩ hbytes
  have hdrop : (Chunk.pool p).bytes.drop (p.stringsStart + 0)
      = PoolChunk.blob p.encoding p.strings ++ p.tail := by
    rw [hbytes, Nat.add_zero]
    exact List.drop_left' p.length_head
  rw [StringPool.parse, hhead, ok_bind]
  show (do
    let strings ← (PoolChunk.offsetsFrom p.encoding 0 p.strings).mapM
      (stringAt w (Chunk.pool p).bytes (decide (p.encoding = .utf8)) p.stringsStart)
    return (⟨strings⟩ : StringPool)) = Except.ok ⟨p.strings⟩
  rw [mapM_stringAt hfit hp hdrop]
  rfl

/-! ## Elements -/

theorem consumes_parseAttr {a : AttrEntry} {attrSize : Nat} (pool : StringPool)
    (h : attrSize = 20 + a.pad.length) :
    Consumes w (parseAttr w pool attrSize) a.bytes
      (attrName pool a.name, decodeValue pool a.dataType a.rawValue a.data) := by
  unfold parseAttr AttrEntry.bytes
  refine (consumes_u32 _).bind ((consumes_u32 _).bind ((consumes_u32 _).bind
    ((consumes_u16 _).bind ((consumes_take rfl).bind ((consumes_take rfl).bind
      ((consumes_u32 _).bind ?_))))))
  exact (consumes_skipPast h).bind_pure
    (fun _ => (attrName pool a.name, decodeValue pool a.dataType a.rawValue a.data))

/-- What the reader makes of one attribute record. -/
def AttrEntry.insertInto (pool : StringPool) (attrs : Attrs) (a : AttrEntry) : Attrs :=
  attrs.insert (attrName pool a.name) (decodeValue pool a.dataType a.rawValue a.data)

theorem consumes_parseAttrs {as : List AttrEntry} {attrSize : Nat} (pool : StringPool)
    (attrs : Attrs) (h : ∀ a ∈ as, attrSize = 20 + a.pad.length) :
    Consumes w (parseAttrs w pool attrSize as.length attrs) (as.flatMap AttrEntry.bytes)
      (as.foldl (AttrEntry.insertInto pool) attrs) := by
  induction as generalizing attrs with
  | nil => exact Consumes.pure attrs
  | cons a as ih =>
      exact (consumes_parseAttr pool (h a (by simp))).bind
        (ih (AttrEntry.insertInto pool attrs a) (fun b hb => h b (List.mem_cons_of_mem _ hb)))

/-- What the reader makes of a START chunk. -/
def StartChunk.element (pool : StringPool) (s : StartChunk) : Element :=
  ⟨(pool.get s.name).getD "", s.attrs.foldl (AttrEntry.insertInto pool) ∅, []⟩

theorem consumes_parseStartElement (pool : StringPool) (s : StartChunk) :
    Consumes w (parseStartElement w pool) s.fields (s.element pool) := by
  unfold parseStartElement StartChunk.fields
  refine (consumes_u32 _).bind ((consumes_u32 _).bind ((consumes_u32 _).bind
    ((consumes_u32 _).bind ((consumes_u16 _).bind ((consumes_u16 _).bind
      ((consumes_u16 _).bind ((consumes_u16 _).bind ((consumes_u16 _).bind
        ((consumes_u16 _).bind ?_)))))))))
  rw [toNat_ofNat16 s.gap_lt, toNat_ofNat16 s.padLen_lt, toNat_ofNat16 s.attrs_lt]
  refine (consumes_skipPast rfl).bind ?_
  have hsize : ¬ 20 + s.padLen < 20 := by omega
  rw [if_neg hsize]
  exact (consumes_parseAttrs pool ∅ (fun a ha => by rw [s.pad_eq a ha])).bind_pure
    (fun attrs => (⟨(pool.get s.name).getD "", attrs, []⟩ : Element))

/-! ## Chunks -/

/-- What one chunk does to the state of the loop; `none` is an element before any string pool. -/
def Chunk.apply (st : DocState) : Chunk → Option DocState
  | .pool p => some { st with pool := some ⟨p.strings⟩ }
  | .start s => st.pool.map (fun pool => { st with stack := s.element pool :: st.stack })
  | .close _ => some st.close
  | .other _ => some st

/-- The strings of a pool chunk fit their length prefixes. -/
def Chunk.Fits : Chunk → Prop
  | .pool p => p.Fits
  | _ => True

/-- What a chunk sequence does to the state of the loop. -/
def runChunks (st : DocState) (cs : List Chunk) : Option DocState := cs.foldlM Chunk.apply st

@[simp] theorem runChunks_nil (st : DocState) : runChunks st [] = some st := rfl

@[simp] theorem runChunks_cons (st : DocState) (ch : Chunk) (cs : List Chunk) :
    runChunks st (ch :: cs) = (Chunk.apply st ch).bind (fun st => runChunks st cs) := rfl

theorem runChunks_append (st : DocState) (cs ds : List Chunk) :
    runChunks st (cs ++ ds) = (runChunks st cs).bind (fun st => runChunks st ds) :=
  List.foldlM_append

/-- The type a chunk is written with. -/
def Chunk.ty : Chunk → UInt16
  | .pool _ => RES_STRING_POOL_TYPE
  | .start _ => RES_XML_START_ELEMENT
  | .close _ => RES_XML_END_ELEMENT
  | .other o => o.ty

def Chunk.body : Chunk → Bytes
  | .pool p => p.body
  | .start s => s.body
  | .close e => e.body
  | .other o => o.body

/-- The eight bytes of the chunk header. -/
def Chunk.head (ch : Chunk) : Bytes :=
  ch.bytes.take 8

theorem Chunk.bytes_eq (ch : Chunk) : ∃ headerSize : UInt16,
    ch.bytes = chunkBytes ch.ty headerSize ch.body := by
  cases ch with
  | pool p => exact ⟨p.headerSize, rfl⟩
  | start s => exact ⟨s.headerSize, rfl⟩
  | close e => exact ⟨e.headerSize, rfl⟩
  | other o => exact ⟨o.headerSize, rfl⟩

theorem Chunk.length_head (ch : Chunk) : ch.head.length = 8 := by
  rw [Chunk.head, List.length_take]
  exact Nat.min_eq_left ch.eight_le_length

theorem Chunk.head_append_body (ch : Chunk) : ch.head ++ ch.body = ch.bytes := by
  obtain ⟨headerSize, hbytes⟩ := ch.bytes_eq
  rw [Chunk.head, hbytes]
  rfl

theorem consumes_chunkHeader (ty headerSize : UInt16) (size : UInt32) :
    Consumes w (readChunkHeader w) (le16 ty ++ (le16 headerSize ++ le32 size)) (ty, size) := by
  unfold readChunkHeader
  refine (consumes_u16 _).bind ((consumes_u16 _).bind ?_)
  exact (consumes_u32 _).bind_pure (fun chunkSize => (ty, chunkSize))

theorem consumes_readChunkHeader (ch : Chunk) :
    Consumes w (readChunkHeader w) ch.head (ch.ty, UInt32.ofNat ch.bytes.length) := by
  obtain ⟨headerSize, hbytes⟩ := ch.bytes_eq
  have hhead : ch.head = le16 ch.ty ++ (le16 headerSize ++
      le32 (UInt32.ofNat (8 + ch.body.length))) := by
    rw [Chunk.head, hbytes]
    rfl
  rw [hhead, hbytes, length_chunkBytes]
  exact consumes_chunkHeader _ _ _

/-- Inside its chunk, each chunk is handled as `Chunk.apply` says. -/
theorem handleChunk_spec {c body : Cursor} {ch : Chunk} {suf : Bytes} {st st' : DocState}
    (hok : c.Ok w) (hrest : c.rest = ch.bytes ++ suf) (hlen : ch.bytes.length < 2 ^ 32)
    (hfits : ch.Fits) (happly : ch.apply st = some st') (hbody : body = c.skip 8) :
    handleChunk w ch.ty c.pos (c.pos + ch.bytes.length) body st = .ok st' := by
  have hsplit := hrest
  rw [← ch.head_append_body, List.append_assoc] at hsplit
  have hbodyOk : body.Ok w := by
    rw [hbody, ← ch.length_head]
    exact hok.skip hsplit
  have hbodyRest : body.rest = ch.body ++ suf := by
    rw [hbody, ← ch.length_head]
    exact Cursor.rest_skip hsplit
  have hbuf : body.buf = c.buf := by rw [hbody, Cursor.buf_skip]
  cases ch with
  | pool p =>
      -- the pool reader gets the whole chunk, its header included
      have hslice : (body.buf.take (c.pos + (Chunk.pool p).bytes.length)).drop c.pos
          = (Chunk.pool p).bytes := by
        rw [hbuf, List.drop_take, Nat.add_sub_cancel_left]
        show c.rest.take _ = _
        rw [hrest, List.take_left]
      have hstate := Option.some.inj happly
      show (do
        let pool ← StringPool.parse w
          ((body.buf.take (c.pos + (Chunk.pool p).bytes.length)).drop c.pos)
        return ({ st with pool := some pool } : DocState)) = Except.ok st'
      rw [hslice, parse_pool hfits hlen, ok_bind, ← hstate]
      rfl
  | start s =>
      obtain ⟨pool, hpool, hstate⟩ := Option.map_eq_some_iff.mp happly
      have hfields : body.rest = s.fields ++ (s.trailing ++ suf) := by
        rw [hbodyRest, ← List.append_assoc]
        rfl
      have helement := consumes_parseStartElement (w := w) pool s body _ hbodyOk hfields
      obtain ⟨_, stack, root⟩ := st
      obtain rfl : _ = some pool := hpool
      show ((parseStartElement w pool).run body >>= fun read =>
        return (⟨some pool, read.1 :: stack, root⟩ : DocState)) = Except.ok st'
      rw [helement, ok_bind, ← hstate]
      rfl
  | close e =>
      rw [← Option.some.inj happly]
      rfl
  | other o =>
      obtain ⟨hpool, hstart, hclose⟩ := o.foreign
      show handleChunk w o.ty _ _ body st = _
      rw [handleChunk, if_neg hpool, if_neg hstart, if_neg hclose, ← Option.some.inj happly]
      rfl

/-- One round of the loop, once the chunk header is read. -/
theorem parseChunk_eq {c body : Cursor} {ty : UInt16} {chunkSize : UInt32} (st : DocState)
    (h : (readChunkHeader w).run c = .ok ((ty, chunkSize), body)) :
    parseChunk w c st = (do
      let chunkEnd ← checkChunkEnd w c chunkSize
      let st ← handleChunk w ty c.pos chunkEnd body st
      return ({ c with pos := chunkEnd }, st)) := by
  rw [parseChunk, h, ok_bind]

/-- In front of the bytes of a chunk, one round of the loop handles that chunk and leaves the cursor
behind it. -/
theorem parseChunk_chunkBytes {c : Cursor} {ty headerSize : UInt16} {body suf : Bytes}
    (st : DocState) (hok : c.Ok w) (hrest : c.rest = chunkBytes ty headerSize body ++ suf)
    (hlen : 8 + body.length < 2 ^ 32) :
    parseChunk w c st =
      (handleChunk w ty c.pos (c.pos + (8 + body.length)) (c.skip 8) st).map
        fun st => (c.skip (8 + body.length), st) := by
  have hhead : (readChunkHeader w).run c
      = .ok ((ty, UInt32.ofNat (8 + body.length)), c.skip 8) := by
    apply consumes_chunkHeader ty headerSize _ c (body ++ suf) hok
    simp only [hrest, chunkBytes, List.append_assoc]
  have hend := (hok.skip hrest).pos_le
  have hfit := hok.fits
  rw [Cursor.pos_skip, Cursor.buf_skip, length_chunkBytes] at hend
  have hsize : (UInt32.ofNat (8 + body.length)).toNat = 8 + body.length := toNat_ofNat32 hlen
  have hcheck : checkChunkEnd w c (UInt32.ofNat (8 + body.length))
      = .ok (c.pos + (8 + body.length)) := by
    refine checkChunkEnd_eq_ok.mpr ?_
    rw [hsize]
    exact ⟨Nat.le_add_right 8 _, rfl, hend, Nat.lt_of_le_of_lt hend hfit⟩
  rw [parseChunk_eq st hhead, hcheck, ok_bind]
  cases handleChunk w ty c.pos (c.pos + (8 + body.length)) _ st <;> rfl

/-- In front of a chunk, one round of the loop leaves the cursor behind it. -/
theorem parseChunk_spec {c : Cursor} {ch : Chunk} {suf : Bytes} {st st' : DocState}
    (hok : c.Ok w) (hrest : c.rest = ch.bytes ++ suf) (hlen : ch.bytes.length < 2 ^ 32)
    (hfits : ch.Fits) (happly : ch.apply st = some st') :
    parseChunk w c st = .ok (c.skip ch.bytes.length, st') := by
  have hhandle := handleChunk_spec hok hrest hlen hfits happly rfl
  obtain ⟨headerSize, hbytes⟩ := ch.bytes_eq
  rw [hbytes] at hrest hlen hhandle ⊢
  rw [length_chunkBytes] at hlen hhandle ⊢
  rw [parseChunk_chunkBytes st hok hrest hlen, hhandle]
  rfl

/-- In front of a chunk that the buffer cuts off behind its header, the loop fails. -/
theorem parseChunk_cut {c : Cursor} {ch : Chunk} {r : Nat} (st : DocState) (hok : c.Ok w)
    (hrest : c.rest = ch.bytes.take r) (h8 : 8 ≤ r) (hr : r < ch.bytes.length)
    (hlen : ch.bytes.length < 2 ^ 32) :
    parseChunk w c st = .error (.axml "chunk runs past end of file") := by
  have hsplit : c.rest = ch.head ++ (ch.bytes.take r).drop 8 := by
    have htake : (ch.bytes.take r).take 8 = ch.head := by
      rw [List.take_take, Nat.min_eq_left h8, Chunk.head]
    rw [hrest, ← htake, List.take_append_drop]
  have hhead := consumes_readChunkHeader ch c _ hok hsplit
  have hbuf := hok.length_rest
  rw [hrest, List.length_take, Nat.min_eq_left (Nat.le_of_lt hr)] at hbuf
  have hsize : (UInt32.ofNat ch.bytes.length).toNat = ch.bytes.length := toNat_ofNat32 hlen
  -- the header tells the end of the whole chunk, which the buffer does not reach
  have hcheck : checkChunkEnd w c (UInt32.ofNat ch.bytes.length)
      = .error (.axml "chunk runs past end of file") := by
    have hsmall : ¬ ch.bytes.length < 8 := by omega
    have hout : ¬ c.pos + ch.bytes.length ≤ c.buf.length := by omega
    rw [checkChunkEnd, hsize, if_neg hsmall, checkedAdd]
    split
    · rename_i h
      rfl
    · rename_i chunkEnd h
      obtain ⟨hadd, hle⟩ := Option.filter_eq_some_iff.mp h
      split at hadd
      · have := Option.some.inj hadd
        simp only [decide_eq_true_eq] at hle
        omega
      · cases hadd
  rw [parseChunk_eq st hhead, hcheck]
  rfl

/-! ## The chunk loop -/

theorem parseChunks_of_lt {c : Cursor} (st : DocState) (h : c.remaining < 8) :
    parseChunks w c st = .ok st := by
  rw [parseChunks, dif_neg (by omega)]

theorem parseChunks_of_ok {c c' : Cursor} {st st' : DocState} (hrem : 8 ≤ c.remaining)
    (h : parseChunk w c st = .ok (c', st')) : parseChunks w c st = parseChunks w c' st' := by
  rw [parseChunks, dif_pos hrem]
  split
  · rename_i e he
    rw [h] at he
    cases he
  · rename_i c₁ st₁ he
    rw [h] at he
    cases he
    rfl

theorem parseChunks_of_error {c : Cursor} {st : DocState} {e : Error} (hrem : 8 ≤ c.remaining)
    (h : parseChunk w c st = .error e) : parseChunks w c st = .error e := by
  rw [parseChunks, dif_pos hrem]
  split
  · rename_i e₁ he
    rw [h] at he
    cases he
    rfl
  · rename_i c₁ st₁ he
    rw [h] at he
    cases he

/-- Over a chunk sequence the loop does what the chunks do, whatever follows them. -/
theorem parseChunks_chunksBytes {c : Cursor} {cs : List Chunk} {suf : Bytes} {st st' : DocState}
    (hok : c.Ok w) (hrest : c.rest = chunksBytes cs ++ suf)
    (hlen : (chunksBytes cs).length < 2 ^ 32) (hfits : ∀ ch ∈ cs, ch.Fits)
    (hrun : runChunks st cs = some st') :
    parseChunks w c st = parseChunks w (c.skip (chunksBytes cs).length) st' := by
  induction cs generalizing c st with
  | nil =>
      cases hrun
      rfl
  | cons ch cs ih =>
      rw [runChunks_cons] at hrun
      obtain ⟨st₁, happly, hrun⟩ := Option.bind_eq_some_iff.mp hrun
      rw [chunksBytes_cons, List.append_assoc] at hrest
      rw [chunksBytes_cons, List.length_append] at hlen
      have hstep := parseChunk_spec hok hrest (by omega) (hfits ch (by simp)) happly
      have hrem : 8 ≤ c.remaining := by
        have h₁ := hok.length_rest
        have h₂ := ch.eight_le_length
        rw [hrest, List.length_append] at h₁
        simp only [Cursor.remaining]
        omega
      rw [parseChunks_of_ok hrem hstep,
        ih (hok.skip hrest) (Cursor.rest_skip hrest) (by omega)
          (fun d hd => hfits d (List.mem_cons_of_mem _ hd)) hrun,
        Cursor.skip_skip, chunksBytes_cons, List.length_append]

/-! ## The file header -/

theorem consumes_fileHeader (d : Document) : Consumes w (fileHeader w) d.header () := by
  unfold fileHeader Document.header
  refine (consumes_u16 _).bind ((consumes_u16 _).bind ((consumes_u32 _).bind ?_))
  rw [toNat_ofNat16 d.extra_lt]
  exact consumes_skipPast rfl

/-- The element a finished loop returns. -/
def DocState.result (st : DocState) : Except Error Element :=
  match st.root <|> st.stack.head? with
  | some root => .ok root
  | none => .error (.axml "no root element")

/-- Behind the header of a document that fits, `parse` is the chunk loop. -/
theorem parse_of_header {d : Document} {suf : Bytes}
    (hfit : (d.header ++ suf).length < w.size) :
    parse w (d.header ++ suf) =
      parseChunks w ⟨d.header ++ suf, d.header.length⟩ .init >>= DocState.result := by
  have hheader := consumes_fileHeader d (Cursor.new (d.header ++ suf)) suf
    ⟨Nat.zero_le _, hfit⟩ rfl
  rw [parse, hheader, ok_bind]
  show (parseChunks w (Cursor.skip ⟨d.header ++ suf, 0⟩ d.header.length) .init >>= _) = _
  rw [Cursor.skip, Nat.zero_add]
  rfl

/-- Behind the header and a chunk sequence, `parse` goes on in front of whatever comes next. -/
theorem parse_chunks (d : Document) {cs : List Chunk} {rest : Bytes} {st : DocState}
    (hfit : (d.header ++ (chunksBytes cs ++ rest)).length < w.size)
    (hlen : (chunksBytes cs).length < 2 ^ 32) (hfits : ∀ ch ∈ cs, ch.Fits)
    (hrun : runChunks .init cs = some st) :
    ∃ c : Cursor, c.Ok w ∧ c.rest = rest ∧
      parse w (d.header ++ (chunksBytes cs ++ rest)) = parseChunks w c st >>= DocState.result := by
  have hok := Cursor.ok_of_append hfit
  have hrest := Cursor.rest_of_append d.header (chunksBytes cs ++ rest)
  refine ⟨_, hok.skip hrest, Cursor.rest_skip hrest, ?_⟩
  rw [parse_of_header hfit, parseChunks_chunksBytes hok hrest hlen hfits hrun]

end Xylitol.Apk.Axml
