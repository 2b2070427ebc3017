import Xylitol.Apk.Axml.Decode

/-!
# Binary XML: decoding undoes encoding

`parse_describes`: every document that describes a tree is decoded to exactly that tree, whichever
of the many encodings it is. The bytes are dealt with in `Decode`; what is left is the stack machine

    START  pushes an element        END  pops it and attaches it to what is below

and the mutual induction over `Spells` and `SpellsAll`: a chunk sequence that stands for an element
attaches that element, one that stands for several attaches them in order. `exists_describes` says
that the relation leaves no tree out.
-/

namespace Xylitol.Apk.Axml

variable {w : PtrWidth} {strings : List String}

/-! ## Attributes -/

/-- Inserting pairs of distinct keys one after the other: each pair is found again, and what was
there under another key stays. -/
theorem foldl_insert_getElem? {kvs : List (String × Value)} (hnodup : (kvs.map Prod.fst).Nodup)
    (m : Attrs) (k : String) (v : Value) :
    (kvs.foldl (fun m kv => m.insert kv.1 kv.2) m)[k]? = some v ↔
      (k, v) ∈ kvs ∨ (k ∉ kvs.map Prod.fst ∧ m[k]? = some v) := by
  induction kvs generalizing m with
  | nil => simp
  | cons kv kvs ih =>
      obtain ⟨k₀, v₀⟩ := kv
      rw [List.map_cons, List.nodup_cons] at hnodup
      obtain ⟨hfresh, hnodup⟩ := hnodup
      rw [List.foldl_cons, ih hnodup, Std.ExtTreeMap.getElem?_insert]
      have hmem : (k, v) ∈ kvs → k ∈ kvs.map Prod.fst := fun h => List.mem_map_of_mem h
      by_cases hk : k₀ = k
      · -- this key does not come again, so its value stays
        subst hk
        rw [if_pos Std.ReflCmp.compare_self, List.mem_cons, Prod.mk.injEq, List.map_cons]
        grind
      · have hcmp : compare k₀ k ≠ .eq := fun h => hk (compare_eq_iff_eq.mp h)
        rw [if_neg hcmp, List.mem_cons, Prod.mk.injEq, List.map_cons]
        grind

/-- A pool of fewer than `2 ^ 32` strings is indexed by its whole list. -/
theorem pool_get (hlen : strings.length < 2 ^ 32) {i : UInt32} {s : String}
    (h : strings[i.toNat]? = some s) : (StringPool.mk strings).get i = some s := by
  -- the index that stands for no string is out of reach
  have hne : i ≠ 0xFFFFFFFF := by
    intro hi
    obtain ⟨hlt, -⟩ := List.getElem?_eq_some_iff.mp h
    rw [hi] at hlt
    have : (0xFFFFFFFF : UInt32).toNat = 2 ^ 32 - 1 := rfl
    omega
  rw [StringPool.get, if_neg hne]
  exact h

theorem signed32_of_toNat {data : UInt32} {v : Int} (hlo : -2 ^ 31 ≤ v) (hhi : v < 2 ^ 31)
    (h : (data.toNat : Int) = v % 2 ^ 32) : signed32 data = v := by
  unfold signed32
  split
  · omega
  · omega

/-- A spelled value is decoded to itself; the raw-value index is never needed. -/
theorem decodeValue_spelled (hlen : strings.length < 2 ^ 32) {v : Value} {ty : UInt8}
    {data : UInt32} (h : ValueSpelled strings v ty data) (rawValue : UInt32) :
    decodeValue ⟨strings⟩ ty rawValue data = v := by
  cases h with
  | str hs =>
      rw [decodeValue, if_pos rfl, pool_get hlen hs]
      rfl
  | int hty hlo hhi hv =>
      have hne : ty ≠ TYPE_STRING := by
        rcases hty with rfl | rfl <;> decide
      rw [decodeValue, if_neg hne, if_pos hty, signed32_of_toNat hlo hhi hv]
  | false => rfl
  | true hdata =>
      rw [decodeValue, if_neg (by decide), if_neg (by decide), if_pos rfl, decide_eq_true hdata]
  | float => rfl
  | reference => rfl
  | raw hty =>
      simp only [List.mem_cons, List.not_mem_nil, or_false, not_or] at hty
      obtain ⟨href, hstr, hfloat, hdec, hhex, hbool⟩ := hty
      rw [decodeValue, if_neg hstr, if_neg (not_or.mpr ⟨hdec, hhex⟩), if_neg hbool,
        if_neg hfloat, if_neg href]

theorem insertInto_spelled (hlen : strings.length < 2 ^ 32) {a : AttrEntry}
    {kv : String × Value} (h : AttrSpelled strings a kv) (m : Attrs) :
    AttrEntry.insertInto ⟨strings⟩ m a = m.insert kv.1 kv.2 := by
  have hname : attrName ⟨strings⟩ a.name = kv.1 := by
    have hne : ¬ kv.1.isEmpty := by
      rw [String.isEmpty_iff]
      exact h.name_ne
    rw [attrName, pool_get hlen h.name_eq]
    exact if_neg hne
  rw [AttrEntry.insertInto, hname, decodeValue_spelled hlen h.value]

theorem foldl_insertInto_spelled (hlen : strings.length < 2 ^ 32) {as : List AttrEntry}
    {kvs : List (String × Value)} (h : List.Forall₂ (AttrSpelled strings) as kvs) (m : Attrs) :
    as.foldl (AttrEntry.insertInto ⟨strings⟩) m
      = kvs.foldl (fun m kv => m.insert kv.1 kv.2) m := by
  induction h generalizing m with
  | nil => rfl
  | cons hhead htail ih =>
      rw [List.foldl_cons, List.foldl_cons, insertInto_spelled hlen hhead, ih]

/-- A START chunk is decoded to the element it opens. -/
theorem element_of_opens (hlen : strings.length < 2 ^ 32) {s : StartChunk} {name : String}
    {attrs : Attrs} (h : Opens strings s name attrs) :
    s.element ⟨strings⟩ = ⟨name, attrs, []⟩ := by
  obtain ⟨kvs, hspelled, hnodup, hmem⟩ := h.attrs_eq
  have hattrs : s.attrs.foldl (AttrEntry.insertInto ⟨strings⟩) ∅ = attrs := by
    rw [foldl_insertInto_spelled hlen hspelled]
    apply Std.ExtTreeMap.ext_getElem?
    intro k
    apply Option.ext
    intro v
    rw [foldl_insert_getElem? hnodup, hmem]
    simp
  rw [StartChunk.element, hattrs, pool_get hlen h.name_eq]
  rfl

/-! ## The stack machine -/

/-- The element with further children behind the ones it has. -/
def Element.addChildren (e : Element) (els : List Element) : Element :=
  { e with children := e.children ++ els }

@[simp] theorem Element.addChildren_nil (e : Element) : e.addChildren [] = e := by
  obtain ⟨name, attrs, children⟩ := e
  simp [Element.addChildren]

@[simp] theorem Element.addChildren_addChildren (e : Element) (els els' : List Element) :
    (e.addChildren els).addChildren els' = e.addChildren (els ++ els') := by
  simp [Element.addChildren]

/-- A finished element goes to the element below it, or becomes the root. -/
def DocState.attach (st : DocState) (el : Element) : DocState :=
  match st.stack with
  | [] => { st with root := some el }
  | parent :: rest => { st with stack := parent.addChildren [el] :: rest }

/-- Closing the element on top of the stack attaches it to what is below. -/
theorem DocState.close_eq_attach (st : DocState) (el : Element) :
    ({ st with stack := el :: st.stack } : DocState).close = st.attach el := by
  obtain ⟨pool, stack, root⟩ := st
  cases stack with
  | nil => rfl
  | cons parent rest => rfl

theorem runChunks_start (hlen : strings.length < 2 ^ 32) {st : DocState} {s : StartChunk}
    {name : String} {attrs : Attrs} (hpool : st.pool = some ⟨strings⟩)
    (h : Opens strings s name attrs) (cs : List Chunk) :
    runChunks st (.start s :: cs)
      = runChunks { st with stack := ⟨name, attrs, []⟩ :: st.stack } cs := by
  rw [runChunks_cons, Chunk.apply, hpool, Option.map_some, element_of_opens hlen h]
  rfl

mutual

/-- A chunk sequence that stands for an element attaches it. -/
theorem Spells.run (hlen : strings.length < 2 ^ 32) {cs : List Chunk} {el : Element} :
    Spells strings cs el → ∀ st : DocState, st.pool = some ⟨strings⟩ →
      runChunks st cs = some (st.attach el)
  | @Spells.mk _ s e body name attrs children hopen hall, ⟨pool, stack, root⟩, hpool => by
      obtain rfl : pool = some ⟨strings⟩ := hpool
      have hbody := SpellsAll.run hlen hall ⟨name, attrs, []⟩ stack root
      rw [runChunks_start hlen rfl hopen, runChunks_append, hbody, Option.bind_some]
      show some (DocState.close _) = _
      rw [← DocState.close_eq_attach]
      rfl

/-- A chunk sequence that stands for several elements gives them, in order, to the innermost open
element. -/
theorem SpellsAll.run (hlen : strings.length < 2 ^ 32) {cs : List Chunk} {els : List Element} :
    SpellsAll strings cs els → ∀ (parent : Element) (rest : List Element) (root : Option Element),
      runChunks ⟨some ⟨strings⟩, parent :: rest, root⟩ cs
        = some ⟨some ⟨strings⟩, parent.addChildren els :: rest, root⟩
  | .nil, parent, rest, root => by
      rw [Element.addChildren_nil]
      rfl
  | .other h, parent, rest, root => SpellsAll.run hlen h parent rest root
  | @SpellsAll.cons _ c cs el els hel hels, parent, rest, root => by
      have hhead := Spells.run hlen hel ⟨some ⟨strings⟩, parent :: rest, root⟩ rfl
      have htail := SpellsAll.run hlen hels (parent.addChildren [el]) rest root
      rw [runChunks_append, hhead, Option.bind_some]
      show runChunks ⟨some ⟨strings⟩, parent.addChildren [el] :: rest, root⟩ cs = _
      rw [htail, Element.addChildren_addChildren]
      rfl

end

/-- Foreign chunks change nothing. -/
theorem runChunks_others (st : DocState) {cs : List Chunk} (h : ∀ ch ∈ cs, ∃ o, ch = .other o) :
    runChunks st cs = some st := by
  induction cs with
  | nil => rfl
  | cons ch cs ih =>
      obtain ⟨o, rfl⟩ := h ch List.mem_cons_self
      exact ih (fun ch hch => h ch (List.mem_cons_of_mem _ hch))

theorem others_of_mem_map {os : List OtherChunk} :
    ∀ ch ∈ os.map Chunk.other, ∃ o, ch = .other o := by
  intro ch h
  obtain ⟨o, -, rfl⟩ := List.mem_map.mp h
  exact ⟨o, rfl⟩

/-- Before its tree, a document sets the pool and nothing else. -/
theorem runChunks_pool (before between : List OtherChunk) (p : PoolChunk) (cs : List Chunk) :
    runChunks .init (before.map .other ++ (.pool p :: (between.map .other ++ cs)))
      = runChunks ⟨some ⟨p.strings⟩, [], none⟩ cs := by
  rw [runChunks_append, runChunks_others _ others_of_mem_map, Option.bind_some, runChunks_cons,
    Chunk.apply, Option.bind_some, runChunks_append, runChunks_others _ others_of_mem_map,
    Option.bind_some]
  rfl

/-- What may stand inside a tree: no string pool, and only START chunks that open something. -/
def Chunk.Sound (strings : List String) : Chunk → Prop
  | .pool _ => False
  | .start s => ∃ name attrs, Opens strings s name attrs
  | _ => True

theorem Chunk.Sound.fits {ch : Chunk} (h : ch.Sound strings) : ch.Fits := by
  cases ch with
  | pool p => exact absurd h id
  | start s => exact trivial
  | close e => exact trivial
  | other o => exact trivial

mutual

theorem Spells.sound {cs : List Chunk} {el : Element} :
    Spells strings cs el → ∀ ch ∈ cs, ch.Sound strings
  | .mk hopen hall, ch, hmem => by
      rcases List.mem_cons.mp hmem with rfl | hmem
      · exact ⟨_, _, hopen⟩
      · rcases List.mem_append.mp hmem with hmem | hmem
        · exact SpellsAll.sound hall ch hmem
        · rw [List.mem_singleton.mp hmem]
          exact trivial

theorem SpellsAll.sound {cs : List Chunk} {els : List Element} :
    SpellsAll strings cs els → ∀ ch ∈ cs, ch.Sound strings
  | .nil, ch, hmem => absurd hmem List.not_mem_nil
  | .other h, ch, hmem => by
      rcases List.mem_cons.mp hmem with rfl | hmem
      · exact trivial
      · exact SpellsAll.sound h ch hmem
  | .cons hel hels, ch, hmem => by
      rcases List.mem_append.mp hmem with hmem | hmem
      · exact Spells.sound hel ch hmem
      · exact SpellsAll.sound hels ch hmem

end

theorem others_sound {cs : List Chunk} (h : ∀ ch ∈ cs, ∃ o, ch = Chunk.other o) :
    ∀ ch ∈ cs, ch.Sound strings := by
  intro ch hch
  obtain ⟨o, rfl⟩ := h ch hch
  exact trivial

/-- Everything behind the pool of a document that describes a tree is sound. -/
theorem tree_sound {between after : List OtherChunk} {body : List Chunk} {t : Element}
    (h : Spells strings body t) :
    ∀ ch ∈ between.map Chunk.other ++ (body ++ after.map Chunk.other), ch.Sound strings := by
  intro ch hmem
  rcases List.mem_append.mp hmem with hmem | hmem
  · exact others_sound others_of_mem_map ch hmem
  rcases List.mem_append.mp hmem with hmem | hmem
  · exact h.sound ch hmem
  · exact others_sound others_of_mem_map ch hmem

theorem Document.Describes.fits {d : Document} {t : Element} (h : d.Describes t) :
    ∀ ch ∈ d.chunks, ch.Fits := by
  obtain ⟨before, between, after, p, body, hchunks, hp, hspells⟩ := h.shape
  intro ch hmem
  rw [hchunks] at hmem
  rcases List.mem_append.mp hmem with hmem | hmem
  · obtain ⟨o, rfl⟩ := others_of_mem_map ch hmem
    exact trivial
  rcases List.mem_cons.mp hmem with rfl | hmem
  · exact hp
  · exact (tree_sound hspells ch hmem).fits

theorem length_le_length_chunksBytes {ch : Chunk} {cs : List Chunk} (h : ch ∈ cs) :
    ch.bytes.length ≤ (chunksBytes cs).length := by
  obtain ⟨pre, suf, rfl⟩ := List.append_of_mem h
  simp only [chunksBytes_append, chunksBytes_cons, List.length_append]
  omega

theorem Document.Fits32.length_chunks {d : Document} (h : d.Fits32) :
    (chunksBytes d.chunks).length < 2 ^ 32 := by
  rw [Document.Fits32, Document.bytes, List.length_append] at h
  omega

/-- A pool that fits in 32-bit sizes has fewer than `2 ^ 32` strings. -/
theorem Document.Fits32.length_strings {d : Document} (h : d.Fits32) {p : PoolChunk}
    (hp : Chunk.pool p ∈ d.chunks) : p.strings.length < 2 ^ 32 := by
  have hlen := length_le_length_chunksBytes hp
  have hall := h.length_chunks
  rw [p.bytes_eq, List.length_append, p.length_head, PoolChunk.stringsStart] at hlen
  omega

/-- The chunks of a document that describes a tree leave that tree as the root. -/
theorem runChunks_describes {d : Document} {t : Element} (h : d.Describes t) (hfits : d.Fits32) :
    ∃ pool, runChunks .init d.chunks = some ⟨some pool, [], some t⟩ := by
  obtain ⟨before, between, after, p, body, hchunks, hp, hspells⟩ := h.shape
  have hlen : p.strings.length < 2 ^ 32 := hfits.length_strings (by rw [hchunks]; simp)
  refine ⟨⟨p.strings⟩, ?_⟩
  rw [hchunks, runChunks_pool, runChunks_append, hspells.run hlen _ rfl, Option.bind_some,
    runChunks_others _ others_of_mem_map]
  rfl

/-! ## The round trip -/

/-- Every document that describes a tree is decoded to that tree. -/
theorem parse_describes {d : Document} {t : Element} (h : d.Describes t) (hfits : d.Fits32) :
    parse w d.bytes = .ok t := by
  obtain ⟨pool, hrun⟩ := runChunks_describes h hfits
  have hbytes : d.bytes = d.header ++ (chunksBytes d.chunks ++ []) := by
    rw [List.append_nil, Document.bytes]
  have hfit : d.bytes.length < w.size := Nat.lt_of_lt_of_le hfits w.two_pow_32_le_size
  rw [hbytes] at hfit ⊢
  obtain ⟨c, hok, hrest, hparse⟩ := parse_chunks d hfit hfits.length_chunks h.fits hrun
  have hrem : c.remaining < 8 := by
    rw [← c.length_rest_eq, hrest]
    exact Nat.zero_lt_succ 7
  rw [hparse, parseChunks_of_lt _ hrem]
  rfl

/-! ### A small manifest

`<manifest package="a.b"><uses-sdk minSdkVersion="23"/></manifest>` with a UTF-8 pool, a foreign
chunk in front of the child and two trailing bytes in the child's START chunk. -/

def smallManifest : Element :=
  ⟨"manifest", {("package", .str "a.b")}, [⟨"uses-sdk", {("minSdkVersion", .int 23)}, []⟩]⟩

def smallPool : PoolChunk :=
  ⟨28, 0, UTF8_FLAG, 0, ["manifest", "package", "a.b", "uses-sdk", "minSdkVersion"], []⟩

def smallRoot : StartChunk :=
  ⟨16, 1, 0xFFFFFFFF, 0xFFFFFFFF, 0, 0, 0, 0, [], 0,
    [⟨0xFFFFFFFF, 1, 2, 8, 0, TYPE_STRING, 2, []⟩], [], by decide, by decide, by decide, by decide⟩

def smallChild : StartChunk :=
  ⟨16, 2, 0xFFFFFFFF, 0xFFFFFFFF, 3, 0, 0, 0, [], 0,
    [⟨0xFFFFFFFF, 4, 0xFFFFFFFF, 8, 0, TYPE_INT_DEC, 23, []⟩], [0, 0], by decide, by decide,
    by decide, by decide⟩

def smallEnd (name : UInt32) : EndChunk := ⟨16, 2, 0xFFFFFFFF, 0xFFFFFFFF, name, []⟩

def smallDocument : Document :=
  ⟨3, 0, [], [.pool smallPool, .start smallRoot, .other ⟨0x0100, 16, [7], by decide⟩,
    .start smallChild, .close (smallEnd 3), .close (smallEnd 0)], by decide⟩

theorem opens_single {s : StartChunk} {name : String} {a : AttrEntry} {kv : String × Value}
    (hname : strings[s.name.toNat]? = some name) (hattrs : s.attrs = [a])
    (ha : AttrSpelled strings a kv) : Opens strings s name {kv} := by
  refine ⟨hname, [kv], ?_, List.nodup_singleton _, ?_⟩
  · rw [hattrs]
    exact .cons ha .nil
  · intro k v
    have := @foldl_insert_getElem? [kv] (List.nodup_singleton _) ∅ k v
    simpa using this

theorem smallPool_fits : smallPool.Fits := by
  show ∀ s ∈ smallPool.strings, smallPool.encoding.Fits s
  decide

theorem smallDocument_describes : smallDocument.Describes smallManifest := by
  refine ⟨[], [], [], smallPool, smallDocument.chunks.tail, rfl, smallPool_fits, ?_⟩
  have hroot : Opens smallPool.strings smallRoot "manifest" {("package", .str "a.b")} :=
    opens_single rfl rfl ⟨rfl, by decide, .str rfl⟩
  have hchild : Opens smallPool.strings smallChild "uses-sdk" {("minSdkVersion", .int 23)} :=
    opens_single rfl rfl
      ⟨rfl, by decide, .int (Or.inl rfl) (by norm_num) (by norm_num) (by decide)⟩
  exact .mk hroot (.other (.cons (.mk hchild .nil) .nil))

theorem smallDocument_fits : smallDocument.Fits32 := by
  unfold Document.Fits32
  decide +kernel

theorem parse_describes_smallDocument : smallDocument.Describes smallManifest ∧
    smallDocument.Fits32 ∧ parse .w64 smallDocument.bytes = .ok smallManifest :=
  ⟨smallDocument_describes, smallDocument_fits,
    parse_describes smallDocument_describes smallDocument_fits⟩

/-! ## No tree is left out

A tree whose strings are pooled, whose integers fit 32 bits and whose elements have at most 65535
attributes is described by some document, with its pool in either encoding. -/

/-- The value fits a data word, and a string is in the pool. -/
def Value.Encodable (strings : List String) : Value → Prop
  | .str s => s ∈ strings
  | .int v => -2 ^ 31 ≤ v ∧ v < 2 ^ 31
  | _ => True

/-- The tree fits the layout, and the pool has its strings. -/
inductive Element.Encodable (strings : List String) : Element → Prop where
  | mk {name : String} {attrs : Attrs} {children : List Element} :
      name ∈ strings → attrs.toList.length < 2 ^ 16 →
      (∀ kv ∈ attrs.toList, kv.1 ≠ "" ∧ kv.1 ∈ strings ∧ kv.2.Encodable strings) →
      (∀ el ∈ children, Element.Encodable strings el) →
      Element.Encodable strings ⟨name, attrs, children⟩

theorem exists_index (hlen : strings.length < 2 ^ 32) {s : String} (h : s ∈ strings) :
    ∃ i : UInt32, strings[i.toNat]? = some s := by
  obtain ⟨n, hn, hs⟩ := List.getElem_of_mem h
  refine ⟨UInt32.ofNat n, ?_⟩
  rw [toNat_ofNat32 (by omega), List.getElem?_eq_getElem hn, hs]

theorem exists_valueSpelled (hlen : strings.length < 2 ^ 32) {v : Value}
    (h : v.Encodable strings) : ∃ ty data, ValueSpelled strings v ty data := by
  cases v with
  | str s =>
      obtain ⟨i, hi⟩ := exists_index hlen h
      exact ⟨_, i, .str hi⟩
  | int v =>
      obtain ⟨hlo, hhi⟩ := h
      refine ⟨TYPE_INT_DEC, UInt32.ofNat (v % 2 ^ 32).toNat, .int (Or.inl rfl) hlo hhi ?_⟩
      rw [toNat_ofNat32 (by omega)]
      omega
  | bool b =>
      cases b with
      | false => exact ⟨_, _, .false⟩
      | true => exact ⟨_, 1, .true (by decide)⟩
  | float bits => exact ⟨_, _, .float⟩
  | reference id => exact ⟨_, _, .reference⟩
  | raw v => exact ⟨0xFF, v, .raw (by decide)⟩

theorem exists_attrsSpelled (hlen : strings.length < 2 ^ 32) {kvs : List (String × Value)}
    (h : ∀ kv ∈ kvs, kv.1 ≠ "" ∧ kv.1 ∈ strings ∧ kv.2.Encodable strings) :
    ∃ as : List AttrEntry, List.Forall₂ (AttrSpelled strings) as kvs ∧
      ∀ a ∈ as, a.pad.length = 0 := by
  induction kvs with
  | nil => exact ⟨[], .nil, by simp⟩
  | cons kv kvs ih =>
      obtain ⟨as, has, hpad⟩ := ih (fun kv hkv => h kv (List.mem_cons_of_mem _ hkv))
      obtain ⟨hne, hname, hvalue⟩ := h kv List.mem_cons_self
      obtain ⟨i, hi⟩ := exists_index hlen hname
      obtain ⟨ty, data, hv⟩ := exists_valueSpelled hlen hvalue
      refine ⟨⟨0, i, 0, 8, 0, ty, data, []⟩ :: as, .cons ⟨hi, hne, hv⟩ has, ?_⟩
      intro a ha
      rcases List.mem_cons.mp ha with rfl | ha
      · rfl
      · exact hpad a ha

theorem exists_opens (hlen : strings.length < 2 ^ 32) {name : String} {attrs : Attrs}
    (hname : name ∈ strings) (hcount : attrs.toList.length < 2 ^ 16)
    (hattrs : ∀ kv ∈ attrs.toList, kv.1 ≠ "" ∧ kv.1 ∈ strings ∧ kv.2.Encodable strings) :
    ∃ s : StartChunk, Opens strings s name attrs := by
  obtain ⟨i, hi⟩ := exists_index hlen hname
  obtain ⟨as, has, hpad⟩ := exists_attrsSpelled hlen hattrs
  have hnodup : (attrs.toList.map Prod.fst).Nodup := by
    rw [Std.ExtTreeMap.map_fst_toList_eq_keys]
    exact Std.ExtTreeMap.nodup_keys
  refine ⟨⟨16, 0, 0, 0, i, 0, 0, 0, [], 0, as, [], by norm_num, by norm_num,
    has.length_eq ▸ hcount, hpad⟩, hi, attrs.toList, has, hnodup, ?_⟩
  intro k v
  rw [Std.ExtTreeMap.mem_toList_iff_getElem?_eq_some]

theorem exists_spellsAll {els : List Element} (h : ∀ el ∈ els, ∃ cs, Spells strings cs el) :
    ∃ cs, SpellsAll strings cs els := by
  induction els with
  | nil => exact ⟨[], .nil⟩
  | cons el els ih =>
      obtain ⟨cs, hcs⟩ := h el List.mem_cons_self
      obtain ⟨ds, hds⟩ := ih (fun el hel => h el (List.mem_cons_of_mem _ hel))
      exact ⟨cs ++ ds, .cons hcs hds⟩

theorem exists_spells (hlen : strings.length < 2 ^ 32) {el : Element}
    (h : el.Encodable strings) : ∃ cs, Spells strings cs el := by
  induction h with
  | mk hname hcount hattrs hchildren ih =>
      obtain ⟨s, hs⟩ := exists_opens hlen hname hcount hattrs
      obtain ⟨body, hbody⟩ := exists_spellsAll ih
      exact ⟨_, Spells.mk (e := ⟨16, 0, 0, 0, 0, []⟩) hs hbody⟩

/-- Every tree that fits the layout has a document, its pool in the encoding asked for. -/
theorem exists_describes {t : Element} (enc : Encoding) (hlen : strings.length < 2 ^ 32)
    (hfits : ∀ s ∈ strings, enc.Fits s) (h : t.Encodable strings) :
    ∃ (d : Document) (p : PoolChunk), d.Describes t ∧ Chunk.pool p ∈ d.chunks ∧
      p.encoding = enc ∧ p.strings = strings := by
  obtain ⟨body, hbody⟩ := exists_spells hlen h
  have hflags : ∃ flags : UInt32,
      (if flags &&& UTF8_FLAG ≠ 0 then Encoding.utf8 else .utf16) = enc := by
    cases enc with
    | utf8 => exact ⟨UTF8_FLAG, by decide⟩
    | utf16 => exact ⟨0, by decide⟩
  obtain ⟨flags, hflags⟩ := hflags
  let p : PoolChunk := ⟨28, 0, flags, 0, strings, []⟩
  have hp : p.Fits := by
    intro s hs
    rw [show p.encoding = enc from hflags]
    exact hfits s hs
  refine ⟨⟨3, 0, [], .pool p :: body, by norm_num⟩, p, ⟨[], [], [], p, body, ?_, hp, hbody⟩,
    List.mem_cons_self, hflags, rfl⟩
  simp

end Xylitol.Apk.Axml
