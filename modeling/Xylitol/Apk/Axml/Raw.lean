import Xylitol.Panic
import Xylitol.Apk.Axml.Decode

/-!
# Binary XML: no input panics the reader

`Axml.lean` gives what the reader computes. Here the reader is written a second time, operation for
operation, with the slices, indices, subtractions, multiplications and shifts of the source as the
ones that can panic, and with the chunk loop cut off after a number of rounds:

    Raw.parse w rounds data  ──lift──  Axml.parse w data        for rounds = data.length / 8

Each raw piece equals the plain one it belongs to, on every input of its own, so the argument for
one function does not depend on what its callers check. Making room for `string_count` offsets
(`Vec::with_capacity`) is taken to succeed here; `Axml/Reserving.lean` says what is asked for.
-/

namespace Xylitol.Apk.Axml
namespace Raw

open Checked

variable {w : PtrWidth}

abbrev RawReader := Reader (Fault Error)

/-! ## The cursor -/

def take (w : PtrWidth) (n : Nat) : RawReader Bytes := fun c =>
  match checkedAdd w c.pos n with
  | none => .error (.err (.axml "chunk length overflow"))
  | some stop =>
    if stop > c.buf.length then .error (.err (.axml "truncated binary XML"))
    else do
      let slice ← slice c.buf c.pos stop
      return (slice, { c with pos := stop })

/-- `b[i]`. -/
def byte (b : Bytes) (i : Nat) : RawReader UInt8 := (index b i : Checked Error UInt8)

def u16 (w : PtrWidth) : RawReader UInt16 := do
  let b ← take w 2
  return u16OfLe (← byte b 0) (← byte b 1)

def u32 (w : PtrWidth) : RawReader UInt32 := do
  let b ← take w 4
  return u32OfLe (← byte b 0) (← byte b 1) (← byte b 2) (← byte b 3)

def skipPast (w : PtrWidth) (declared base : Nat) : RawReader Unit :=
  if declared > base then do
    let _ ← take w (← (sub declared base : Checked Error Nat))
    return ()
  else return ()

theorem take_eq (n : Nat) : take w n = liftReader (Axml.take w n) := by
  funext c
  unfold take liftReader Axml.take
  cases hstop : checkedAdd w c.pos n with
  | none => rfl
  | some stop =>
    have hle : stop = c.pos + n := checkedAdd_eq_some hstop
    by_cases hlen : stop > c.buf.length
    · simp [hlen]
    · have hslice : (c.buf.take stop).drop c.pos = (c.buf.drop c.pos).take n := by
        rw [hle, List.drop_take, Nat.add_sub_cancel_left]
      simp only [hlen, if_false, lift_ok]
      rw [slice_of_le (by omega) (by omega), hslice]
      rfl

/-- What `take` returns is as long as what was asked for. -/
theorem take_eq_ok {n : Nat} {c c' : Cursor} {b : Bytes}
    (h : (Axml.take w n).run c = .ok (b, c')) : b.length = n ∧ c'.buf = c.buf := by
  change Axml.take w n c = .ok (b, c') at h
  unfold Axml.take at h
  cases hstop : checkedAdd w c.pos n with
  | none => simp [hstop] at h
  | some stop =>
    have hle : stop = c.pos + n := checkedAdd_eq_some hstop
    simp only [hstop] at h
    split at h
    · cases h
    · cases h
      simp only [List.length_take, List.length_drop, and_true]
      omega

theorem keeps_take (n : Nat) : Keeps (Axml.take w n) := fun _ _ _ h => (take_eq_ok h).2

theorem keeps_u16 : Keeps (Axml.u16 w) := (keeps_take 2).bind fun _ => .pure _

theorem keeps_u32 : Keeps (Axml.u32 w) := (keeps_take 4).bind fun _ => .pure _

theorem keeps_skipPast (declared base : Nat) : Keeps (Axml.skipPast w declared base) := by
  unfold Axml.skipPast
  split
  · exact (keeps_take _).bind fun _ => .pure _
  · exact .pure _

theorem u16_eq : u16 w = liftReader (Axml.u16 w) := by
  unfold u16 Axml.u16
  rw [take_eq]
  apply liftReader_bind_of
  intro c b c' hb
  match b, (take_eq_ok hb).1 with
  | [_, _], _ => rfl

theorem u32_eq : u32 w = liftReader (Axml.u32 w) := by
  unfold u32 Axml.u32
  rw [take_eq]
  apply liftReader_bind_of
  intro c b c' hb
  match b, (take_eq_ok hb).1 with
  | [_, _, _, _], _ => rfl

theorem skipPast_eq (declared base : Nat) :
    skipPast w declared base = liftReader (Axml.skipPast w declared base) := by
  unfold skipPast Axml.skipPast
  by_cases h : declared > base
  · simp only [h, if_true, sub_of_le (Nat.le_of_lt h)]
    show (take w (declared - base) >>= fun _ => pure ()) = _
    rw [take_eq]
    exact liftReader_bind fun _ => rfl
  · simp only [h, if_false]
    rfl

/-! ## The string pool -/

def readLen8 (w : PtrWidth) (buf : Bytes) : Checked Error (Option (Nat × Bytes)) :=
  match buf[0]? with
  | none => return none
  | some first =>
    if first.toNat &&& 0x80 ≠ 0 then
      match buf[1]? with
      | none => return none
      | some second => do
        let high ← shl w (first.toNat &&& 0x7f) 8
        return some (high ||| second.toNat, ← sliceFrom buf 2)
    else do
      return some (first.toNat, ← sliceFrom buf 1)

def readLen16 (w : PtrWidth) (buf : Bytes) : Checked Error (Option (Nat × Bytes)) :=
  match buf[0]?, buf[1]? with
  | some b₀, some b₁ =>
    let first := (u16OfLe b₀ b₁).toNat
    if first &&& 0x8000 ≠ 0 then
      match buf[2]?, buf[3]? with
      | some b₂, some b₃ => do
        let high ← shl w (first &&& 0x7fff) 16
        return some (high ||| (u16OfLe b₂ b₃).toNat, ← sliceFrom buf 4)
      | _, _ => return none
    else do
      return some (first, ← sliceFrom buf 2)
  | _, _ => return none

def readString (w : PtrWidth) (buf : Bytes) (utf8 : Bool) : Checked Error (Option String) :=
  if utf8 then do
    match ← readLen8 w buf with
    | none => return none
    | some (_, rest) =>
      match ← readLen8 w rest with
      | none => return none
      | some (byteLen, rest) => return (getPrefix rest byteLen).map fromUtf8Lossy
  else do
    match ← readLen16 w buf with
    | none => return none
    | some (charLen, rest) =>
      let byteLen ← mul w charLen 2
      return (getPrefix rest byteLen).map fun bytes => fromUtf16Lossy (unitsOf bytes)

def readOffsets (w : PtrWidth) : Nat → RawReader (List Nat)
  | 0 => return []
  | n + 1 => do
    let off ← u32 w
    let offs ← readOffsets w n
    return off.toNat :: offs

def stringAt (w : PtrWidth) (chunk : Bytes) (utf8 : Bool) (stringsStart off : Nat) :
    Checked Error String :=
  match checkedAdd w stringsStart off with
  | none => .error (.err (.axml "string offset overflow"))
  | some start =>
    if start ≥ chunk.length then return ""
    else do
      let s ← readString w (← sliceFrom chunk start) utf8
      return s.getD ""

def readPoolHeader (w : PtrWidth) : RawReader (Bool × Nat × List Nat) := do
  let _ty ← u16 w
  let _headerSize ← u16 w
  let _size ← u32 w
  let stringCount ← u32 w
  let _styleCount ← u32 w
  let flags ← u32 w
  let stringsStart ← u32 w
  let _stylesStart ← u32 w
  let offsets ← readOffsets w stringCount.toNat
  return (flags &&& UTF8_FLAG ≠ 0, stringsStart.toNat, offsets)

def parsePool (w : PtrWidth) (chunk : Bytes) : Checked Error StringPool := do
  let ((utf8, stringsStart, offsets), _) ← (readPoolHeader w).run (Cursor.new chunk)
  let strings ← offsets.mapM (stringAt w chunk utf8 stringsStart)
  return ⟨strings⟩

/-- The bits of a length prefix that are kept, moved up by the width of its second half. -/
theorem shl_and {a m n : Nat} (hn : n ≤ 16) (hm : m < 2 ^ 15) :
    (shl w (a &&& m) n : Checked Error Nat) = .ok ((a &&& m) <<< n) := by
  have hbits := w.sixteen_lt_bits
  have hsize := w.two_pow_32_le_size
  have hand : a &&& m ≤ m := Nat.and_le_right
  have hpow : 2 ^ n ≤ 2 ^ 16 := Nat.pow_le_pow_right (by omega) hn
  apply shl_of_lt (by omega)
  rw [Nat.shiftLeft_eq]
  have : (a &&& m) * 2 ^ n ≤ 2 ^ 15 * 2 ^ 16 := Nat.mul_le_mul (by omega) hpow
  omega

theorem readLen8_eq (buf : Bytes) : readLen8 w buf = lift (.ok (Axml.readLen8 buf)) := by
  match buf with
  | [] => rfl
  | [first] =>
    simp only [readLen8, Axml.readLen8, List.getElem?_cons_zero]
    split <;> rfl
  | first :: second :: rest =>
    simp only [readLen8, Axml.readLen8, List.getElem?_cons_zero, List.getElem?_cons_succ]
    split
    · rw [shl_and (by omega) (by omega)]
      rfl
    · rfl

theorem readLen16_eq (buf : Bytes) : readLen16 w buf = lift (.ok (Axml.readLen16 buf)) := by
  match buf with
  | [] => rfl
  | [_] => rfl
  | [b₀, b₁] =>
    simp only [readLen16, Axml.readLen16, List.getElem?_cons_zero, List.getElem?_cons_succ]
    split <;> rfl
  | [b₀, b₁, b₂] =>
    simp only [readLen16, Axml.readLen16, List.getElem?_cons_zero, List.getElem?_cons_succ]
    split <;> rfl
  | b₀ :: b₁ :: b₂ :: b₃ :: rest =>
    simp only [readLen16, Axml.readLen16, List.getElem?_cons_zero, List.getElem?_cons_succ]
    split
    · rw [shl_and (by omega) (by omega)]
      rfl
    · rfl

/-- The four-byte form of a length holds 31 bits, which is why doubling it fits 32. -/
theorem readLen16_lt {buf rest : Bytes} {n : Nat} (h : Axml.readLen16 buf = some (n, rest)) :
    n < 2 ^ 31 := by
  rcases buf with _ | ⟨b₀, _ | ⟨b₁, tail⟩⟩
  · cases h
  · cases h
  · simp only [Axml.readLen16] at h
    split at h
    · rcases tail with _ | ⟨b₂, _ | ⟨b₃, tail⟩⟩
      · cases h
      · cases h
      · cases h
        have hand : (u16OfLe b₀ b₁).toNat &&& 0x7fff < 2 ^ 15 :=
          Nat.lt_of_le_of_lt Nat.and_le_right (by omega)
        have hlow : (u16OfLe b₂ b₃).toNat < 2 ^ 31 := by
          have := (u16OfLe b₂ b₃).toNat_lt
          omega
        apply Nat.or_lt_two_pow _ hlow
        rw [Nat.shiftLeft_eq]
        omega
    · cases h
      have := (u16OfLe b₀ b₁).toNat_lt
      omega

theorem readString_eq (buf : Bytes) (utf8 : Bool) :
    readString w buf utf8 = lift (.ok (Axml.readString buf utf8)) := by
  have hsize := w.two_pow_32_le_size
  cases utf8 with
  | true =>
    simp only [readString, Axml.readString, if_true, readLen8_eq, lift_ok, ok_bind]
    cases Axml.readLen8 buf with
    | none => rfl
    | some r =>
      simp only [Option.bind_eq_bind, Option.bind_some]
      cases Axml.readLen8 r.2 with
      | none => rfl
      | some r => simp only [Option.bind_some]; cases getPrefix r.2 r.1 <;> rfl
  | false =>
    simp only [readString, Axml.readString, Bool.false_eq_true, if_false, readLen16_eq, lift_ok,
      ok_bind]
    cases hlen : Axml.readLen16 buf with
    | none => rfl
    | some r =>
      have hlt : r.1 < 2 ^ 31 := readLen16_lt hlen
      simp only [Option.bind_eq_bind, Option.bind_some]
      rw [mul_of_lt (by omega), ok_bind]
      cases getPrefix r.2 (r.1 * 2) <;> rfl

theorem readOffsets_eq (n : Nat) : readOffsets w n = liftReader (Axml.readOffsets w n) := by
  induction n with
  | zero => rfl
  | succ n ih =>
    unfold readOffsets Axml.readOffsets
    rw [u32_eq, ih]
    apply liftReader_bind
    intro off
    exact liftReader_bind fun _ => rfl

theorem stringAt_eq (chunk : Bytes) (utf8 : Bool) (stringsStart off : Nat) :
    stringAt w chunk utf8 stringsStart off = lift (Axml.stringAt w chunk utf8 stringsStart off) := by
  unfold stringAt Axml.stringAt
  cases checkedAdd w stringsStart off with
  | none => rfl
  | some start =>
    dsimp only
    split
    · rfl
    · rw [sliceFrom_of_le (by omega), ok_bind, readString_eq]
      rfl

theorem readPoolHeader_eq : readPoolHeader w = liftReader (Axml.readPoolHeader w) := by
  unfold readPoolHeader Axml.readPoolHeader
  simp only [u16_eq, u32_eq, readOffsets_eq]
  iterate 9 apply liftReader_bind; intro _
  rfl

theorem parsePool_eq (chunk : Bytes) : parsePool w chunk = lift (StringPool.parse w chunk) := by
  unfold parsePool StringPool.parse
  rw [readPoolHeader_eq, liftReader_run]
  apply lift_bind_of
  intro ((utf8, stringsStart, offsets), _) _
  dsimp only
  rw [lift_mapM (stringAt_eq chunk utf8 stringsStart)]
  exact lift_bind_of fun _ _ => rfl

/-! ## Elements -/

def parseAttr (w : PtrWidth) (pool : StringPool) (attrSize : Nat) :
    RawReader (String × Value) := do
  let _ns ← u32 w
  let nameIdx ← u32 w
  let rawValue ← u32 w
  let _valueSize ← u16 w
  let _res0 ← take w 1
  let dataType ← byte (← take w 1) 0
  let data ← u32 w
  skipPast w attrSize 20
  return (attrName pool nameIdx, decodeValue pool dataType rawValue data)

def parseAttrs (w : PtrWidth) (pool : StringPool) (attrSize : Nat) : Nat → Attrs → RawReader Attrs
  | 0, attrs => return attrs
  | n + 1, attrs => do
    let attr ← parseAttr w pool attrSize
    parseAttrs w pool attrSize n (attrs.insert attr.1 attr.2)

def parseStartElement (w : PtrWidth) (pool : StringPool) : RawReader Element := do
  let _line ← u32 w
  let _comment ← u32 w
  let _ns ← u32 w
  let nameIdx ← u32 w
  let attrStart ← u16 w
  let attrSize ← u16 w
  let attrCount ← u16 w
  let _idIndex ← u16 w
  let _classIndex ← u16 w
  let _styleIndex ← u16 w
  skipPast w attrStart.toNat 20
  if attrSize.toNat < 20 then
    throw (.err (.axml "attribute entry too small"))
  else
    let attrs ← parseAttrs w pool attrSize.toNat attrCount.toNat ∅
    return ⟨(pool.get nameIdx).getD "", attrs, []⟩

theorem parseAttr_eq (pool : StringPool) (attrSize : Nat) :
    parseAttr w pool attrSize = liftReader (Axml.parseAttr w pool attrSize) := by
  unfold parseAttr Axml.parseAttr
  simp only [u16_eq, u32_eq, take_eq, skipPast_eq]
  iterate 5 apply liftReader_bind; intro _
  apply liftReader_bind_of
  intro c b c' hb
  match b, (take_eq_ok hb).1 with
  | [dataType], _ =>
    have hbyte : byte [dataType] 0 = pure dataType := rfl
    rw [hbyte, pure_bind, liftReader_bind]
    intro data
    exact liftReader_bind fun _ => rfl

theorem parseAttrs_eq (pool : StringPool) (attrSize n : Nat) (attrs : Attrs) :
    parseAttrs w pool attrSize n attrs = liftReader (Axml.parseAttrs w pool attrSize n attrs) := by
  induction n generalizing attrs with
  | zero => rfl
  | succ n ih =>
    unfold parseAttrs Axml.parseAttrs
    rw [parseAttr_eq]
    exact liftReader_bind fun attr => ih _

theorem parseStartElement_eq (pool : StringPool) :
    parseStartElement w pool = liftReader (Axml.parseStartElement w pool) := by
  unfold parseStartElement Axml.parseStartElement
  simp only [u16_eq, u32_eq, skipPast_eq, parseAttrs_eq]
  iterate 11 apply liftReader_bind; intro _
  split
  · rfl
  · exact liftReader_bind fun _ => rfl

/-! ## The document -/

def readChunkHeader (w : PtrWidth) : RawReader (UInt16 × UInt32) := do
  let ty ← u16 w
  let _chunkHeaderSize ← u16 w
  let chunkSize ← u32 w
  return (ty, chunkSize)

def handleChunk (w : PtrWidth) (ty : UInt16) (chunkStart chunkEnd : Nat) (c : Cursor)
    (st : DocState) : Checked Error DocState :=
  if ty = RES_STRING_POOL_TYPE then do
    let pool ← parsePool w (← slice c.buf chunkStart chunkEnd)
    return { st with pool := some pool }
  else if ty = RES_XML_START_ELEMENT then
    match st.pool with
    | none => throw (.err (.axml "element before string pool"))
    | some pool => do
      let (el, _) ← (parseStartElement w pool).run c
      return { st with stack := el :: st.stack }
  else if ty = RES_XML_END_ELEMENT then return st.close
  else return st

def parseChunk (w : PtrWidth) (c : Cursor) (st : DocState) : Checked Error (Cursor × DocState) := do
  let ((ty, chunkSize), body) ← (readChunkHeader w).run c
  let chunkEnd ← lift (checkChunkEnd w c chunkSize)
  let st ← handleChunk w ty c.pos chunkEnd body st
  return ({ c with pos := chunkEnd }, st)

/-- `while c.remaining() >= 8`, for at most `rounds` rounds. -/
def parseChunks (w : PtrWidth) : Nat → Cursor → DocState → Checked Error DocState
  | rounds, c, st =>
    if 8 ≤ c.remaining then
      match rounds with
      | 0 => .error .spent
      | rounds + 1 => do
        let (c, st) ← parseChunk w c st
        parseChunks w rounds c st
    else .ok st

def fileHeader (w : PtrWidth) : RawReader Unit := do
  let _ty ← u16 w
  let headerSize ← u16 w
  let _fileSize ← u32 w
  skipPast w headerSize.toNat 8

def parse (w : PtrWidth) (rounds : Nat) (data : Bytes) : Checked Error Element := do
  let (_, c) ← (fileHeader w).run (Cursor.new data)
  let st ← parseChunks w rounds c .init
  match st.root <|> st.stack.head? with
  | some root => return root
  | none => throw (.err (.axml "no root element"))

theorem readChunkHeader_eq : readChunkHeader w = liftReader (Axml.readChunkHeader w) := by
  unfold readChunkHeader Axml.readChunkHeader
  simp only [u16_eq, u32_eq]
  iterate 3 apply liftReader_bind; intro _
  rfl

theorem keeps_readChunkHeader : Keeps (Axml.readChunkHeader w) :=
  keeps_u16.bind fun _ => keeps_u16.bind fun _ => keeps_u32.bind fun _ => .pure _

theorem handleChunk_eq {ty : UInt16} {chunkStart chunkEnd : Nat} {c : Cursor} (st : DocState)
    (hle : chunkStart ≤ chunkEnd) (hend : chunkEnd ≤ c.buf.length) :
    handleChunk w ty chunkStart chunkEnd c st =
      lift (Axml.handleChunk w ty chunkStart chunkEnd c st) := by
  unfold handleChunk Axml.handleChunk
  split
  · rw [slice_of_le hle hend, ok_bind, parsePool_eq]
    exact lift_bind_of fun _ _ => rfl
  split
  · cases st.pool with
    | none => rfl
    | some pool =>
      dsimp only
      rw [parseStartElement_eq, liftReader_run]
      exact lift_bind_of fun _ _ => rfl
  split <;> rfl

theorem parseChunk_eq (c : Cursor) (st : DocState) :
    parseChunk w c st = lift (Axml.parseChunk w c st) := by
  unfold parseChunk Axml.parseChunk
  rw [readChunkHeader_eq, liftReader_run]
  apply lift_bind_of
  intro ((ty, chunkSize), body) hhead
  apply lift_bind_of
  intro chunkEnd hend
  obtain ⟨-, hstop, hlen, -⟩ := checkChunkEnd_eq_ok.mp hend
  have hbuf : body.buf = c.buf := keeps_readChunkHeader c _ body hhead
  rw [handleChunk_eq st (by omega) (by rw [hbuf]; exact hlen)]
  exact lift_bind_of fun _ _ => rfl

theorem fileHeader_eq : fileHeader w = liftReader (Axml.fileHeader w) := by
  unfold fileHeader Axml.fileHeader
  simp only [u16_eq, u32_eq, skipPast_eq]
  iterate 3 apply liftReader_bind; intro _
  rfl

/-- A chunk takes at least its header off what remains, however far its reader went. -/
theorem parseChunk_advance {c c' : Cursor} {st st' : DocState}
    (h : Axml.parseChunk w c st = .ok (c', st')) : c'.buf = c.buf ∧ c.pos + 8 ≤ c'.pos := by
  unfold Axml.parseChunk at h
  obtain ⟨⟨⟨ty, chunkSize⟩, body⟩, -, h⟩ := bind_eq_ok.mp h
  obtain ⟨chunkEnd, hend, h⟩ := bind_eq_ok.mp h
  obtain ⟨st₁, -, h⟩ := bind_eq_ok.mp h
  obtain ⟨hsize, hend, -, -⟩ := checkChunkEnd_eq_ok.mp hend
  cases h
  refine ⟨rfl, ?_⟩
  simp only
  omega

/-- One round for every eight bytes that remain is enough. -/
theorem parseChunks_eq {rounds : Nat} {c : Cursor} (st : DocState)
    (h : c.remaining < 8 * rounds + 8) :
    parseChunks w rounds c st = lift (Axml.parseChunks w c st) := by
  induction rounds generalizing c st with
  | zero =>
    have hlt : ¬ 8 ≤ c.remaining := by omega
    rw [parseChunks_of_lt st (by omega), parseChunks, if_neg hlt]
    rfl
  | succ rounds ih =>
    by_cases hrem : 8 ≤ c.remaining
    · rw [parseChunks, if_pos hrem]
      dsimp only
      rw [parseChunk_eq]
      cases hchunk : Axml.parseChunk w c st with
      | error e =>
        rw [parseChunks_of_error hrem hchunk]
        rfl
      | ok r =>
        obtain ⟨c', st'⟩ := r
        obtain ⟨hbuf, hpos⟩ := parseChunk_advance hchunk
        rw [parseChunks_of_ok hrem hchunk, lift_ok, ok_bind]
        apply ih
        simp only [Cursor.remaining, hbuf] at *
        omega
    · rw [parseChunks_of_lt st (by omega), parseChunks, if_neg hrem]
      rfl

theorem keeps_fileHeader : Keeps (Axml.fileHeader w) :=
  keeps_u16.bind fun _ => keeps_u16.bind fun _ => keeps_u32.bind fun _ => keeps_skipPast _ _

theorem parse_eq (data : Bytes) :
    parse w (data.length / 8) data = lift (Axml.parse w data) := by
  unfold parse Axml.parse
  rw [fileHeader_eq, liftReader_run]
  apply lift_bind_of
  intro r hheader
  have hbuf : r.2.buf = data := keeps_fileHeader _ _ _ hheader
  have hrem : r.2.remaining ≤ data.length := by
    rw [Cursor.remaining, hbuf]
    omega
  dsimp only
  rw [parseChunks_eq .init (by omega)]
  apply lift_bind_of
  intro st _
  cases st.root <|> st.stack.head? <;> rfl

/-- Whatever the bytes, the reader comes back with an element or an error of its own: no slice, index
or subtraction is out of range, no product of lengths overflows, and the chunk loop is done after
one round for every eight bytes of input. -/
theorem parse_total (w : PtrWidth) (data : Bytes) :
    ((∃ root, parse w (data.length / 8) data = .ok root) ∨
      ∃ e, parse w (data.length / 8) data = .error (.err e)) ∧
    parse w (data.length / 8) data = lift (Axml.parse w data) := by
  refine ⟨?_, parse_eq data⟩
  rw [parse_eq]
  exact lift_cases _

end Raw
end Xylitol.Apk.Axml
