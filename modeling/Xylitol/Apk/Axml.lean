import Xylitol.Reader
import Xylitol.Utf

/-!
# Binary XML: the reader

Android's compiled `AndroidManifest.xml` is a chunked binary format. `parse` walks its chunks with a
cursor, keeps the most recent string pool, pushes an element for every START chunk and attaches it
to its parent at the END chunk:

    bytes ──Cursor──▶ chunks ──parseChunk──▶ (pool, stack, root) ──▶ Element

Everything here is the reader as the code has it, error texts included. What the reader is *for* is
said in `Axml/Layout.lean`, which describes the documents the format allows, and the two are
compared in `Axml/RoundTrip.lean` and `Axml/Truncation.lean`.
-/

namespace Xylitol.Apk

/-- `xylitol_apk::Error`. -/
inductive Error where
  | io (reason : String)
  | zip (reason : String)
  | notAnApk
  | axml (reason : String)
  deriving DecidableEq, Repr

namespace Axml

/-! ## Chunk, flag and value type codes -/

def RES_STRING_POOL_TYPE : UInt16 := 0x0001
def RES_XML_START_ELEMENT : UInt16 := 0x0102
def RES_XML_END_ELEMENT : UInt16 := 0x0103

def UTF8_FLAG : UInt32 := 0x100

def TYPE_REFERENCE : UInt8 := 0x01
def TYPE_STRING : UInt8 := 0x03
def TYPE_FLOAT : UInt8 := 0x04
def TYPE_INT_DEC : UInt8 := 0x10
def TYPE_INT_HEX : UInt8 := 0x11
def TYPE_INT_BOOLEAN : UInt8 := 0x12

/-! ## Values and elements -/

/-- A decoded attribute value. A float is kept as its bit pattern. -/
inductive Value where
  | str (s : String)
  | int (v : Int)
  | bool (b : Bool)
  | float (bits : UInt32)
  | reference (id : UInt32)
  | raw (v : UInt32)
  deriving DecidableEq, Repr

/-- `{:08x}`. -/
def hex8 (x : UInt32) : String := String.ofList ((Nat.toDigits 16 x.toNat).leftpad 8 '0')

def Value.asStr : Value → Option String
  | .str s => some s
  | _ => none

def Value.asI64 : Value → Option Int
  | .int v => some v
  | .bool b => some (if b then 1 else 0)
  | _ => none

/-- `Value::to_display`. How `f32` prints is the standard library's business: `showFloat` is its
`Display`, applied to the bit pattern. -/
def Value.toDisplay (showFloat : UInt32 → String) : Value → String
  | .str s => s
  | .int v => toString v
  | .bool b => toString b
  | .float bits => showFloat bits
  | .reference id => "@0x" ++ hex8 id
  | .raw v => "0x" ++ hex8 v

/-- Attributes of one element, a `BTreeMap` keyed by local name. -/
abbrev Attrs := Std.ExtTreeMap String Value

/-- One XML element with its attributes, keyed by local attribute name. -/
structure Element where
  name : String
  attrs : Attrs
  children : List Element

namespace Element

def attr (e : Element) (name : String) : Option Value := e.attrs[name]?

def attrStr (e : Element) (name : String) : Option String := (e.attr name).bind Value.asStr

def attrI64 (e : Element) (name : String) : Option Int := (e.attr name).bind Value.asI64

/-- Direct children with the given tag name. -/
def childrenNamed (e : Element) (name : String) : List Element :=
  e.children.filter (·.name == name)

def child (e : Element) (name : String) : Option Element :=
  e.children.find? (·.name == name)

end Element

/-! ## The cursor

The four operations of the source's `Cursor`; the cursor itself is the state of the `Reader`. -/

abbrev AxmlReader := Reader Error

/-- `c.take(n)?`. -/
def take (w : PtrWidth) (n : Nat) : AxmlReader Bytes := fun c =>
  match checkedAdd w c.pos n with
  | none => .error (.axml "chunk length overflow")
  | some stop =>
    if stop > c.buf.length then .error (.axml "truncated binary XML")
    else .ok ((c.buf.drop c.pos).take n, { c with pos := stop })

/-- `c.u16()?`. -/
def u16 (w : PtrWidth) : AxmlReader UInt16 := do
  let b ← take w 2
  return u16OfLe (b.getD 0 0) (b.getD 1 0)

/-- `c.u32()?`. -/
def u32 (w : PtrWidth) : AxmlReader UInt32 := do
  let b ← take w 4
  return u32OfLe (b.getD 0 0) (b.getD 1 0) (b.getD 2 0) (b.getD 3 0)

/-- `if declared > base { c.take(declared - base)?; }`: what a declared size has beyond the `base`
bytes the reader knows about is passed over. -/
def skipPast (w : PtrWidth) (declared base : Nat) : AxmlReader Unit :=
  if declared > base then do
    let _ ← take w (declared - base)
    return ()
  else return ()

/-! ## The string pool -/

/-- The string pool shared by every chunk in the document. -/
structure StringPool where
  strings : List String

def StringPool.get (pool : StringPool) (index : UInt32) : Option String :=
  if index = 0xFFFFFFFF then none else pool.strings[index.toNat]?

def readLen8 : Bytes → Option (Nat × Bytes)
  | [] => none
  | first :: rest =>
    if first.toNat &&& 0x80 ≠ 0 then
      match rest with
      | [] => none
      | second :: rest => some (((first.toNat &&& 0x7f) <<< 8) ||| second.toNat, rest)
    else some (first.toNat, rest)

def readLen16 : Bytes → Option (Nat × Bytes)
  | b₀ :: b₁ :: rest =>
    let first := (u16OfLe b₀ b₁).toNat
    if first &&& 0x8000 ≠ 0 then
      match rest with
      | b₂ :: b₃ :: rest =>
        some (((first &&& 0x7fff) <<< 16) ||| (u16OfLe b₂ b₃).toNat, rest)
      | _ => none
    else some (first, rest)
  | _ => none

/-- `bytes.as_chunks::<2>().0`, each pair read as a little-endian unit. -/
def unitsOf : Bytes → List UInt16
  | b₀ :: b₁ :: rest => u16OfLe b₀ b₁ :: unitsOf rest
  | _ => []

/-- `buf.get(..n)`. -/
def getPrefix (buf : Bytes) (n : Nat) : Option Bytes :=
  if n ≤ buf.length then some (buf.take n) else none

/-- UTF-8 pools store a character length then a byte length; UTF-16 pools a length in units. -/
def readString (buf : Bytes) (utf8 : Bool) : Option String :=
  if utf8 then do
    let (_, rest) ← readLen8 buf
    let (byteLen, rest) ← readLen8 rest
    let bytes ← getPrefix rest byteLen
    return fromUtf8Lossy bytes
  else do
    let (charLen, rest) ← readLen16 buf
    let bytes ← getPrefix rest (charLen * 2)
    return fromUtf16Lossy (unitsOf bytes)

/-- The `string_count` offsets after the pool header. -/
def readOffsets (w : PtrWidth) : Nat → AxmlReader (List Nat)
  | 0 => return []
  | n + 1 => do
    let off ← u32 w
    let offs ← readOffsets w n
    return off.toNat :: offs

/-- The string at one offset. A string that starts past the chunk, or cannot be read, is empty: a
damaged tail is tolerated. -/
def stringAt (w : PtrWidth) (chunk : Bytes) (utf8 : Bool) (stringsStart off : Nat) :
    Except Error String :=
  match checkedAdd w stringsStart off with
  | none => .error (.axml "string offset overflow")
  | some start =>
    if start ≥ chunk.length then return ""
    else return (readString (chunk.drop start) utf8).getD ""

/-- The pool header and the offset table: whether the pool is UTF-8, where its strings start and
the offset of each. -/
def readPoolHeader (w : PtrWidth) : AxmlReader (Bool × Nat × List Nat) := do
  let _ty ← u16 w
  let _headerSize ← u16 w
  let _size ← u32 w
  let stringCount ← u32 w
  let _styleCount ← u32 w
  let flags ← u32 w
  let stringsStart ← u32 w
  let _stylesStart ← u32 w
  let offsets ← readOffsets w stringCount.toNat
  return (flags &&& UTF8_FLAG ≠ 0, stringsStart.toNat, offsets)

/-- `chunk` starts at the chunk header. -/
def StringPool.parse (w : PtrWidth) (chunk : Bytes) : Except Error StringPool := do
  let ((utf8, stringsStart, offsets), _) ← (readPoolHeader w).run (Cursor.new chunk)
  let strings ← offsets.mapM (stringAt w chunk utf8 stringsStart)
  return ⟨strings⟩

/-! ## Elements -/

/-- `data as i32 as i64`. -/
def signed32 (data : UInt32) : Int :=
  if data.toNat < 2 ^ 31 then data.toNat else (data.toNat : Int) - 2 ^ 32

def decodeValue (pool : StringPool) (dataType : UInt8) (rawValue data : UInt32) : Value :=
  if dataType = TYPE_STRING then .str ((pool.get data <|> pool.get rawValue).getD "")
  else if dataType = TYPE_INT_DEC ∨ dataType = TYPE_INT_HEX then .int (signed32 data)
  else if dataType = TYPE_INT_BOOLEAN then .bool (data ≠ 0)
  else if dataType = TYPE_FLOAT then .float data
  else if dataType = TYPE_REFERENCE then .reference data
  else .raw data

/-- Framework attributes are sometimes stored with an empty name and identified only by their
resource id. -/
def attrName (pool : StringPool) (nameIdx : UInt32) : String :=
  match pool.get nameIdx with
  | some n => if n.isEmpty then "attr0x" ++ hex8 nameIdx else n
  | none => "attr0x" ++ hex8 nameIdx

def parseAttr (w : PtrWidth) (pool : StringPool) (attrSize : Nat) :
    AxmlReader (String × Value) := do
  let _ns ← u32 w
  let nameIdx ← u32 w
  let rawValue ← u32 w
  let _valueSize ← u16 w
  let _res0 ← take w 1
  let dataType ← take w 1
  let data ← u32 w
  skipPast w attrSize 20
  return (attrName pool nameIdx, decodeValue pool (dataType.getD 0 0) rawValue data)

/-- `for _ in 0..attr_count`, inserting into the element's attributes. -/
def parseAttrs (w : PtrWidth) (pool : StringPool) (attrSize : Nat) :
    Nat → Attrs → AxmlReader Attrs
  | 0, attrs => return attrs
  | n + 1, attrs => do
    let attr ← parseAttr w pool attrSize
    parseAttrs w pool attrSize n (attrs.insert attr.1 attr.2)

def parseStartElement (w : PtrWidth) (pool : StringPool) : AxmlReader Element := do
  let _line ← u32 w
  let _comment ← u32 w
  let _ns ← u32 w
  let nameIdx ← u32 w
  let attrStart ← u16 w
  let attrSize ← u16 w
  let attrCount ← u16 w
  let _idIndex ← u16 w
  let _classIndex ← u16 w
  let _styleIndex ← u16 w
  skipPast w attrStart.toNat 20
  if attrSize.toNat < 20 then
    throw (.axml "attribute entry too small")
  else
    let attrs ← parseAttrs w pool attrSize.toNat attrCount.toNat ∅
    return ⟨(pool.get nameIdx).getD "", attrs, []⟩

/-! ## The document -/

/-- What the chunk loop carries. `stack` holds the elements currently open, innermost first. -/
structure DocState where
  pool : Option StringPool
  stack : List Element
  root : Option Element

def DocState.init : DocState := ⟨none, [], none⟩

/-- An END chunk: the innermost open element is attached to its parent, or becomes the root. -/
def DocState.close (st : DocState) : DocState :=
  match st.stack with
  | [] => st
  | [done] => { st with stack := [], root := some done }
  | done :: parent :: rest =>
    { st with stack := { parent with children := parent.children ++ [done] } :: rest }

/-- The chunk header: the chunk's type and its declared size. -/
def readChunkHeader (w : PtrWidth) : AxmlReader (UInt16 × UInt32) := do
  let ty ← u16 w
  let _chunkHeaderSize ← u16 w
  let chunkSize ← u32 w
  return (ty, chunkSize)

/-- The two checks on a declared size, and the end of the chunk that starts at the cursor. -/
def checkChunkEnd (w : PtrWidth) (c : Cursor) (chunkSize : UInt32) : Except Error Nat :=
  if chunkSize.toNat < 8 then .error (.axml "chunk smaller than its header")
  else
    match (checkedAdd w c.pos chunkSize.toNat).filter (· ≤ c.buf.length) with
    | none => .error (.axml "chunk runs past end of file")
    | some chunkEnd => .ok chunkEnd

/-- `match ty { .. }`. The cursor's buffer is the whole document, so a reader of one element can
run past the end of its chunk. -/
def handleChunk (w : PtrWidth) (ty : UInt16) (chunkStart chunkEnd : Nat) (c : Cursor)
    (st : DocState) : Except Error DocState :=
  if ty = RES_STRING_POOL_TYPE then do
    let pool ← StringPool.parse w ((c.buf.take chunkEnd).drop chunkStart)
    return { st with pool := some pool }
  else if ty = RES_XML_START_ELEMENT then
    match st.pool with
    | none => throw (.axml "element before string pool")
    | some pool => do
      let (el, _) ← (parseStartElement w pool).run c
      return { st with stack := el :: st.stack }
  else if ty = RES_XML_END_ELEMENT then return st.close
  else return st

/-- The body of the chunk loop. The cursor is left at the declared end of the chunk, whatever was
read of it. -/
def parseChunk (w : PtrWidth) (c : Cursor) (st : DocState) : Except Error (Cursor × DocState) := do
  let ((ty, chunkSize), body) ← (readChunkHeader w).run c
  let chunkEnd ← checkChunkEnd w c chunkSize
  let st ← handleChunk w ty c.pos chunkEnd body st
  return ({ c with pos := chunkEnd }, st)

/-! ### Termination: every chunk is at least its own header long -/

theorem checkChunkEnd_eq_ok {w : PtrWidth} {c : Cursor} {chunkSize : UInt32} {chunkEnd : Nat} :
    checkChunkEnd w c chunkSize = .ok chunkEnd ↔
      8 ≤ chunkSize.toNat ∧ chunkEnd = c.pos + chunkSize.toNat ∧
        chunkEnd ≤ c.buf.length ∧ chunkEnd < w.size := by
  unfold checkChunkEnd checkedAdd
  by_cases hsmall : chunkSize.toNat < 8
  · simp only [hsmall, if_true, reduceCtorEq, false_iff]
    omega
  by_cases hfit : c.pos + chunkSize.toNat < w.size
  · by_cases hlen : c.pos + chunkSize.toNat ≤ c.buf.length
    · simp only [hsmall, hfit, hlen, if_true, if_false, Option.filter_some, decide_true,
        Except.ok.injEq]
      omega
    · simp only [hsmall, hfit, hlen, if_true, if_false, Option.filter_some, decide_false,
        Bool.false_eq_true, reduceCtorEq, false_iff]
      omega
  · simp only [hsmall, hfit, if_false, Option.filter_none, reduceCtorEq, false_iff]
    omega

theorem parseChunk_remaining {w : PtrWidth} {c c' : Cursor} {st st' : DocState}
    (h : parseChunk w c st = .ok (c', st')) (hrem : 8 ≤ c.remaining) :
    c'.remaining < c.remaining := by
  unfold parseChunk at h
  obtain ⟨⟨⟨ty, chunkSize⟩, body⟩, -, h⟩ := bind_eq_ok.mp h
  obtain ⟨chunkEnd, hend, h⟩ := bind_eq_ok.mp h
  obtain ⟨st₁, -, h⟩ := bind_eq_ok.mp h
  obtain ⟨hsize, hend, -, -⟩ := checkChunkEnd_eq_ok.mp hend
  cases h
  simp only [Cursor.remaining] at *
  omega

/-- `while c.remaining() >= 8`. -/
def parseChunks (w : PtrWidth) (c : Cursor) (st : DocState) : Except Error DocState :=
  if _hrem : 8 ≤ c.remaining then
    match _h : parseChunk w c st with
    | .error e => .error e
    | .ok (c', st') => parseChunks w c' st'
  else .ok st
termination_by c.remaining
decreasing_by exact parseChunk_remaining _h _hrem

/-- The file header; extra bytes a newer tool may have added are skipped. -/
def fileHeader (w : PtrWidth) : AxmlReader Unit := do
  let _ty ← u16 w
  let headerSize ← u16 w
  let _fileSize ← u32 w
  skipPast w headerSize.toNat 8

/-- Decode a binary XML document into its root element. -/
def parse (w : PtrWidth) (data : Bytes) : Except Error Element := do
  let (_, c) ← (fileHeader w).run (Cursor.new data)
  let st ← parseChunks w c .init
  -- with no closed root, whatever is innermost among the open elements is returned
  match st.root <|> st.stack.head? with
  | some root => return root
  | none => throw (.axml "no root element")

end Axml
end Xylitol.Apk
