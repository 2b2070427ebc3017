import Xylitol.Apk.Axml

/-!
# Binary XML: the documents the format allows

The reverse side of the reader. One tree has many encodings: chunks of types the reader does not
know may stand anywhere, headers may carry extra bytes, attribute records may be padded, a chunk may
trail bytes nobody reads, strings may be pooled in either encoding and in any order. As with a
tokenizer, whose reverse relation has redundant whitespace, that freedom is kept as data and the
encoding is a relation:

    Document ──bytes──▶ Bytes          Document.Describes t : the document is one encoding of t

`Spells` says which chunk sequences stand for a tree: a START chunk, the children in order, an END
chunk, with foreign chunks anywhere between. Bounds that a field's width imposes are fields of the
layouts, so a layout that cannot be written down cannot be built.
-/

namespace Xylitol.Apk.Axml

/-! ## Strings -/

/-- The two encodings a string pool can have. -/
inductive Encoding where
  | utf8
  | utf16
  deriving DecidableEq, Repr

/-- A length below `0x8000`: one byte below `0x80`, else two with the high bit set. -/
def len8 (n : Nat) : Bytes :=
  if n < 0x80 then [UInt8.ofNat n] else [UInt8.ofNat (0x80 + n / 256), UInt8.ofNat n]

/-- A length below `2 ^ 31`: one unit below `0x8000`, else two with the high bit set. -/
def len16 (n : Nat) : Bytes :=
  if n < 0x8000 then le16 (UInt16.ofNat n)
  else le16 (UInt16.ofNat (0x8000 + n / 65536)) ++ le16 (UInt16.ofNat n)

/-- One pooled string: its length prefix, its code units and a terminating zero unit. -/
def Encoding.encode : Encoding → String → Bytes
  | .utf8, s => len8 s.length ++ (len8 (utf8Bytes s).length ++ (utf8Bytes s ++ [0]))
  | .utf16, s => len16 (utf16Units s).length ++ ((utf16Units s).flatMap le16 ++ [0, 0])

/-- The lengths the prefix can express. -/
def Encoding.Fits : Encoding → String → Prop
  | .utf8, s => (utf8Bytes s).length < 0x8000
  | .utf16, s => (utf16Units s).length < 2 ^ 31

instance (enc : Encoding) (s : String) : Decidable (enc.Fits s) := by
  cases enc <;> unfold Encoding.Fits <;> infer_instance

/-! ## Chunks -/

/-- A chunk: its type, its header size, its total size and what follows its header. -/
def chunkBytes (ty headerSize : UInt16) (body : Bytes) : Bytes :=
  le16 ty ++ (le16 headerSize ++ (le32 (UInt32.ofNat (8 + body.length)) ++ body))

@[simp] theorem length_chunkBytes (ty headerSize : UInt16) (body : Bytes) :
    (chunkBytes ty headerSize body).length = 8 + body.length := by
  simp only [chunkBytes, List.length_append, length_le16, length_le32]
  omega

/-- A chunk of a type the reader does not know. -/
structure OtherChunk where
  ty : UInt16
  headerSize : UInt16
  body : Bytes
  foreign : ty ≠ RES_STRING_POOL_TYPE ∧ ty ≠ RES_XML_START_ELEMENT ∧ ty ≠ RES_XML_END_ELEMENT

/-- A string pool. `tail` is what stands after the last string: alignment, styles. -/
structure PoolChunk where
  headerSize : UInt16
  styleCount : UInt32
  flags : UInt32
  stylesStart : UInt32
  strings : List String
  tail : Bytes

namespace PoolChunk

def encoding (p : PoolChunk) : Encoding := if p.flags &&& UTF8_FLAG ≠ 0 then .utf8 else .utf16

/-- Where each string starts, the first one `start` bytes in. -/
def offsetsFrom (enc : Encoding) : Nat → List String → List Nat
  | _, [] => []
  | start, s :: ss => start :: offsetsFrom enc (start + (enc.encode s).length) ss

/-- The strings one after the other. -/
def blob (enc : Encoding) (strings : List String) : Bytes := strings.flatMap enc.encode

/-- The offset table: 28 bytes of header and four for each string come before the strings. -/
def stringsStart (p : PoolChunk) : Nat := 28 + 4 * p.strings.length

def body (p : PoolChunk) : Bytes :=
  le32 (UInt32.ofNat p.strings.length) ++ (le32 p.styleCount ++ (le32 p.flags ++
    (le32 (UInt32.ofNat p.stringsStart) ++ (le32 p.stylesStart ++
      ((offsetsFrom p.encoding 0 p.strings).flatMap (fun off => le32 (UInt32.ofNat off)) ++
        (blob p.encoding p.strings ++ p.tail))))))

def Fits (p : PoolChunk) : Prop := ∀ s ∈ p.strings, p.encoding.Fits s

end PoolChunk

/-- One attribute record, `pad` being what it has beyond its twenty bytes. -/
structure AttrEntry where
  ns : UInt32
  name : UInt32
  rawValue : UInt32
  valueSize : UInt16
  res0 : UInt8
  dataType : UInt8
  data : UInt32
  pad : Bytes

def AttrEntry.bytes (a : AttrEntry) : Bytes :=
  le32 a.ns ++ (le32 a.name ++ (le32 a.rawValue ++ (le16 a.valueSize ++ ([a.res0] ++
    ([a.dataType] ++ (le32 a.data ++ a.pad))))))

/-- A START chunk. `gap` stands between the element's own fields and its first attribute, `padLen`
is the padding of every attribute record, `trailing` is what stands after the last one. -/
structure StartChunk where
  headerSize : UInt16
  line : UInt32
  comment : UInt32
  ns : UInt32
  name : UInt32
  idIndex : UInt16
  classIndex : UInt16
  styleIndex : UInt16
  gap : Bytes
  padLen : Nat
  attrs : List AttrEntry
  trailing : Bytes
  gap_lt : 20 + gap.length < 2 ^ 16
  padLen_lt : 20 + padLen < 2 ^ 16
  attrs_lt : attrs.length < 2 ^ 16
  pad_eq : ∀ a ∈ attrs, a.pad.length = padLen

/-- Everything of a START chunk the reader reads. -/
def StartChunk.fields (s : StartChunk) : Bytes :=
  le32 s.line ++ (le32 s.comment ++ (le32 s.ns ++ (le32 s.name ++
    (le16 (UInt16.ofNat (20 + s.gap.length)) ++ (le16 (UInt16.ofNat (20 + s.padLen)) ++
      (le16 (UInt16.ofNat s.attrs.length) ++ (le16 s.idIndex ++ (le16 s.classIndex ++
        (le16 s.styleIndex ++ (s.gap ++ s.attrs.flatMap AttrEntry.bytes))))))))))

def StartChunk.body (s : StartChunk) : Bytes := s.fields ++ s.trailing

/-- An END chunk; the reader looks at nothing but its type. -/
structure EndChunk where
  headerSize : UInt16
  line : UInt32
  comment : UInt32
  ns : UInt32
  name : UInt32
  trailing : Bytes

def EndChunk.body (e : EndChunk) : Bytes :=
  le32 e.line ++ (le32 e.comment ++ (le32 e.ns ++ (le32 e.name ++ e.trailing)))

inductive Chunk where
  | pool (p : PoolChunk)
  | start (s : StartChunk)
  | close (e : EndChunk)
  | other (o : OtherChunk)

def Chunk.bytes : Chunk → Bytes
  | .pool p => chunkBytes RES_STRING_POOL_TYPE p.headerSize p.body
  | .start s => chunkBytes RES_XML_START_ELEMENT s.headerSize s.body
  | .close e => chunkBytes RES_XML_END_ELEMENT e.headerSize e.body
  | .other o => chunkBytes o.ty o.headerSize o.body

def chunksBytes (cs : List Chunk) : Bytes := cs.flatMap Chunk.bytes

@[simp] theorem chunksBytes_nil : chunksBytes [] = [] := rfl

@[simp] theorem chunksBytes_cons (ch : Chunk) (cs : List Chunk) :
    chunksBytes (ch :: cs) = ch.bytes ++ chunksBytes cs := rfl

@[simp] theorem chunksBytes_append (cs ds : List Chunk) :
    chunksBytes (cs ++ ds) = chunksBytes cs ++ chunksBytes ds := List.flatMap_append

theorem Chunk.eight_le_length (ch : Chunk) : 8 ≤ ch.bytes.length := by
  cases ch <;> simp [Chunk.bytes]

/-! ## What a chunk sequence stands for -/

/-- How a value is written: its type code and its data word. A string's word is its index in the
pool, a boolean is any word that is zero or not, a type code outside the known ones keeps its word
as it is. -/
inductive ValueSpelled (strings : List String) : Value → UInt8 → UInt32 → Prop where
  | str {s : String} {data : UInt32} :
      strings[data.toNat]? = some s → ValueSpelled strings (.str s) TYPE_STRING data
  | int {v : Int} {ty : UInt8} {data : UInt32} :
      ty = TYPE_INT_DEC ∨ ty = TYPE_INT_HEX → -2 ^ 31 ≤ v → v < 2 ^ 31 →
      (data.toNat : Int) = v % 2 ^ 32 → ValueSpelled strings (.int v) ty data
  | false : ValueSpelled strings (.bool false) TYPE_INT_BOOLEAN 0
  | true {data : UInt32} :
      data ≠ 0 → ValueSpelled strings (.bool true) TYPE_INT_BOOLEAN data
  | float {bits : UInt32} : ValueSpelled strings (.float bits) TYPE_FLOAT bits
  | reference {id : UInt32} : ValueSpelled strings (.reference id) TYPE_REFERENCE id
  | raw {v : UInt32} {ty : UInt8} :
      ty ∉ [TYPE_REFERENCE, TYPE_STRING, TYPE_FLOAT, TYPE_INT_DEC, TYPE_INT_HEX,
        TYPE_INT_BOOLEAN] → ValueSpelled strings (.raw v) ty v

/-- How one attribute is written. -/
structure AttrSpelled (strings : List String) (a : AttrEntry) (kv : String × Value) : Prop where
  name_eq : strings[a.name.toNat]? = some kv.1
  name_ne : kv.1 ≠ ""
  value : ValueSpelled strings kv.2 a.dataType a.data

/-- The START chunk opens an element of this name with these attributes, each written once. -/
structure Opens (strings : List String) (s : StartChunk) (name : String) (attrs : Attrs) :
    Prop where
  name_eq : strings[s.name.toNat]? = some name
  attrs_eq : ∃ kvs : List (String × Value), List.Forall₂ (AttrSpelled strings) s.attrs kvs ∧
    (kvs.map Prod.fst).Nodup ∧ ∀ k v, attrs[k]? = some v ↔ (k, v) ∈ kvs

mutual

/-- The chunk sequence stands for the element. -/
inductive Spells (strings : List String) : List Chunk → Element → Prop where
  | mk {s : StartChunk} {e : EndChunk} {body : List Chunk} {name : String} {attrs : Attrs}
      {children : List Element} :
      Opens strings s name attrs → SpellsAll strings body children →
      Spells strings (.start s :: (body ++ [.close e])) ⟨name, attrs, children⟩

/-- The chunk sequence stands for the elements one after the other, foreign chunks anywhere. -/
inductive SpellsAll (strings : List String) : List Chunk → List Element → Prop where
  | nil : SpellsAll strings [] []
  | other {o : OtherChunk} {cs : List Chunk} {els : List Element} :
      SpellsAll strings cs els → SpellsAll strings (.other o :: cs) els
  | cons {c cs : List Chunk} {el : Element} {els : List Element} :
      Spells strings c el → SpellsAll strings cs els → SpellsAll strings (c ++ cs) (el :: els)

end

/-! ## Documents -/

/-- A document: the file header, with `extra` bytes a newer tool may have added, and its chunks. -/
structure Document where
  ty : UInt16
  fileSize : UInt32
  extra : Bytes
  chunks : List Chunk
  extra_lt : 8 + extra.length < 2 ^ 16

namespace Document

def header (d : Document) : Bytes :=
  le16 d.ty ++ (le16 (UInt16.ofNat (8 + d.extra.length)) ++ (le32 d.fileSize ++ d.extra))

def bytes (d : Document) : Bytes := d.header ++ chunksBytes d.chunks

/-- The whole document fits the 32-bit sizes its chunks declare. -/
def Fits32 (d : Document) : Prop := d.bytes.length < 2 ^ 32

/-- The document is one encoding of the tree `root`: a string pool whose strings fit their length
prefixes, then the tree, with foreign chunks anywhere between. -/
structure Describes (d : Document) (root : Element) : Prop where
  shape : ∃ (before between after : List OtherChunk) (p : PoolChunk) (body : List Chunk),
    d.chunks = before.map .other ++ (.pool p :: (between.map .other ++
      (body ++ after.map .other))) ∧ p.Fits ∧ Spells p.strings body root

end Document

end Xylitol.Apk.Axml
