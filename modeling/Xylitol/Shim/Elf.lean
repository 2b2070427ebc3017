import Xylitol.Shim.Abi
import Xylitol.Result
import Xylitol.Utf

/-!
# Reading Android native objects

An Android `.so` is an ordinary ELF shared object; what matters of it is what it links against. The
ELF format itself is the object library's: `ObjectCrate` is its view of a file, the architecture and
the dynamic symbols on one side, the dynamic tables on the other. `read` turns that view into a
`NativeObject`.
-/

namespace Xylitol.Shim

/-- `xylitol_shim::Error`. -/
inductive Error where
  | elf (path reason : String)
  | apk (reason : String)
  deriving DecidableEq, Repr

namespace Elf

/-! ## The object library -/

inductive Architecture where
  | x86_64
  | i386
  | aarch64
  | arm
  | other (name : String)
  deriving DecidableEq, Repr

/-- One entry of the dynamic symbol table. `name` is `none` where it cannot be read. -/
structure DynamicSymbol where
  name : Option String
  undefined : Bool
  deriving DecidableEq, Repr

/-- `object::File`. -/
structure ObjectFile where
  architecture : Architecture
  dynamicSymbols : List DynamicSymbol
  deriving DecidableEq, Repr

/-- One entry of a dynamic table, its tag widened to 64 bits. `string` is what the value names in the
linked string table, when it names anything there. -/
structure DynamicEntry where
  tag : UInt64
  string : Option Bytes

/-- One dynamic section. -/
structure DynamicTable where
  strings : Except String Unit
  entries : List DynamicEntry

inductive ElfClass where
  | elf32
  | elf64
  deriving DecidableEq, Repr

/-- What the object library makes of a file: `File::parse`, and the dynamic sections under a header
of the given width. -/
structure ObjectCrate where
  parse : Bytes → Except String ObjectFile
  dynamicTables : ElfClass → Bytes → Except String (List DynamicTable)

/-! ## Entry points -/

/-- How an app hands control to its native code. -/
inductive EntryPoint where
  | nativeActivity
  | gameActivity
  | jniOnLoad
  | androidMain
  deriving DecidableEq, Repr

namespace EntryPoint

def symbol : EntryPoint → String
  | nativeActivity => "ANativeActivity_onCreate"
  | gameActivity => "GameActivity_onCreate"
  | jniOnLoad => "JNI_OnLoad"
  | androidMain => "android_main"

/-- `JNI_OnLoad` is called by a Java VM that has already loaded the app's classes; without one,
nothing ever calls it. -/
def isSelfSufficient (e : EntryPoint) : Bool := e ≠ jniOnLoad

def all : List EntryPoint := [nativeActivity, gameActivity, jniOnLoad, androidMain]

end EntryPoint

/-! ## The dynamic table -/

def DT_NEEDED : UInt32 := 1
def DT_SONAME : UInt32 := 14

/-- The body of the loop over one table's entries. The tag is cut down to 32 bits. -/
def dynamicEntry (acc : Option String × List String) (entry : DynamicEntry) :
    Option String × List String :=
  let tag := entry.tag.toUInt32
  if tag = DT_SONAME then
    match entry.string with
    | some name => (some (fromUtf8Lossy name), acc.2)
    | none => acc
  else if tag = DT_NEEDED then
    match entry.string with
    | some name => (acc.1, acc.2 ++ [fromUtf8Lossy name])
    | none => acc
  else acc

/-- `dynamic_of`, from the dynamic sections on. -/
def dynamicOf : List DynamicTable → Option String × List String →
    Except String (Option String × List String)
  | [], acc => .ok acc
  | table :: tables, acc => do
    table.strings
    dynamicOf tables (table.entries.foldl dynamicEntry acc)

/-- Read `DT_SONAME` and `DT_NEEDED` out of the dynamic section. The ELF class byte, `data.get(4)`,
says which width to parse as. -/
def dynamicEntries (crate : ObjectCrate) (path : String) (data : Bytes) :
    Except Error (Option String × List String) :=
  let fail : String → Error := .elf path
  match (data.drop 4).head? with
  | none => .error (fail "file too short")
  | some 2 => ((crate.dynamicTables .elf64 data).bind (dynamicOf · (none, []))).mapError fail
  | some 1 => ((crate.dynamicTables .elf32 data).bind (dynamicOf · (none, []))).mapError fail
  | some other => .error (fail ("unknown ELF class " ++ toString other))

/-! ## Objects -/

/-- What one native object needs from its host. -/
structure NativeObject where
  path : String
  soname : Option String
  abi : Abi
  needed : List String
  undefined : List String
  entryPoints : List EntryPoint
  jniNatives : Nat
  fileSize : Nat
  deriving DecidableEq, Repr

/-- The names of the dynamic symbols that are undefined, or that are not, empty ones left out. -/
def symbolNames (file : ObjectFile) (undefined : Bool) : List String :=
  (file.dynamicSymbols.filter (·.undefined == undefined)).filterMap fun symbol =>
    symbol.name.filter (fun name => !name.isEmpty)

def abiOf : Architecture → Except String Abi
  | .x86_64 => .ok .x86_64
  | .i386 => .ok .x86
  | .aarch64 => .ok .arm64V8a
  | .arm => .ok .armeabiV7a
  | .other name => .error ("unsupported architecture " ++ name)

/-- Read one native object from bytes. -/
def read (crate : ObjectCrate) (path : String) (data : Bytes) : Except Error NativeObject := do
  let file ← (crate.parse data).mapError (.elf path)
  let abi ← (abiOf file.architecture).mapError (.elf path)
  let (soname, needed) ← dynamicEntries crate path data
  let defined := symbolNames file false
  return {
    path := path
    soname := soname
    abi := abi
    needed := needed
    undefined := (Std.ExtTreeSet.ofList (symbolNames file true)).toList
    entryPoints := EntryPoint.all.filter (fun e => defined.contains e.symbol)
    jniNatives := (defined.filter (Text.startsWith · "Java_")).length
    fileSize := data.length }

/-- What an object that was read says about the file it was read from. -/
structure ReadFrom (file : ObjectFile) (object : NativeObject) : Prop where
  undefined : ∀ name, name ∈ object.undefined ↔ name ∈ symbolNames file true
  entryPoints : object.entryPoints
    = EntryPoint.all.filter (fun e => (symbolNames file false).contains e.symbol)

theorem read_eq_ok {crate : ObjectCrate} {path : String} {data : Bytes} {object : NativeObject}
    (h : read crate path data = .ok object) :
    ∃ file, crate.parse data = .ok file ∧ ReadFrom file object := by
  unfold read at h
  obtain ⟨file, hfile, h⟩ := bind_eq_ok.mp h
  obtain ⟨abi, -, h⟩ := bind_eq_ok.mp h
  obtain ⟨⟨soname, needed⟩, -, h⟩ := bind_eq_ok.mp h
  cases h
  refine ⟨file, mapError_eq_ok.mp hfile, ?_, rfl⟩
  intro name
  rw [Std.ExtTreeSet.mem_toList, Std.ExtTreeSet.mem_ofList, List.contains_iff_mem]

/-- The entry points of an object are those whose symbols its file defines. -/
theorem ReadFrom.mem_entryPoints {file : ObjectFile} {object : NativeObject}
    (h : ReadFrom file object) {e : EntryPoint} :
    e ∈ object.entryPoints ↔ e.symbol ∈ symbolNames file false := by
  have hall : e ∈ EntryPoint.all := by cases e <;> decide
  rw [h.entryPoints, List.mem_filter, List.contains_iff_mem]
  exact ⟨fun hs => hs.2, fun hs => ⟨hall, hs⟩⟩

end Elf

end Xylitol.Shim
