import Xylitol.Apk.Manifest
import Xylitol.Text

/-!
# What a package file contains

`inspect` reads a package from its bytes: a plain APK from the manifest at the top of its archive, a
bundle from the manifest of the base APK inside it. The archive format itself belongs to the zip
library, whose view of a file is all that is used of it:

    bytes ──ZipArchive::new──▶ names in order, and for each name its entry

`std::fs::metadata`, `File::open` and the reads of the file are the caller's business: the file is
its bytes.
-/

namespace Xylitol.Apk

/-! ## The zip library -/

/-- `zip::result::ZipError`, as far as the code tells its cases apart. -/
inductive ZipError where
  | fileNotFound
  | other (reason : String)
  deriving DecidableEq, Repr

/-- One entry: the size its header declares and what reading it to the end gives. -/
structure ZipFile where
  size : Nat
  content : Except String Bytes

/-- An open archive. Names are distinct, and looking one up fails with `fileNotFound` exactly when it
is not there. -/
structure ZipArchive where
  fileNames : List String
  byName : String → Except ZipError ZipFile
  nodup : fileNames.Nodup
  notFound : ∀ name, byName name = .error .fileNotFound ↔ name ∉ fileNames

/-- What the crate gets from elsewhere: the archive reader, SHA-256 and the printing of floats. -/
structure Env where
  width : PtrWidth
  zip : Bytes → Except ZipError ZipArchive
  sha256 : Bytes → Bytes
  showFloat : UInt32 → String

/-- `Display` of a `ZipError`. -/
def ZipError.toString : ZipError → String
  | .fileNotFound => "specified file not found in archive"
  | .other reason => reason

/-- `From<ZipError>`. -/
def ZipError.toError (e : ZipError) : Error := .zip e.toString

/-- `read_entry`: an entry that is not there is no error. -/
def readEntry (zip : ZipArchive) (name : String) : Except Error (Option Bytes) :=
  match zip.byName name with
  | .ok f =>
    match f.content with
    | .ok buf => .ok (some buf)
    | .error reason => .error (.io reason)
  | .error .fileNotFound => .ok none
  | .error e => .error e.toError

/-- `ZipArchive::new(..)?`. -/
def Env.openZip (env : Env) (data : Bytes) : Except Error ZipArchive :=
  (env.zip data).mapError ZipError.toError

/-! ## ABIs -/

/-- The directory under `lib/` a name is in. -/
def libDir (name : String) : Option String := do
  let rest ← Text.stripPrefix name "lib/"
  let (abi, _) ← Text.splitOnce rest '/'
  return abi

/-- ABIs are implied by the `lib/<abi>/` directory layout. -/
def abisIn (zip : ZipArchive) : List String :=
  (Std.ExtTreeSet.ofList (zip.fileNames.filterMap libDir)).toList

/-- The ABI a split's name ends in, when it looks like one. -/
def abiOfSplit (name : String) : Option String := do
  let (_, abi) ← Text.rsplitOnce name "config."
  let abi := Text.trimEndMatches abi ".apk"
  if Text.contains abi "arm" || Text.contains abi "x86" || Text.contains abi "mips" then
    return Text.replaceChar abi '_' '-'
  else none

/-! ## Bundles -/

def isApkName (name : String) : Bool := Text.endsWith (Text.toAsciiLowercase name) ".apk"

/-- `(n.contains("config."), n.contains("split"), n.len())`. -/
def baseKey (name : String) : Bool × Bool × Nat :=
  (Text.contains name "config.", Text.contains name "split", name.utf8ByteSize)

/-- Whether the key of `a` is at most the key of `b`; `false` comes before `true`. -/
def baseKeyLe (a b : String) : Bool :=
  let (a₁, a₂, a₃) := baseKey a
  let (b₁, b₂, b₃) := baseKey b
  if a₁ ≠ b₁ then !a₁ else if a₂ ≠ b₂ then !a₂ else a₃ ≤ b₃

/-- The stable `sort_by_key`; the base APK is its first element. -/
def sortedApks (innerApks : List String) : List String :=
  innerApks.insertionSort (fun a b => baseKeyLe a b)

/-- The part of `inspect` for an archive without a manifest of its own. -/
def inspectBundle (env : Env) (zip : ZipArchive) (data : Bytes) : Except Error PackageInfo := do
  let innerApks := zip.fileNames.filter isApkName
  match sortedApks innerApks with
  | [] => throw .notAnApk
  | baseName :: _ =>
    match ← readEntry zip baseName with
    | none => throw .notAnApk
    | some baseBytes =>
      let baseZip ← env.openZip baseBytes
      match ← readEntry baseZip "AndroidManifest.xml" with
      | none => throw .notAnApk
      | some manifest =>
        let info ← fromManifest env.width env.showFloat manifest
        return { info with
          kind := .bundle
          abis := innerApks.filterMap abiOfSplit
          containedApks := innerApks
          fileSize := data.length
          sha256 := Text.hex (env.sha256 data) }

/-- Read a package. -/
def inspect (env : Env) (data : Bytes) : Except Error PackageInfo := do
  let zip ← env.openZip data
  match ← readEntry zip "AndroidManifest.xml" with
  | some manifest =>
    let info ← fromManifest env.width env.showFloat manifest
    return { info with
      abis := abisIn zip
      fileSize := data.length
      sha256 := Text.hex (env.sha256 data) }
  | none => inspectBundle env zip data

/-! ## What a bundle is read from -/

section

variable {env : Env} {data : Bytes} {info : PackageInfo} {zip : ZipArchive}

theorem openZip_eq_ok : env.openZip data = .ok zip ↔ env.zip data = .ok zip := mapError_eq_ok

theorem readEntry_eq_none {name : String} :
    readEntry zip name = .ok none ↔ name ∉ zip.fileNames := by
  rw [← zip.notFound, readEntry]
  split
  · next f hf => cases f.content <;> simp [hf]
  · next hf => simp [hf]
  · next e hne hf => simp [hf]; exact fun h => hne (h ▸ rfl)

/-- What `inspectBundle` goes through when it succeeds: the base APK is read and opened, and its
manifest is the bundle's. -/
theorem inspectBundle_eq_ok : inspectBundle env zip data = .ok info ↔
    ∃ name rest bytes inner manifest base,
      sortedApks (zip.fileNames.filter isApkName) = name :: rest ∧
      readEntry zip name = .ok (some bytes) ∧ env.zip bytes = .ok inner ∧
      readEntry inner "AndroidManifest.xml" = .ok (some manifest) ∧
      fromManifest env.width env.showFloat manifest = .ok base ∧
      info = { base with
        kind := .bundle
        abis := (zip.fileNames.filter isApkName).filterMap abiOfSplit
        containedApks := zip.fileNames.filter isApkName
        fileSize := data.length
        sha256 := Text.hex (env.sha256 data) } := by
  unfold inspectBundle
  dsimp only
  constructor
  · intro h
    cases hsorted : sortedApks (zip.fileNames.filter isApkName) with
    | nil => simp [hsorted, throw, throwThe, MonadExceptOf.throw] at h
    | cons name rest =>
        simp only [hsorted] at h
        obtain ⟨entry, hentry, h⟩ := bind_eq_ok.mp h
        cases entry with
        | none => cases h
        | some bytes =>
            obtain ⟨inner, hinner, h⟩ := bind_eq_ok.mp h
            obtain ⟨manifest, hmanifest, h⟩ := bind_eq_ok.mp h
            cases manifest with
            | none => cases h
            | some manifest =>
                obtain ⟨base, hbase, h⟩ := bind_eq_ok.mp h
                cases h
                exact ⟨name, rest, bytes, inner, manifest, base, rfl, hentry,
                  openZip_eq_ok.mp hinner, hmanifest, hbase, rfl⟩
  · intro ⟨name, rest, bytes, inner, manifest, base, hsorted, hentry, hinner, hmanifest, hbase,
      hinfo⟩
    simp only [hsorted, hentry, openZip_eq_ok.mpr hinner, hmanifest, hbase, ok_bind, hinfo]
    rfl

/-- A package with a manifest of its own is described by it. -/
theorem inspect_plain (hzip : env.zip data = .ok zip)
    (hsome : "AndroidManifest.xml" ∈ zip.fileNames) : inspect env data = .ok info ↔
    ∃ manifest base, readEntry zip "AndroidManifest.xml" = .ok (some manifest) ∧
      fromManifest env.width env.showFloat manifest = .ok base ∧
      info = { base with
        abis := abisIn zip
        fileSize := data.length
        sha256 := Text.hex (env.sha256 data) } := by
  rw [inspect, openZip_eq_ok.mpr hzip, ok_bind]
  constructor
  · intro h
    obtain ⟨entry, hentry, h⟩ := bind_eq_ok.mp h
    cases entry with
    | none => exact absurd hsome (readEntry_eq_none.mp hentry)
    | some manifest =>
        obtain ⟨base, hbase, h⟩ := bind_eq_ok.mp h
        cases h
        exact ⟨manifest, base, hentry, hbase, rfl⟩
  · intro ⟨manifest, base, hentry, hbase, hinfo⟩
    simp only [hentry, hbase, ok_bind, hinfo]
    rfl

theorem inspect_bundle (hzip : env.zip data = .ok zip)
    (hnone : "AndroidManifest.xml" ∉ zip.fileNames) :
    inspect env data = inspectBundle env zip data := by
  rw [inspect, openZip_eq_ok.mpr hzip, ok_bind, readEntry_eq_none.mpr hnone, ok_bind]

end

/-! ## Display -/

/-- A short name suitable for a list row. -/
def PackageInfo.displayName (info : PackageInfo) : String := info.label.getD info.package

/-- `1.2.3 (45)` when both parts are known. -/
def PackageInfo.versionDisplay (info : PackageInfo) : String :=
  match info.versionName, info.versionCode with
  | some n, some c => n ++ " (" ++ toString c ++ ")"
  | some n, none => n
  | none, some c => toString c
  | none, none => "unknown"

/-- `Display` of an error. -/
def Error.toString : Error → String
  | .io reason => "i/o error: " ++ reason
  | .zip reason => "not a valid zip archive: " ++ reason
  | .notAnApk => "this file has no AndroidManifest.xml, so it is not an APK"
  | .axml reason => "malformed AndroidManifest.xml: " ++ reason

/-! ## Stored archives

The simplest files the zip library reads: members stored as they are, then the central directory.
`Stored.zip` is the file and `Stored.archive` what the library makes of it. -/

def zeros (n : Nat) : Bytes := List.replicate n 0
def w16 (n : Nat) : Bytes := le16 (UInt16.ofNat n)
def w32 (n : Nat) : Bytes := le32 (UInt32.ofNat n)

/-- A member of an archive, stored as it is. -/
structure Stored where
  name : String
  crc : Nat
  data : Bytes

namespace Stored

def fields (s : Stored) : Bytes :=
  w16 20 ++ zeros 6 ++ w16 0x21 ++ w32 s.crc ++ w32 s.data.length ++ w32 s.data.length
    ++ w16 (utf8Bytes s.name).length ++ w16 0

def localRecord (s : Stored) : Bytes := w32 0x04034b50 ++ s.fields ++ utf8Bytes s.name ++ s.data

def centralRecord (s : Stored) (offset : Nat) : Bytes :=
  w32 0x02014b50 ++ w16 20 ++ s.fields ++ zeros 10 ++ w32 offset ++ utf8Bytes s.name

def centralRecords : Nat → List Stored → Bytes
  | _, [] => []
  | offset, s :: ss => s.centralRecord offset ++ centralRecords (offset + s.localRecord.length) ss

def zip (ss : List Stored) : Bytes :=
  ss.flatMap localRecord ++ centralRecords 0 ss ++ w32 0x06054b50 ++ zeros 4 ++ w16 ss.length
    ++ w16 ss.length ++ w32 (centralRecords 0 ss).length ++ w32 (ss.flatMap localRecord).length
    ++ zeros 2

/-- The archive with these members, in this order. -/
def archive (ss : List Stored) (h : (ss.map Stored.name).Nodup) : ZipArchive where
  fileNames := ss.map Stored.name
  byName name :=
    match ss.find? (·.name == name) with
    | some s => .ok ⟨s.data.length, .ok s.data⟩
    | none => .error .fileNotFound
  nodup := h
  notFound name := by
    rw [List.mem_map]
    split
    · next s hs =>
        have hname := List.find?_some hs
        simp only [reduceCtorEq, false_iff, not_not]
        exact ⟨s, List.mem_of_find?_eq_some hs, beq_iff_eq.mp hname⟩
    · next hs =>
        simp only [true_iff, not_exists, not_and]
        intro s hmem hname
        exact absurd (beq_iff_eq.mpr hname) (List.find?_eq_none.mp hs s hmem)

end Stored

/-- The libraries on archives that are known beforehand. -/
def Env.known (archives : List (Bytes × ZipArchive)) (digests : List (Bytes × Bytes)) : Env where
  width := .w64
  zip := fun data =>
    match archives.find? (·.1 == data) with
    | some archive => .ok archive.2
    | none => .error (.other "invalid Zip archive: Could not find EOCD")
  sha256 := fun data => ((digests.find? (·.1 == data)).map (·.2)).getD []
  showFloat := fun _ => ""

theorem Env.zip_known_head (data : Bytes) (zip : ZipArchive)
    (archives : List (Bytes × ZipArchive)) (digests : List (Bytes × Bytes)) :
    (Env.known ((data, zip) :: archives) digests).zip data = .ok zip := by
  simp [Env.known]

theorem Env.zip_known_tail {data data' : Bytes} (h : data' ≠ data) (zip : ZipArchive)
    (archives : List (Bytes × ZipArchive)) (digests : List (Bytes × Bytes)) :
    (Env.known ((data', zip) :: archives) digests).zip data
      = (Env.known archives digests).zip data := by
  simp [Env.known, h]

end Xylitol.Apk
