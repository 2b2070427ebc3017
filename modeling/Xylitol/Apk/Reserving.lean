import Xylitol.Apk.Inspect
import Xylitol.Apk.Axml.Reserving

/-!
# Reading an archive, and what room is made for it

`read_entry` makes room for as many bytes as the archive declares an entry to have, and then reads
the entry. `inspect` reads one or two entries in this way and decodes the second or the only one.
-/

namespace Xylitol.Apk

variable {env : Env}

namespace Reserving

open Metered (plain withCapacity)

/-! ## Reading with the requests -/

def readEntry (w : PtrWidth) (zip : ZipArchive) (name : String) : Metered Error (Option Bytes) :=
  match zip.byName name with
  | .ok f => do
    withCapacity w (f.size % w.size) 1
    match f.content with
    | .ok buf => plain (.ok (some buf))
    | .error reason => plain (.error (.io reason))
  | .error .fileNotFound => plain (.ok none)
  | .error e => plain (.error e.toError)

def fromManifest (w : PtrWidth) (showFloat : UInt32 → String) (manifest : Bytes) :
    Metered Error PackageInfo := do
  let root ← Axml.Reserving.parse w manifest
  return infoOf showFloat root

def inspectBundle (env : Env) (zip : ZipArchive) (data : Bytes) : Metered Error PackageInfo :=
  let innerApks := zip.fileNames.filter isApkName
  match sortedApks innerApks with
  | [] => plain (.error .notAnApk)
  | baseName :: _ => do
    match ← readEntry env.width zip baseName with
    | none => plain (.error .notAnApk)
    | some baseBytes =>
      let baseZip ← plain (env.openZip baseBytes)
      match ← readEntry env.width baseZip "AndroidManifest.xml" with
      | none => plain (.error .notAnApk)
      | some manifest =>
        let info ← fromManifest env.width env.showFloat manifest
        return { info with
          kind := .bundle
          abis := innerApks.filterMap abiOfSplit
          containedApks := innerApks
          fileSize := data.length
          sha256 := Text.hex (env.sha256 data) }

def inspect (env : Env) (data : Bytes) : Metered Error PackageInfo := do
  let zip ← plain (env.openZip data)
  match ← readEntry env.width zip "AndroidManifest.xml" with
  | some manifest =>
    let info ← fromManifest env.width env.showFloat manifest
    return { info with
      abis := abisIn zip
      fileSize := data.length
      sha256 := Text.hex (env.sha256 data) }
  | none => inspectBundle env zip data

/-! ## What is asked for -/

/-- The size that the archive declares for an entry, as a `usize`. -/
def EntryDeclares (w : PtrWidth) (zip : ZipArchive) (name : String) (r : Request) : Prop :=
  ∃ f, zip.byName name = .ok f ∧ r = ⟨f.size % w.size, 1⟩

/-- The manifest of an archive: its size, and what its string pools declare. -/
def ManifestDeclares (w : PtrWidth) (zip : ZipArchive) (r : Request) : Prop :=
  EntryDeclares w zip "AndroidManifest.xml" r ∨
    ∃ manifest, Apk.readEntry zip "AndroidManifest.xml" = .ok (some manifest) ∧
      Axml.Reserving.XmlDeclares w manifest r

/-- The base of a bundle: its size, and its manifest. -/
def BaseDeclares (env : Env) (zip : ZipArchive) (r : Request) : Prop :=
  ∃ base rest, sortedApks (zip.fileNames.filter isApkName) = base :: rest ∧
    (EntryDeclares env.width zip base r ∨
      ∃ bytes inner, Apk.readEntry zip base = .ok (some bytes) ∧ env.zip bytes = .ok inner ∧
        ManifestDeclares env.width inner r)

/-- The manifest at the top of the archive, or that of the base where there is none. -/
def InspectDeclares (env : Env) (data : Bytes) (r : Request) : Prop :=
  ∃ zip, env.zip data = .ok zip ∧ (ManifestDeclares env.width zip r ∨
    "AndroidManifest.xml" ∉ zip.fileNames ∧ BaseDeclares env zip r)

theorem meters_readEntry {w : PtrWidth} (zip : ZipArchive) (name : String) :
    Meters w (readEntry w zip name) (Apk.readEntry zip name) (EntryDeclares w zip name) := by
  unfold readEntry Apk.readEntry
  cases hf : zip.byName name with
  | error e =>
    have hnone : ∀ r, False ↔ EntryDeclares w zip name r := by
      intro r
      simp [EntryDeclares, hf]
    cases e with
    | fileNotFound => exact (Meters.plain _).congr hnone
    | other reason => exact (Meters.plain _).congr hnone
  | ok f =>
    dsimp only
    cases f.content with
    | ok buf =>
      apply (Meters.withCapacity_bind (.plain _)).congr
      simp [EntryDeclares, hf]
    | error reason =>
      apply (Meters.withCapacity_bind (.plain _)).congr
      simp [EntryDeclares, hf]

theorem meters_fromManifest {w : PtrWidth} (showFloat : UInt32 → String) (manifest : Bytes) :
    Meters w (fromManifest w showFloat manifest) (Apk.fromManifest w showFloat manifest)
      (Axml.Reserving.XmlDeclares w manifest) :=
  (Axml.Reserving.meters_parse manifest).bind_pure _

/-- The manifest of an archive is read, and what is done with it asks for nothing more. -/
theorem meters_manifest {zip : ZipArchive} {f : Option Bytes → Metered Error PackageInfo}
    {x : Option Bytes → Except Error PackageInfo} {D : Request → Prop}
    (hsome : ∀ manifest, Meters env.width (f (some manifest)) (x (some manifest))
      (Axml.Reserving.XmlDeclares env.width manifest))
    (hnone : Meters env.width (f none) (x none) D) :
    Meters env.width (readEntry env.width zip "AndroidManifest.xml" >>= f)
      (Apk.readEntry zip "AndroidManifest.xml" >>= x) fun r =>
        ManifestDeclares env.width zip r ∨ "AndroidManifest.xml" ∉ zip.fileNames ∧ D r := by
  have hbind : Meters env.width (readEntry env.width zip "AndroidManifest.xml" >>= f)
      (Apk.readEntry zip "AndroidManifest.xml" >>= x) _ :=
    (meters_readEntry zip _).bind (E := fun entry r => match entry with
      | some manifest => Axml.Reserving.XmlDeclares env.width manifest r
      | none => D r) fun entry _ => by
        cases entry with
        | some manifest => exact hsome manifest
        | none => exact hnone
  apply hbind.congr
  intro r
  rw [ManifestDeclares, ← readEntry_eq_none, or_assoc]
  apply or_congr_right
  constructor
  · rintro ⟨entry, hentry, h⟩
    cases entry with
    | some manifest => exact Or.inl ⟨manifest, hentry, h⟩
    | none => exact Or.inr ⟨hentry, h⟩
  · rintro (⟨manifest, hentry, h⟩ | ⟨hentry, h⟩)
    · exact ⟨_, hentry, h⟩
    · exact ⟨_, hentry, h⟩

theorem meters_inspectBundle (zip : ZipArchive) (data : Bytes) :
    Meters env.width (inspectBundle env zip data) (Apk.inspectBundle env zip data)
      (BaseDeclares env zip) := by
  unfold inspectBundle Apk.inspectBundle
  dsimp only
  cases hsorted : sortedApks (zip.fileNames.filter isApkName) with
  | nil =>
    apply (Meters.plain _).congr
    simp [BaseDeclares, hsorted]
  | cons base rest =>
    dsimp only
    -- a base that is not there is not opened, so the entry is looked at first
    apply ((meters_readEntry zip base).bind
      (E := fun entry r => ∃ bytes inner, entry = some bytes ∧ env.zip bytes = .ok inner ∧
        ManifestDeclares env.width inner r) ?_).congr
    · intro r
      simp only [BaseDeclares, hsorted]
      constructor
      · rintro (h | ⟨entry, hentry, bytes, inner, rfl, h⟩)
        · exact ⟨base, rest, rfl, Or.inl h⟩
        · exact ⟨base, rest, rfl, Or.inr ⟨bytes, inner, hentry, h⟩⟩
      · rintro ⟨_, _, ⟨⟩, h | ⟨bytes, inner, hentry, h⟩⟩
        · exact Or.inl h
        · exact Or.inr ⟨_, hentry, bytes, inner, rfl, h⟩
    · intro entry _
      cases entry with
      | none =>
        apply (Meters.plain _).congr
        simp
      | some bytes =>
        apply ((Meters.plain (env.openZip bytes)).bind fun inner _ =>
          meters_manifest (fun manifest =>
            (meters_fromManifest env.showFloat manifest).bind_pure _) (.plain _)).congr
        intro r
        simp [openZip_eq_ok]

theorem meters_inspect (data : Bytes) :
    Meters env.width (inspect env data) (Apk.inspect env data) (InspectDeclares env data) := by
  have hmeters : Meters env.width (inspect env data) (Apk.inspect env data) _ :=
    (Meters.plain (env.openZip data)).bind fun zip _ =>
      meters_manifest (fun manifest => (meters_fromManifest env.showFloat manifest).bind_pure _)
        (meters_inspectBundle zip data)
  apply hmeters.congr
  intro r
  simp only [false_or, openZip_eq_ok]
  rfl

end Reserving
end Xylitol.Apk
