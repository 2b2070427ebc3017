import Xylitol.Apk.Reserving
import Xylitol.Shim.Libraries

/-!
# What the analysis makes room for

`native_libraries` makes room for every member it reads, by the size that the archive declares of
it, as `read_entry` does. `reserves_within_iff` says for which files everything that is asked for, by
`inspect` and by `analyse`, is within a multiple of the file's own length and within what can be
asked for at all.
-/

namespace Xylitol.Shim

open Apk (ZipArchive PackageInfo)

variable {env : Env}

namespace Reserving

open Metered (plain withCapacity)
open Apk.Reserving (EntryDeclares InspectDeclares)

/-! ## Reading with the requests -/

def readMember (w : PtrWidth) (zip : ZipArchive) (name : String) : Metered Error Bytes :=
  match zip.byName name with
  | .error e => plain (.error (.apk e.toString))
  | .ok f => do
    withCapacity w (f.size % w.size) 1
    match f.content with
    | .ok data => plain (.ok data)
    | .error reason => plain (.error (.apk reason))

def ownLibraries (w : PtrWidth) (zip : ZipArchive) :
    List String → Libraries → Metered Error Libraries
  | [], out => plain (.ok out)
  | name :: names, out =>
    match splitLibPath name with
    | some (abi, _) => do
      let data ← readMember w zip name
      ownLibraries w zip names (out.insert (abi, name) data)
    | none => ownLibraries w zip names out

/-- `for inner_name in inner_names`. Room is made for a library that cannot be read, too. -/
def innerLibraries (w : PtrWidth) (name : String) (inner : ZipArchive) :
    List String → Libraries → Metered Error Libraries
  | [], out => plain (.ok out)
  | innerName :: innerNames, out =>
    match splitLibPath innerName, inner.byName innerName with
    | some (abi, _), .ok f => do
      withCapacity w (f.size % w.size) 1
      match f.content with
      | .ok data =>
        innerLibraries w name inner innerNames (out.insert (abi, name ++ "!" ++ innerName) data)
      | .error _ => innerLibraries w name inner innerNames out
    | _, _ => innerLibraries w name inner innerNames out

def bundledLibraries (env : Env) (zip : ZipArchive) :
    List String → Libraries → Metered Error Libraries
  | [], out => plain (.ok out)
  | name :: names, out =>
    if Apk.isApkName name then do
      let inner ← readMember env.apk.width zip name
      match env.apk.zip inner with
      | .ok innerZip => do
        let out ← innerLibraries env.apk.width name innerZip innerZip.fileNames out
        bundledLibraries env zip names out
      | .error _ => bundledLibraries env zip names out
    else bundledLibraries env zip names out

def nativeLibraries (env : Env) (data : Bytes) : Metered Error Libraries := do
  let zip ← plain ((env.apk.zip data).mapError (fun e => .apk e.toString))
  let out ← ownLibraries env.apk.width zip zip.fileNames ∅
  if out.isEmpty then bundledLibraries env zip zip.fileNames out else plain (.ok out)

def analyse (env : Env) (data : Bytes) : Metered Error Report := do
  let info ← (Apk.Reserving.inspect env.apk data).mapError (fun e => .apk e.toString)
  let libraries ← nativeLibraries env data
  let available := availableAbis libraries
  let t ← plain (tally env (usable env libraries) .zero)
  return {
    package := info.package
    version := info.versionDisplay
    hostAbi := env.host.map Abi.asStr
    availableAbis := available
    objects := t.objects
    androidLibraries := t.androidLibraries.toList
    unimplemented := t.unimplemented.toList
    totals := t.totals
    verdict := decide env.host available t.objects t.entryPoints t.jniNatives
      t.unimplemented.toList.length }

/-! ## What is asked for -/

/-- Whether the loops over the members take this one for a library. -/
def IsLib (name : String) : Prop := (splitLibPath name).isSome

/-- Every library of an APK inside a bundle, whether it can be read or not. -/
def InnerDeclares (w : PtrWidth) (inner : ZipArchive) (r : Request) : Prop :=
  ∃ name ∈ inner.fileNames, IsLib name ∧ EntryDeclares w inner name r

/-- A member can be read, if it is one that the loop reads. -/
def Readable (zip : ZipArchive) (reads : String → Prop) (name : String) : Prop :=
  reads name → ∃ data, Shim.readMember zip name = .ok data

/-- The package's own libraries, up to the first that cannot be read. -/
def OwnDeclare (w : PtrWidth) (zip : ZipArchive) (r : Request) : Prop :=
  ComesTo (Readable zip IsLib) (fun name => IsLib name ∧ EntryDeclares w zip name r) zip.fileNames

/-- An APK inside a bundle, and what it holds. -/
def MemberDeclares (env : Env) (zip : ZipArchive) (name : String) (r : Request) : Prop :=
  EntryDeclares env.apk.width zip name r ∨ ∃ data inner, Shim.readMember zip name = .ok data ∧
    env.apk.zip data = .ok inner ∧ InnerDeclares env.apk.width inner r

/-- The APKs inside a bundle, up to the first that cannot be read. -/
def BundledDeclare (env : Env) (zip : ZipArchive) (r : Request) : Prop :=
  ComesTo (Readable zip (Apk.isApkName ·))
    (fun name => Apk.isApkName name ∧ MemberDeclares env zip name r) zip.fileNames

/-- What the libraries of a package declare. -/
def LibrariesDeclare (env : Env) (data : Bytes) (r : Request) : Prop :=
  ∃ zip, env.apk.zip data = .ok zip ∧ (OwnDeclare env.apk.width zip r ∨
    (∀ name ∈ zip.fileNames, ¬ IsLib name) ∧ BundledDeclare env zip r)

/-- What a file declares on the way of the analysis. -/
def AnalyseDeclares (env : Env) (data : Bytes) (r : Request) : Prop :=
  InspectDeclares env.apk data r ∨
    (∃ info, Apk.inspect env.apk data = .ok info) ∧ LibrariesDeclare env data r

/-! ## The loops -/

theorem meters_readMember {w : PtrWidth} (zip : ZipArchive) (name : String) :
    Meters w (readMember w zip name) (Shim.readMember zip name) (EntryDeclares w zip name) := by
  unfold readMember Shim.readMember
  cases hf : zip.byName name with
  | error e =>
    apply (Meters.plain _).congr
    simp [EntryDeclares, hf]
  | ok f =>
    dsimp only
    cases f.content with
    | ok data =>
      apply (Meters.withCapacity_bind (.plain _)).congr
      simp [EntryDeclares, hf]
    | error reason =>
      apply (Meters.withCapacity_bind (.plain _)).congr
      simp [EntryDeclares, hf]

theorem meters_ownLibraries {w : PtrWidth} (zip : ZipArchive) (names : List String)
    (out : Libraries) :
    Meters w (ownLibraries w zip names out) (Shim.ownLibraries zip names out)
      fun r => ComesTo (Readable zip IsLib) (fun name => IsLib name ∧ EntryDeclares w zip name r)
        names := by
  induction names generalizing out with
  | nil =>
    apply (Meters.plain _).congr
    intro r
    rw [iff_false_left not_false]
    exact not_comesTo_nil
  | cons name names ih =>
    rw [ownLibraries, Shim.ownLibraries]
    cases hlib : splitLibPath name with
    | none =>
      have hnot : ¬ IsLib name := by simp [IsLib, hlib]
      apply (ih out).congr
      intro r
      rw [comesTo_cons, Readable]
      simp [hnot]
    | some lib =>
      have his : IsLib name := by simp [IsLib, hlib]
      apply ((meters_readMember zip name).bind fun data _ => ih _).congr
      intro r
      rw [comesTo_cons, Readable]
      simp [his]

theorem meters_innerLibraries {w : PtrWidth} (name : String) (inner : ZipArchive)
    (out : Libraries) :
    Meters w (innerLibraries w name inner inner.fileNames out)
      (.ok (Shim.innerLibraries name inner out)) (InnerDeclares w inner) := by
  show Meters w _ _ fun r => ∃ n ∈ inner.fileNames, IsLib n ∧ EntryDeclares w inner n r
  unfold Shim.innerLibraries
  generalize inner.fileNames = names
  induction names generalizing out with
  | nil =>
    apply (Meters.plain _).congr
    simp
  | cons n names ih =>
    rw [innerLibraries, List.foldl_cons]
    cases hlib : splitLibPath n with
    | none =>
      apply (ih out).congr
      simp [IsLib, hlib]
    | some lib =>
      cases hf : inner.byName n with
      | error e =>
        apply (ih out).congr
        simp [EntryDeclares, hf]
      | ok f =>
        dsimp only
        -- with or without the data, the loop goes on
        cases f.content with
        | ok data =>
          apply (Meters.withCapacity_bind (ih _)).congr
          simp [IsLib, EntryDeclares, hlib, hf]
        | error reason =>
          apply (Meters.withCapacity_bind (ih _)).congr
          simp [IsLib, EntryDeclares, hlib, hf]

theorem meters_bundledLibraries (zip : ZipArchive) (names : List String) (out : Libraries) :
    Meters env.apk.width (bundledLibraries env zip names out)
      (Shim.bundledLibraries env zip names out)
      fun r => ComesTo (Readable zip (Apk.isApkName ·))
        (fun name => Apk.isApkName name ∧ MemberDeclares env zip name r) names := by
  induction names generalizing out with
  | nil =>
    apply (Meters.plain _).congr
    intro r
    rw [iff_false_left not_false]
    exact not_comesTo_nil
  | cons name names ih =>
    rw [bundledLibraries, Shim.bundledLibraries]
    by_cases hname : Apk.isApkName name
    · rw [if_pos hname, if_pos hname]
      apply ((meters_readMember zip name).bind
        (E := fun data r => (∃ inner, env.apk.zip data = .ok inner ∧
            InnerDeclares env.apk.width inner r) ∨
          ComesTo (Readable zip (Apk.isApkName ·))
            (fun name => Apk.isApkName name ∧ MemberDeclares env zip name r) names) ?_).congr
      · intro r
        rw [comesTo_cons, MemberDeclares, Readable, and_iff_right hname, imp_iff_right hname]
        constructor
        · rintro (h | ⟨data, hread, ⟨inner, hinner, h⟩ | h⟩)
          · exact Or.inl (Or.inl h)
          · exact Or.inl (Or.inr ⟨data, inner, hread, hinner, h⟩)
          · exact Or.inr ⟨⟨data, hread⟩, h⟩
        · rintro ((h | ⟨data, inner, hread, hinner, h⟩) | ⟨⟨data, hread⟩, h⟩)
          · exact Or.inl h
          · exact Or.inr ⟨data, hread, Or.inl ⟨inner, hinner, h⟩⟩
          · exact Or.inr ⟨data, hread, Or.inr h⟩
      · intro data _
        cases hinner : env.apk.zip data with
        | error e =>
          apply (ih out).congr
          simp
        | ok inner =>
          apply ((meters_innerLibraries name inner out).bind fun _ _ => ih _).congr
          simp
    · rw [if_neg hname, if_neg hname]
      apply (ih out).congr
      intro r
      rw [comesTo_cons, Readable]
      simp [hname]

/-! ## The whole analysis -/

/-- The first loop has found nothing exactly when no member is a library. -/
theorem isEmpty_ownLibraries {zip : ZipArchive} {out : Libraries}
    (h : Shim.ownLibraries zip zip.fileNames ∅ = .ok out) :
    out.isEmpty ↔ ∀ name ∈ zip.fileNames, ¬ IsLib name := by
  rw [ownLibraries_eq, map_eq_ok] at h
  obtain ⟨own, hown, rfl⟩ := h
  have hlength := (mapM_eq_ok.mp hown).length_eq
  rw [isEmpty_fill, List.isEmpty_iff, ← List.length_eq_zero_iff, ← hlength,
    List.length_eq_zero_iff, List.filterMap_eq_nil_iff]
  simp [IsLib, libKey]

/-- Without a library, the first loop has nothing to fail at. -/
theorem ownLibraries_of_none {zip : ZipArchive} (h : ∀ name ∈ zip.fileNames, ¬ IsLib name) :
    Shim.ownLibraries zip zip.fileNames ∅ = .ok ∅ := by
  have hnone : zip.fileNames.filterMap libKey = [] := by
    rw [List.filterMap_eq_nil_iff]
    simpa [IsLib, libKey] using h
  rw [ownLibraries_eq, hnone]
  rfl

/-- The second loop is entered when the first has found nothing. -/
theorem meters_secondLoop {zip : ZipArchive} {out : Libraries}
    (hout : Shim.ownLibraries zip zip.fileNames ∅ = .ok out) :
    Meters env.apk.width
      (if out.isEmpty then bundledLibraries env zip zip.fileNames out else plain (.ok out))
      (if out.isEmpty then Shim.bundledLibraries env zip zip.fileNames out else .ok out)
      fun r => (∀ name ∈ zip.fileNames, ¬ IsLib name) ∧ BundledDeclare env zip r := by
  have hempty := isEmpty_ownLibraries hout
  by_cases hnone : out.isEmpty
  · rw [if_pos hnone, if_pos hnone]
    apply (meters_bundledLibraries zip zip.fileNames out).congr
    intro r
    exact (and_iff_right (hempty.mp hnone)).symm
  · rw [if_neg hnone, if_neg hnone]
    apply (Meters.plain _).congr
    intro r
    exact (iff_false_left not_false).mpr fun h => hnone (hempty.mpr h.1)

theorem meters_nativeLibraries (data : Bytes) :
    Meters env.apk.width (nativeLibraries env data) (Shim.nativeLibraries env data)
      (LibrariesDeclare env data) := by
  have hmeters : Meters env.apk.width (nativeLibraries env data) (Shim.nativeLibraries env data) _ :=
    (Meters.plain _).bind fun zip _ =>
      (meters_ownLibraries zip zip.fileNames ∅).bind fun out hout => meters_secondLoop hout
  apply hmeters.congr
  intro r
  simp only [false_or, mapError_eq_ok, LibrariesDeclare]
  apply exists_congr
  intro zip
  apply and_congr_right
  intro _
  apply or_congr_right
  constructor
  · rintro ⟨out, -, h⟩
    exact h
  · intro h
    exact ⟨∅, ownLibraries_of_none h.1, h⟩

theorem meters_analyse (data : Bytes) :
    Meters env.apk.width (analyse env data) (Shim.analyse env data) (AnalyseDeclares env data) := by
  have hmeters : Meters env.apk.width (analyse env data) (Shim.analyse env data) _ :=
    ((Apk.Reserving.meters_inspect data).mapError _).bind fun info _ =>
      (meters_nativeLibraries data).bind fun libraries _ => (Meters.plain _).bind_pure _
  apply hmeters.congr
  intro r
  simp [AnalyseDeclares, mapError_eq_ok]

/-- What is asked for while a file is inspected and analysed is within a multiple of its length, and
none of it is a panic, exactly when every size that is declared on the way is, and can be asked
for. -/
theorem reserves_within_iff (c : Nat) (env : Env) (data : Bytes) :
    ((Apk.Reserving.inspect env.apk data).Within (c * (data.length + 1)) ∧
      (analyse env data).Within (c * (data.length + 1))) ↔
    ∀ r, AnalyseDeclares env data r →
      r.count ≤ c * (data.length + 1) ∧ r.Fits env.apk.width := by
  rw [(Apk.Reserving.meters_inspect data).within_iff, (meters_analyse data).within_iff]
  constructor
  · intro h
    exact h.2
  · intro h
    exact ⟨fun r hr => h r (Or.inl hr), h⟩

/-! ### A manifest of no bytes that is declared to have 2^64 - 1 -/

open Apk (w16 w32 zeros)

/-- The zip64 record: the size, and the size in the archive. -/
def hugeSize : Bytes := w16 1 ++ w16 16 ++ List.replicate 8 0xFF ++ zeros 8

def hugeFields : Bytes :=
  w16 45 ++ zeros 6 ++ w16 0x21 ++ zeros 4 ++ w32 0xFFFFFFFF ++ w32 0xFFFFFFFF ++ w16 19 ++ w16 20

def hugeLocal : Bytes :=
  w32 0x04034b50 ++ hugeFields ++ utf8Bytes "AndroidManifest.xml" ++ hugeSize

def hugeCentral : Bytes :=
  w32 0x02014b50 ++ w16 45 ++ hugeFields ++ zeros 10 ++ w32 0 ++ utf8Bytes "AndroidManifest.xml"
    ++ hugeSize

def hugeApk : Bytes :=
  hugeLocal ++ hugeCentral ++ w32 0x06054b50 ++ zeros 4 ++ w16 1 ++ w16 1
    ++ w32 hugeCentral.length ++ w32 hugeLocal.length ++ zeros 2

def hugeZip : ZipArchive where
  fileNames := ["AndroidManifest.xml"]
  byName name :=
    if name = "AndroidManifest.xml" then .ok ⟨2 ^ 64 - 1, .ok []⟩ else .error .fileNotFound
  nodup := List.nodup_singleton _
  notFound name := by
    rw [List.mem_singleton]
    split
    · next h => simp [h]
    · next h => simp [h]

def hugeEnv : Env where
  apk := .known [(hugeApk, hugeZip)]
    [(hugeApk,
        [0x35, 0xdc, 0xa5, 0xcf, 0x4f, 0x3f, 0x63, 0xfa, 0x31, 0x46, 0x2b, 0x6d, 0xd0, 0x51,
          0x25, 0x37, 0xfb, 0x70, 0x4f, 0xe4, 0x0f, 0xe7, 0x24, 0xa5, 0xbb, 0x36, 0x5b, 0x8b,
          0x91, 0xae, 0x2d, 0x22])]
  object := ⟨fun _ => .error "Unknown file magic", fun _ _ => .ok []⟩
  host := some .x86_64
  hostProvides := fun _ => false

theorem byName_hugeZip :
    hugeZip.byName "AndroidManifest.xml" = .ok ⟨2 ^ 64 - 1, .ok []⟩ := by
  simp [hugeZip]

theorem zip_hugeEnv : hugeEnv.apk.zip hugeApk = .ok hugeZip := by
  rw [hugeEnv, Apk.Env.zip_known_head]

theorem declares_hugeApk : InspectDeclares hugeEnv.apk hugeApk ⟨2 ^ 64 - 1, 1⟩ := by
  refine ⟨hugeZip, zip_hugeEnv, Or.inl (Or.inl ⟨_, byName_hugeZip, ?_⟩)⟩
  show _ = (⟨(2 ^ 64 - 1) % 2 ^ 64, 1⟩ : Request)
  simp

/-- A file of 176 bytes is a panic, so no multiple of the length is a limit. -/
theorem huge_apk_panics : hugeApk.length = 176 ∧
    (Apk.Reserving.inspect hugeEnv.apk hugeApk).result = .error .panic ∧
    ¬ ∃ c, ∀ (env : Env) (data : Bytes),
      (Apk.Reserving.inspect env.apk data).Within (c * (data.length + 1)) ∧
        (analyse env data).Within (c * (data.length + 1)) := by
  have hno : ¬ (⟨2 ^ 64 - 1, 1⟩ : Request).Fits .w64 := by decide
  have hpanic : (Apk.Reserving.inspect hugeEnv.apk hugeApk).result = .error .panic :=
    (Apk.Reserving.meters_inspect hugeApk).panics_iff.mpr ⟨_, declares_hugeApk, hno⟩
  refine ⟨rfl, hpanic, ?_⟩
  rintro ⟨c, hall⟩
  exact (hall hugeEnv hugeApk).1.calm hpanic

end Reserving
end Xylitol.Shim
