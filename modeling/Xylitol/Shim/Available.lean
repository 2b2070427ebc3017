import Xylitol.Shim.Loadable

/-!
# The ABIs an app ships

A report lists the ABIs an app ships, usable here or not, and says *no native code* of an app that
ships none. What the app ships is told by its directories; what the report lists are the ABIs the
directories are recognised as:

    lib/<dir>/name.so ──splitLibPath──▶ (abi, name) ──availableAbis──▶ abi.asStr

A directory is lost on the way when it is not the name of an ABI, when it is another spelling of one,
or when it is in an APK that is never looked into. `nativeCodeReported_iff` says that nothing else
can make a report deny the native code of an app.
-/

namespace Xylitol.Shim

open Apk (Stored ZipArchive)

variable {env : Env} {data : Bytes} {zip : ZipArchive} {r : Report}

/-! ## The directories of an archive -/

/-- The directory of a `lib/<directory>/<name>.so`, whatever it is called. -/
def soDir (name : String) : Option String := do
  let rest ← Text.stripPrefix name "lib/"
  let (dir, file) ← Text.splitOnce rest '/'
  if Text.endsWith file ".so" then return dir else none

/-- The archive has a `.so` in the directory. -/
def HasDir (zip : ZipArchive) (dir : String) : Prop := ∃ name ∈ zip.fileNames, soDir name = some dir

/-- The package has a `.so` in the directory: itself, or if it is a bundle, in a readable APK of
its. -/
def ShipsDir (env : Env) (zip : ZipArchive) (dir : String) : Prop :=
  HasDir zip dir ∨ ("AndroidManifest.xml" ∉ zip.fileNames ∧
    ∃ name inner, Contained env zip name inner ∧ HasDir inner dir)

/-- The directory is for the ABI of the host. -/
def ForHost (env : Env) (dir : String) : Prop :=
  ∃ host, env.host = some host ∧ Abi.parse dir = some host

/-- A library is a `.so` whose directory is read as an ABI. -/
theorem splitLibPath_eq_some {name : String} {abi : Abi} :
    (∃ file, splitLibPath name = some (abi, file)) ↔
      ∃ dir, soDir name = some dir ∧ Abi.parse dir = some abi := by
  unfold splitLibPath soDir
  cases Text.stripPrefix name "lib/" with
  | none => simp
  | some rest =>
      simp only [Option.bind_eq_bind, Option.bind_some]
      cases Text.splitOnce rest '/' with
      | none => simp
      | some parts =>
          obtain ⟨dir, file⟩ := parts
          simp only [Option.bind_some]
          by_cases hso : Text.endsWith file ".so"
          · rw [if_pos hso, if_pos hso]
            cases hparse : Abi.parse dir <;> simp [hparse]
          · rw [if_neg hso, if_neg hso]
            simp

theorem hasDir_of_libNames {key : Abi × String} (h : key ∈ libNames zip) :
    ∃ dir, HasDir zip dir ∧ Abi.parse dir = some key.1 := by
  obtain ⟨hmem, hlib⟩ := mem_libNames.mp h
  obtain ⟨dir, hdir, habi⟩ := splitLibPath_eq_some.mp hlib
  exact ⟨dir, ⟨key.2, hmem, hdir⟩, habi⟩

theorem libNames_ne_nil {dir : String} {abi : Abi} (h : HasDir zip dir)
    (habi : Abi.parse dir = some abi) : libNames zip ≠ [] := by
  obtain ⟨name, hmem, hdir⟩ := h
  obtain hlib := splitLibPath_eq_some.mpr ⟨dir, hdir, habi⟩
  exact List.ne_nil_of_mem (mem_libNames.mpr ⟨hmem, hlib⟩ : (abi, name) ∈ libNames zip)

/-- The directory a shipped library lies in. -/
theorem Ships.dir {key : Abi × String} {bytes : Bytes} (h : Ships env zip key bytes) :
    ∃ dir, Abi.parse dir = some key.1 ∧ (HasDir zip dir ∨
      (libNames zip = [] ∧ ∃ name inner, Contained env zip name inner ∧ HasDir inner dir)) := by
  cases h with
  | own hkey _ =>
      obtain ⟨dir, hdir, habi⟩ := hasDir_of_libNames hkey
      exact ⟨dir, habi, .inl hdir⟩
  | inner hnone hin hkey _ =>
      obtain ⟨dir, hdir, habi⟩ := hasDir_of_libNames hkey
      exact ⟨dir, habi, .inr ⟨hnone, _, _, hin, hdir⟩⟩

/-! ## What a report says of them -/

/-- Every directory is listed and keeps the verdict from being *no native code*; where none is for
the host, the verdict is *wrong ABI* with exactly these directories. -/
structure NativeCodeReported (env : Env) (zip : ZipArchive) (r : Report) : Prop where
  listed : ∀ dir, ShipsDir env zip dir → r.verdict ≠ .noNativeCode ∧ dir ∈ r.availableAbis
  wrong : (∃ dir, ShipsDir env zip dir) → (∀ dir, ShipsDir env zip dir → ¬ ForHost env dir) →
    ∃ available, r.verdict = .wrongAbi ((env.host.map Abi.asStr).getD "unknown") available ∧
      ∀ dir, dir ∈ available ↔ ShipsDir env zip dir

/-- The directory has the name of an ABI that the package ships something for, in its own archive or
where that has no library at all, in an APK inside it. -/
def Recognised (env : Env) (zip : ZipArchive) (dir : String) : Prop :=
  ∃ abi path bytes, Abi.asStr abi = dir ∧ Ships env zip (abi, path) bytes

theorem mem_availableAbis_iff (h : analyse env data = .ok r) (hzip : env.apk.zip data = .ok zip)
    {dir : String} : dir ∈ r.availableAbis ↔ Recognised env zip dir := by
  obtain ⟨info, libraries, objects, -, hlibs, -, rfl⟩ := analyse_eq_ok_iff.mp h
  show dir ∈ availableAbis libraries ↔ _
  rw [mem_availableAbis_shipped hlibs hzip]
  constructor
  · intro ⟨key, bytes, hships, hdir⟩
    exact ⟨key.1, key.2, bytes, hdir, hships⟩
  · intro ⟨abi, path, bytes, hdir, hships⟩
    exact ⟨(abi, path), bytes, hships, hdir⟩

theorem verdict_of_available (h : analyse env data = .ok r) (hne : r.availableAbis ≠ []) :
    r.verdict ≠ .noNativeCode ∧ (r.objects = [] →
      r.verdict = .wrongAbi ((env.host.map Abi.asStr).getD "unknown") r.availableAbis) := by
  obtain ⟨objects, -, hr⟩ := analyse_eq_ok h
  rw [hr.verdict]
  unfold decide
  rw [if_neg (by simpa using hne)]
  constructor
  · repeat' split
    all_goals simp
  · intro hobjects
    rw [hobjects]
    rfl

/-- A library of the host lies in a directory for the host. -/
theorem HostLibrary.ships {path : String} {bytes : Bytes} (h : HostLibrary env data path bytes)
    (hzip : env.apk.zip data = .ok zip) :
    ∃ host, env.host = some host ∧ Ships env zip (host, path) bytes := by
  obtain ⟨zip', host, hzip', hhost, hlast⟩ := h
  rw [hzip] at hzip'
  cases hzip'
  exact ⟨host, hhost, mem_shipped.mp (mem_of_lastUnder hlast)⟩

/-- Where every directory is recognised, what is shipped lies in one of them. -/
theorem Ships.shipsDir (hall : ∀ dir, ShipsDir env zip dir → Recognised env zip dir)
    (hsome : ∃ dir, ShipsDir env zip dir) {key : Abi × String} {bytes : Bytes}
    (h : Ships env zip key bytes) : ∃ dir, Abi.parse dir = some key.1 ∧ ShipsDir env zip dir := by
  obtain ⟨dir₀, hdir₀⟩ := hsome
  obtain ⟨dir, habi, hdir | ⟨hnone, hin⟩⟩ := h.dir
  · exact ⟨dir, habi, .inl hdir⟩
  · refine ⟨dir, habi, .inr ⟨?_, hin⟩⟩
    -- where the package has a manifest of its own, only its own directories count
    rcases hdir₀ with hown | ⟨hmanifest, -⟩
    · obtain ⟨abi, -, -, hname, -⟩ := hall dir₀ (.inl hown)
      have hparse : Abi.parse dir₀ = some abi := by rw [← hname, Abi.parse_asStr]
      exact absurd hnone (libNames_ne_nil hown hparse)
    · exact hmanifest

/-- A report owns up to all native code exactly when every directory is recognised. -/
theorem nativeCodeReported_iff (h : analyse env data = .ok r) (hzip : env.apk.zip data = .ok zip) :
    NativeCodeReported env zip r ↔ ∀ dir, ShipsDir env zip dir → Recognised env zip dir := by
  constructor
  · intro hreported dir hdir
    exact (mem_availableAbis_iff h hzip).mp (hreported.listed dir hdir).2
  · intro hall
    have hlisted : ∀ dir, ShipsDir env zip dir → dir ∈ r.availableAbis := fun dir hdir =>
      (mem_availableAbis_iff h hzip).mpr (hall dir hdir)
    refine ⟨?_, ?_⟩
    · intro dir hdir
      have hmem := hlisted dir hdir
      exact ⟨(verdict_of_available h (List.ne_nil_of_mem hmem)).1, hmem⟩
    · intro hsome hother
      have hobjects : r.objects = [] := by
        rw [List.eq_nil_iff_forall_not_mem]
        intro o ho
        obtain ⟨path, bytes, object, hlib, -, -⟩ := (mem_objects_iff h).mp ho
        obtain ⟨host, hhost, hlib⟩ := hlib.ships hzip
        obtain ⟨dir, habi, hdir⟩ := hlib.shipsDir hall hsome
        exact hother dir hdir ⟨host, hhost, habi⟩
      have hne : r.availableAbis ≠ [] := by
        obtain ⟨dir₀, hdir₀⟩ := hsome
        exact List.ne_nil_of_mem (hlisted dir₀ hdir₀)
      refine ⟨r.availableAbis, (verdict_of_available h hne).2 hobjects, ?_⟩
      intro dir
      refine ⟨?_, hlisted dir⟩
      intro hmem
      obtain ⟨abi, path, bytes, rfl, hlib⟩ := (mem_availableAbis_iff h hzip).mp hmem
      -- the directory is recognised, so it is spelled like its ABI
      obtain ⟨dir, habi, hdir⟩ := hlib.shipsDir hall hsome
      obtain ⟨abi', -, -, rfl, -⟩ := hall dir hdir
      rw [Abi.parse_asStr] at habi
      cases habi
      exact hdir

/-! ## An app for MIPS

Its only library is in `lib/mips/`: a MIPS shared object that starts alone. -/

def mipsObject : Bytes := (elfBytes loneSymbols).set 18 0x08

def mipsMembers : List Stored :=
  [⟨"AndroidManifest.xml", 0x66ea8750, Apk.Axml.smallDocument.bytes⟩,
    ⟨"lib/mips/libapp.so", 0xe7c41751, mipsObject⟩]

def mipsApk : Bytes := Stored.zip mipsMembers

def mipsZip : ZipArchive := Stored.archive mipsMembers (by decide)

def mipsEnv : Env :=
  knownEnv [(mipsApk, mipsZip)]
    [(mipsApk,
      [0x09, 0x94, 0x6e, 0x50, 0x0b, 0x8c, 0xb7, 0x14, 0xde, 0x43, 0x2a, 0xf0, 0x33, 0xb3, 0x0f,
        0xf0, 0xaf, 0x30, 0x7d, 0x56, 0x08, 0x96, 0xe1, 0x49, 0xbf, 0xba, 0xbb, 0xb6, 0xe4, 0x3f,
        0xd5, 0x7a])]
    [(mipsObject, ⟨.other "Mips", loneSymbols⟩)]

theorem analyse_mipsEnv : ∃ r, analyse mipsEnv mipsApk = .ok r ∧
    (r.verdict, r.availableAbis) = (.noNativeCode, []) :=
  map_eq_ok.mp (by decide +kernel)

theorem zip_mipsEnv : mipsEnv.apk.zip mipsApk = .ok mipsZip := by
  rw [mipsEnv, zip_knownEnv, Apk.Env.zip_known_head]

theorem nativeCodeReported_iff_mipsEnv : ∃ r, analyse mipsEnv mipsApk = .ok r ∧
    (NativeCodeReported mipsEnv mipsZip r ↔
      ∀ dir, ShipsDir mipsEnv mipsZip dir → Recognised mipsEnv mipsZip dir) := by
  obtain ⟨r, hr, -⟩ := analyse_mipsEnv
  exact ⟨r, hr, nativeCodeReported_iff hr zip_mipsEnv⟩

/-- An app for MIPS is said to have no native code. -/
theorem mips_app_no_native_code : ∃ r, analyse mipsEnv mipsApk = .ok r ∧
    r.verdict = .noNativeCode ∧ ShipsDir mipsEnv mipsZip "mips" ∧
      ¬ NativeCodeReported mipsEnv mipsZip r := by
  obtain ⟨r, hr, hsays⟩ := analyse_mipsEnv
  obtain ⟨hverdict, -⟩ := Prod.mk.inj hsays
  have hdir : ShipsDir mipsEnv mipsZip "mips" :=
    .inl ⟨"lib/mips/libapp.so", by simp [mipsZip, Stored.archive, mipsMembers], by decide⟩
  refine ⟨r, hr, hverdict, hdir, ?_⟩
  intro hreported
  exact (hreported.listed "mips" hdir).1 hverdict

end Xylitol.Shim
