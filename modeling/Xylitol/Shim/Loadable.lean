import Xylitol.Shim.Libraries
import Xylitol.Shim.Soundness

/-!
# Objects of another machine

Two things name the ABI of an object: the directory it lies in, and the machine type in its header.

    lib/<dir>/name.so ──Abi.parse──▶ which objects are usable
    ELF header ──abiOf──▶ NativeObject.abi

Only the directory decides what is read, so the objects of a report are for this machine exactly when
no library under the host's directory was built for another one (`onlyLoadable_iff`).
-/

namespace Xylitol.Shim

open Apk (Stored)

variable {env : Env} {data : Bytes} {r : Report}

/-- What `read` makes of a file: its ABI is the one of the machine type in the header. -/
theorem Elf.read_abi {crate : ObjectCrate} {path : String} {object : NativeObject}
    (h : read crate path data = .ok object) : object.path = path ∧
      ∃ file, crate.parse data = .ok file ∧ abiOf file.architecture = .ok object.abi := by
  unfold read at h
  obtain ⟨file, hfile, h⟩ := bind_eq_ok.mp h
  obtain ⟨abi, habi, h⟩ := bind_eq_ok.mp h
  obtain ⟨⟨soname, needed⟩, -, h⟩ := bind_eq_ok.mp h
  cases h
  exact ⟨rfl, file, mapError_eq_ok.mp hfile, mapError_eq_ok.mp habi⟩

/-! ## Where a library lies and what it was built for -/

/-- The package ships `bytes` at `path`, in the directory of the host's ABI. -/
def HostLibrary (env : Env) (data : Bytes) (path : String) (bytes : Bytes) : Prop :=
  ∃ zip host, env.apk.zip data = .ok zip ∧ env.host = some host ∧
    lastUnder (host, path) (shipped env zip) = some bytes

/-- The machine type in the header of `bytes` is of an ABI, but not of the host's. -/
def Foreign (env : Env) (bytes : Bytes) : Prop :=
  ∃ file abi, env.object.parse bytes = .ok file ∧ Elf.abiOf file.architecture = .ok abi ∧
    env.host ≠ some abi

/-- Every object of the report was built for the host, and none is a library built for another
machine. -/
structure OnlyLoadable (env : Env) (data : Bytes) (r : Report) : Prop where
  built : ∀ o ∈ r.objects, r.hostAbi = some o.object.abi.asStr
  foreign : ∀ path bytes, HostLibrary env data path bytes → Foreign env bytes →
    ∀ o ∈ r.objects, o.object.path ≠ path

theorem mem_usable_iff {libraries : Libraries} (h : nativeLibraries env data = .ok libraries)
    {path : String} {bytes : Bytes} :
    (path, bytes) ∈ usable env libraries ↔ HostLibrary env data path bytes := by
  rw [mem_usable]
  obtain ⟨zip, hzip, -, -⟩ := nativeLibraries_eq_ok.mp h
  constructor
  · intro ⟨host, hhost, hget⟩
    exact ⟨zip, host, hzip, hhost, by rw [← getElem?_nativeLibraries h hzip, hget]⟩
  · intro ⟨zip', host, hzip', hhost, hlast⟩
    exact ⟨host, hhost, by rw [getElem?_nativeLibraries h hzip', hlast]⟩

/-- The objects of a report are the host's libraries, read one by one. -/
theorem mem_objects_iff (h : analyse env data = .ok r) {o : ObjectReport} :
    o ∈ r.objects ↔ ∃ path bytes object, HostLibrary env data path bytes ∧
      Elf.read env.object path bytes = .ok object ∧ o = objectReport env object := by
  obtain ⟨info, libraries, objects, -, hlibs, hread, rfl⟩ := analyse_eq_ok_iff.mp h
  rw [objects_report, List.mem_map]
  constructor
  · intro ⟨object, hobject, ho⟩
    obtain ⟨⟨path, bytes⟩, hlib, hobject⟩ := (mem_of_mapM_eq_ok hread).mp hobject
    exact ⟨path, bytes, object, (mem_usable_iff hlibs).mp hlib, hobject, ho.symm⟩
  · intro ⟨path, bytes, object, hlib, hobject, ho⟩
    refine ⟨object, ?_, ho.symm⟩
    exact (mem_of_mapM_eq_ok hread).mpr ⟨(path, bytes), (mem_usable_iff hlibs).mpr hlib, hobject⟩

/-- Every library of the host was read. -/
theorem read_of_hostLibrary (h : analyse env data = .ok r) {path : String} {bytes : Bytes}
    (hlib : HostLibrary env data path bytes) : ∃ object,
      Elf.read env.object path bytes = .ok object := by
  obtain ⟨info, libraries, objects, -, hlibs, hread, -⟩ := analyse_eq_ok_iff.mp h
  exact exists_mapM_eq_ok.mp ⟨objects, hread⟩ (path, bytes) ((mem_usable_iff hlibs).mpr hlib)

theorem hostAbi_eq (h : analyse env data = .ok r) : r.hostAbi = env.host.map Abi.asStr := by
  obtain ⟨info, libraries, objects, -, -, -, rfl⟩ := analyse_eq_ok_iff.mp h
  rfl

/-- The objects of a report are for this machine exactly when the package keeps no library built for
another machine in the directory of the host's ABI. -/
theorem onlyLoadable_iff (h : analyse env data = .ok r) :
    OnlyLoadable env data r ↔
      ∀ path bytes, HostLibrary env data path bytes → ¬ Foreign env bytes := by
  constructor
  · intro honly path bytes hlib hforeign
    -- a foreign library is read like any other, and its object is in the report
    obtain ⟨object, hobject⟩ := read_of_hostLibrary h hlib
    have ho := (mem_objects_iff h).mpr ⟨path, bytes, object, hlib, hobject, rfl⟩
    exact honly.foreign path bytes hlib hforeign _ ho (Elf.read_abi hobject).1
  · intro hnone
    refine ⟨?_, fun path bytes hlib hforeign => absurd hforeign (hnone path bytes hlib)⟩
    intro o ho
    obtain ⟨path, bytes, object, hlib, hobject, rfl⟩ := (mem_objects_iff h).mp ho
    obtain ⟨-, file, hfile, habi⟩ := Elf.read_abi hobject
    by_contra hne
    apply hnone path bytes hlib
    refine ⟨file, object.abi, hfile, habi, ?_⟩
    intro hhost
    rw [hostAbi_eq h, hhost] at hne
    exact hne rfl

/-! ## A package with an object of another machine

An AArch64 shared object that starts alone and imports nothing, in the directory for x86-64. -/

def loneSymbols : List Elf.DynamicSymbol := [⟨some "ANativeActivity_onCreate", false⟩]

/-- The machine type is the 16-bit word at offset 18. -/
def armObject : Bytes := (elfBytes loneSymbols).set 18 0xb7

def strayMembers : List Stored :=
  [⟨"AndroidManifest.xml", 0x66ea8750, Apk.Axml.smallDocument.bytes⟩,
    ⟨"lib/x86_64/libapp.so", 0x74b3a3dc, armObject⟩]

def strayApk : Bytes := Stored.zip strayMembers

/-- The libraries, as they are on archives and objects that are known beforehand. -/
def knownEnv (archives : List (Bytes × Apk.ZipArchive)) (digests : List (Bytes × Bytes))
    (objects : List (Bytes × Elf.ObjectFile)) : Env where
  apk := {
    width := .w64
    zip := fun data =>
      match archives.find? (·.1 == data) with
      | some known => .ok known.2
      | none => .error (.other "invalid Zip archive: Could not find EOCD")
    sha256 := fun data => ((digests.find? (·.1 == data)).map (·.2)).getD []
    showFloat := fun _ => "" }
  object := {
    parse := fun data =>
      match objects.find? (·.1 == data) with
      | some known => .ok known.2
      | none => .error "Unknown file magic"
    dynamicTables := fun _ _ => .ok [] }
  host := some .x86_64
  hostProvides := fun _ => false

theorem zip_knownEnv (archives : List (Bytes × Apk.ZipArchive)) (digests : List (Bytes × Bytes))
    (objects : List (Bytes × Elf.ObjectFile)) :
    (knownEnv archives digests objects).apk.zip = (Apk.Env.known archives digests).zip := rfl

def strayEnv : Env :=
  knownEnv [(strayApk, Stored.archive strayMembers (by decide))]
    [(strayApk,
      [0xf3, 0xad, 0xf1, 0xe4, 0x4c, 0x6e, 0xcc, 0x87, 0x98, 0xe3, 0x03, 0xcf, 0xf1, 0xa5, 0xb5,
        0x66, 0xcb, 0xd1, 0x96, 0xa0, 0x41, 0x35, 0x75, 0x15, 0xfb, 0xe8, 0xd3, 0xb1, 0x1c, 0xa9,
        0xd6, 0xf3])]
    [(armObject, ⟨.aarch64, loneSymbols⟩)]

theorem analyse_strayEnv : ∃ r, analyse strayEnv strayApk = .ok r ∧
    (r.verdict, r.hostAbi, r.objects.map (·.object.abi))
      = (.candidate, some "x86_64", [.arm64V8a]) :=
  map_eq_ok.mp (by decide +kernel)

theorem onlyLoadable_iff_strayEnv : ∃ r, analyse strayEnv strayApk = .ok r ∧
    (OnlyLoadable strayEnv strayApk r ↔
      ∀ path bytes, HostLibrary strayEnv strayApk path bytes → ¬ Foreign strayEnv bytes) := by
  obtain ⟨r, hr, -⟩ := analyse_strayEnv
  exact ⟨r, hr, onlyLoadable_iff hr⟩

/-- An AArch64 object makes an app a Candidate on x86-64. -/
theorem stray_object_candidate : ∃ r, analyse strayEnv strayApk = .ok r ∧ r.verdict = .candidate ∧
    r.hostAbi = some "x86_64" ∧ (∃ o ∈ r.objects, o.object.abi = .arm64V8a) ∧
    ¬ OnlyLoadable strayEnv strayApk r := by
  obtain ⟨r, hr, hsays⟩ := analyse_strayEnv
  obtain ⟨hverdict, hsays⟩ := Prod.mk.inj hsays
  obtain ⟨hhost, hobjects⟩ := Prod.mk.inj hsays
  have hmem : Abi.arm64V8a ∈ r.objects.map (·.object.abi) := by simp [hobjects]
  obtain ⟨o, ho, habi⟩ := List.mem_map.mp hmem
  refine ⟨r, hr, hverdict, hhost, ⟨o, ho, habi⟩, ?_⟩
  intro honly
  have hbuilt := honly.built o ho
  rw [hhost, habi] at hbuilt
  exact absurd hbuilt (by decide)

end Xylitol.Shim
