import Xylitol.Sorted
import Xylitol.Apk.Inspect
import Xylitol.Shim.Elf
import Xylitol.Shim.Symbols

/-!
# Can this app run here?

`analyse` reads every native object an app ships for this machine and says whether everything the
objects import is accounted for. Nothing is executed:

    package ──nativeLibraries──▶ objects ──elf::read──▶ imports ──resolve──▶ routes ──decide──▶ verdict

The loop over the objects is `tally`; what it has accumulated at the end is said once, in
`tally_eq_ok`.
-/

namespace Xylitol.Shim

open Apk (ZipArchive PackageInfo)

/-- What the shim can do with an app. -/
inductive Verdict where
  | candidate
  | missingSymbols (count : Nat)
  | wrongAbi (host : String) (available : List String)
  | noNativeCode
  | needsJavaRuntime (jniNatives : Nat)
  deriving DecidableEq, Repr

/-- One native object's share of the analysis. -/
structure ObjectReport where
  object : Elf.NativeObject
  counts : RouteCounts
  resolutions : List Resolution
  deriving DecidableEq, Repr

/-- The full analysis of one app. -/
structure Report where
  package : String
  version : String
  hostAbi : Option String
  availableAbis : List String
  objects : List ObjectReport
  androidLibraries : List String
  unimplemented : List String
  totals : RouteCounts
  verdict : Verdict
  deriving DecidableEq, Repr

/-- What the analysis gets from elsewhere: the archive and object libraries, the machine's ABI and
which names its own libraries export. -/
structure Env where
  apk : Apk.Env
  object : Elf.ObjectCrate
  host : Option Abi
  hostProvides : String → Bool

/-! ## The native libraries of a package -/

/-- `split_lib_path`. -/
def splitLibPath (name : String) : Option (Abi × String) := do
  let rest ← Text.stripPrefix name "lib/"
  let (abi, file) ← Text.splitOnce rest '/'
  if Text.endsWith file ".so" then return (← Abi.parse abi, file) else none

/-- A `BTreeMap` key: the ABI, then the name. -/
instance : Ord (Abi × String) := lexOrd

abbrev Libraries := Std.ExtTreeMap (Abi × String) Bytes

/-- `zip.by_name(name)?` and `read_to_end(..)?`. -/
def readMember (zip : ZipArchive) (name : String) : Except Error Bytes :=
  match zip.byName name with
  | .error e => .error (.apk e.toString)
  | .ok f =>
    match f.content with
    | .ok data => .ok data
    | .error reason => .error (.apk reason)

/-- The first loop: the package's own `lib/<abi>/*.so`. -/
def ownLibraries (zip : ZipArchive) : List String → Libraries → Except Error Libraries
  | [], out => .ok out
  | name :: names, out =>
    match splitLibPath name with
    | some (abi, _) => do
      let data ← readMember zip name
      ownLibraries zip names (out.insert (abi, name) data)
    | none => ownLibraries zip names out

/-- The libraries of one APK inside a bundle. What cannot be read is left out. -/
def innerLibraries (name : String) (inner : ZipArchive) (out : Libraries) : Libraries :=
  inner.fileNames.foldl (fun out innerName =>
    match splitLibPath innerName, inner.byName innerName with
    | some (abi, _), .ok f =>
      match f.content with
      | .ok data => out.insert (abi, name ++ "!" ++ innerName) data
      | .error _ => out
    | _, _ => out) out

/-- The second loop: the APKs inside a bundle. -/
def bundledLibraries (env : Env) (zip : ZipArchive) :
    List String → Libraries → Except Error Libraries
  | [], out => .ok out
  | name :: names, out =>
    if Apk.isApkName name then do
      let inner ← readMember zip name
      match env.apk.zip inner with
      | .ok innerZip => bundledLibraries env zip names (innerLibraries name innerZip out)
      | .error _ => bundledLibraries env zip names out
    else bundledLibraries env zip names out

/-- Pull every `lib/<abi>/*.so` out of an APK, or out of each APK in a bundle. -/
def nativeLibraries (env : Env) (data : Bytes) : Except Error Libraries := do
  let zip ← (env.apk.zip data).mapError (fun e => .apk e.toString)
  let out ← ownLibraries zip zip.fileNames ∅
  if out.isEmpty then bundledLibraries env zip zip.fileNames out else return out

/-- The objects this machine could load, with their names, in the order of the map. -/
def usable (env : Env) (libraries : Libraries) : List (String × Bytes) :=
  match env.host with
  | some host =>
    (libraries.toList.filter (fun entry => entry.1.1 == host)).map fun entry => (entry.1.2, entry.2)
  | none => []

/-- ABIs the app ships. -/
def availableAbis (libraries : Libraries) : List String :=
  (Std.ExtTreeSet.ofList (libraries.keys.map fun key => key.1.asStr)).toList

/-! ## The loop over the objects -/

/-- What the loop accumulates. -/
structure Tally where
  objects : List ObjectReport
  androidLibraries : Std.ExtTreeSet String
  unimplemented : Std.ExtTreeSet String
  totals : RouteCounts
  entryPoints : List Elf.EntryPoint
  jniNatives : Nat

namespace Tally

def zero : Tally := ⟨[], ∅, ∅, .zero, [], 0⟩

/-- The body of the loop, once the object is read. -/
def add (env : Env) (t : Tally) (object : Elf.NativeObject) : Tally :=
  let resolutions := resolve env.hostProvides object.undefined
  let counts := RouteCounts.of resolutions
  { objects := t.objects ++ [⟨object, counts, resolutions⟩]
    androidLibraries := (object.needed.filter isAndroidSoname).foldl (·.insert ·) t.androidLibraries
    unimplemented :=
      ((resolutions.filter (·.route == .stub)).map Resolution.symbol).foldl (·.insert ·)
        t.unimplemented
    totals := t.totals.add counts
    entryPoints := t.entryPoints ++ object.entryPoints
    jniNatives := t.jniNatives + object.jniNatives }

end Tally

/-- `for (name, data) in &usable`. -/
def tally (env : Env) : List (String × Bytes) → Tally → Except Error Tally
  | [], t => .ok t
  | (name, data) :: rest, t => do
    let object ← Elf.read env.object name data
    tally env rest (t.add env object)

/-! ## The verdict -/

def decide (host : Option Abi) (available : List String) (objects : List ObjectReport)
    (entryPoints : List Elf.EntryPoint) (jniNatives unimplemented : Nat) : Verdict :=
  if available.isEmpty then .noNativeCode
  else if objects.isEmpty then .wrongAbi ((host.map Abi.asStr).getD "unknown") available
  else if !entryPoints.any Elf.EntryPoint.isSelfSufficient then .needsJavaRuntime jniNatives
  else if unimplemented > 0 then .missingSymbols unimplemented
  else .candidate

/-- The report on a package, made of what the loop has accumulated. -/
def Tally.report (env : Env) (info : PackageInfo) (available : List String) (t : Tally) : Report where
  package := info.package
  version := info.versionDisplay
  hostAbi := env.host.map Abi.asStr
  availableAbis := available
  objects := t.objects
  androidLibraries := t.androidLibraries.toList
  unimplemented := t.unimplemented.toList
  totals := t.totals
  verdict := decide env.host available t.objects t.entryPoints t.jniNatives
    t.unimplemented.toList.length

/-- Analyse an APK or bundle. -/
def analyse (env : Env) (data : Bytes) : Except Error Report := do
  let info ← (Apk.inspect env.apk data).mapError (fun e => .apk e.toString)
  let libraries ← nativeLibraries env data
  let t ← tally env (usable env libraries) .zero
  return t.report env info (availableAbis libraries)

/-! ## What the loop has accumulated -/

variable {env : Env}

/-- The loop reads every object, in order, and adds up what they say. -/
theorem tally_eq_ok {libs : List (String × Bytes)} {t₀ t : Tally} :
    tally env libs t₀ = .ok t ↔
      ∃ objects, libs.mapM (fun lib => Elf.read env.object lib.1 lib.2) = .ok objects ∧
        t = objects.foldl (Tally.add env) t₀ := by
  induction libs generalizing t₀ with
  | nil =>
      constructor
      · intro h
        exact ⟨[], rfl, (Except.ok.inj h).symm⟩
      · rintro ⟨objects, hobjects, rfl⟩
        cases hobjects
        rfl
  | cons lib libs ih =>
      obtain ⟨name, data⟩ := lib
      rw [tally, bind_eq_ok]
      constructor
      · rintro ⟨object, hread, h⟩
        obtain ⟨objects, hobjects, ht⟩ := ih.mp h
        refine ⟨object :: objects, ?_, ht⟩
        rw [List.mapM_cons, hread, ok_bind, hobjects]
        rfl
      · rintro ⟨objects, hobjects, ht⟩
        rw [List.mapM_cons] at hobjects
        obtain ⟨object, hread, hrest⟩ := bind_eq_ok.mp hobjects
        obtain ⟨objects', hobjects', hcons⟩ := bind_eq_ok.mp hrest
        cases hcons
        exact ⟨object, hread, ih.mpr ⟨objects', hobjects', ht⟩⟩

/-- One object's entry in the report. -/
def objectReport (env : Env) (object : Elf.NativeObject) : ObjectReport :=
  let resolutions := resolve env.hostProvides object.undefined
  ⟨object, .of resolutions, resolutions⟩

theorem objects_foldl (objects : List Elf.NativeObject) (t : Tally) :
    (objects.foldl (Tally.add env) t).objects = t.objects ++ objects.map (objectReport env) := by
  induction objects generalizing t with
  | nil => exact (List.append_nil _).symm
  | cons object objects ih =>
      rw [List.foldl_cons, ih, List.map_cons]
      show (t.objects ++ [objectReport env object]) ++ _ = _
      rw [List.append_assoc]
      rfl

theorem entryPoints_foldl (objects : List Elf.NativeObject) (t : Tally) :
    (objects.foldl (Tally.add env) t).entryPoints
      = t.entryPoints ++ objects.flatMap (·.entryPoints) := by
  induction objects generalizing t with
  | nil => exact (List.append_nil _).symm
  | cons object objects ih =>
      rw [List.foldl_cons, ih, List.flatMap_cons]
      show (t.entryPoints ++ object.entryPoints) ++ _ = _
      rw [List.append_assoc]

theorem mem_foldl_insert {names : List String} {set : Std.ExtTreeSet String} {name : String} :
    name ∈ names.foldl (·.insert ·) set ↔ name ∈ set ∨ name ∈ names := by
  induction names generalizing set with
  | nil => simp
  | cons n names ih =>
      rw [List.foldl_cons, ih, Std.ExtTreeSet.mem_insert, compare_eq_iff_eq, List.mem_cons]
      grind

/-- Neither the table nor the host has the name. -/
def Unresolved (env : Env) (name : String) : Prop :=
  ¬ InTable name ∧ env.hostProvides name = false

theorem mem_unimplemented_foldl {objects : List Elf.NativeObject} {t : Tally} {name : String} :
    name ∈ (objects.foldl (Tally.add env) t).unimplemented ↔
      name ∈ t.unimplemented ∨ ∃ o ∈ objects, name ∈ o.undefined ∧ Unresolved env name := by
  induction objects generalizing t with
  | nil => simp
  | cons object objects ih =>
      -- one object adds the names it imports and nothing resolves
      have hadd : name ∈ (t.add env object).unimplemented ↔
          name ∈ t.unimplemented ∨ (name ∈ object.undefined ∧ Unresolved env name) := by
        rw [Tally.add, mem_foldl_insert, Unresolved, ← stub_mem_resolve, List.mem_map]
        simp only [List.mem_filter, beq_iff_eq, and_assoc, and_comm]
      rw [List.foldl_cons, ih, hadd]
      constructor
      · rintro ((h | h) | ⟨o, ho, h⟩)
        · exact Or.inl h
        · exact Or.inr ⟨object, List.mem_cons_self, h⟩
        · exact Or.inr ⟨o, List.mem_cons_of_mem _ ho, h⟩
      · rintro (h | ⟨o, ho, h⟩)
        · exact Or.inl (Or.inl h)
        · rcases List.mem_cons.mp ho with rfl | ho
          · exact Or.inl (Or.inr h)
          · exact Or.inr ⟨o, ho, h⟩

/-! ## What a report says -/

/-- Reading the objects, once the libraries are there. -/
def readAll (env : Env) (libraries : Libraries) : Except Error (List Elf.NativeObject) :=
  (usable env libraries).mapM fun lib => Elf.read env.object lib.1 lib.2

/-- The objects the analysis reads, in order. -/
def readObjects (env : Env) (data : Bytes) : Except Error (List Elf.NativeObject) := do
  let libraries ← nativeLibraries env data
  readAll env libraries

/-- Everything a report says about the objects, in terms of the objects. -/
structure Report.Of (env : Env) (r : Report) (objects : List Elf.NativeObject) : Prop where
  objects_eq : r.objects = objects.map (objectReport env)
  unimplemented : ∀ name,
    name ∈ r.unimplemented ↔ ∃ o ∈ objects, name ∈ o.undefined ∧ Unresolved env name
  nodup : r.unimplemented.Nodup
  verdict : r.verdict = decide env.host r.availableAbis r.objects
    (objects.flatMap (·.entryPoints)) (objects.foldl (Tally.add env) .zero).jniNatives
    r.unimplemented.length
  available : objects ≠ [] → r.availableAbis ≠ []

theorem availableAbis_ne_nil {libraries : Libraries} (h : usable env libraries ≠ []) :
    availableAbis libraries ≠ [] := by
  intro hnil
  unfold usable at h
  split at h
  · next host =>
      obtain ⟨lib, hlib⟩ := List.exists_mem_of_ne_nil _ h
      obtain ⟨entry, hentry, -⟩ := List.mem_map.mp hlib
      have hmem := (List.mem_filter.mp hentry).1
      have hkey : entry.1.1.asStr ∈ availableAbis libraries := by
        rw [availableAbis, Std.ExtTreeSet.mem_toList, Std.ExtTreeSet.mem_ofList,
          List.contains_iff_mem, ← Std.ExtTreeMap.map_fst_toList_eq_keys, List.map_map]
        exact List.mem_map_of_mem hmem
      rw [hnil] at hkey
      cases hkey
  · exact h rfl

/-- The report on a package of which these objects were read. -/
def report (env : Env) (info : PackageInfo) (available : List String)
    (objects : List Elf.NativeObject) : Report :=
  (objects.foldl (Tally.add env) .zero).report env info available

theorem objects_report (info : PackageInfo) (available : List String)
    (objects : List Elf.NativeObject) :
    (report env info available objects).objects = objects.map (objectReport env) :=
  objects_foldl objects .zero

/-- What is analysed, in terms of what was read. -/
theorem analyse_eq_ok_iff {data : Bytes} {r : Report} :
    analyse env data = .ok r ↔ ∃ info libraries objects,
      Apk.inspect env.apk data = .ok info ∧ nativeLibraries env data = .ok libraries ∧
        readAll env libraries = .ok objects ∧
        r = report env info (availableAbis libraries) objects := by
  unfold analyse
  constructor
  · intro h
    obtain ⟨info, hinfo, h⟩ := bind_eq_ok.mp h
    obtain ⟨libraries, hlibs, h⟩ := bind_eq_ok.mp h
    obtain ⟨t, ht, h⟩ := bind_eq_ok.mp h
    obtain ⟨objects, hobjects, rfl⟩ := tally_eq_ok.mp ht
    cases h
    exact ⟨info, libraries, objects, mapError_eq_ok.mp hinfo, hlibs, hobjects, rfl⟩
  · intro ⟨info, libraries, objects, hinfo, hlibs, hobjects, hr⟩
    have ht : tally env (usable env libraries) .zero
        = .ok (objects.foldl (Tally.add env) .zero) := tally_eq_ok.mpr ⟨objects, hobjects, rfl⟩
    rw [hinfo, hlibs, hr]
    simp only [Except.mapError, ok_bind, ht]
    rfl

/-- A report is one about the objects that were read, and those are listed under some ABI. -/
theorem analyse_eq_report {data : Bytes} {r : Report} (h : analyse env data = .ok r) :
    ∃ info available objects, readObjects env data = .ok objects ∧
      (objects ≠ [] → available ≠ []) ∧ r = report env info available objects := by
  obtain ⟨info, libraries, objects, -, hlibs, hobjects, rfl⟩ := analyse_eq_ok_iff.mp h
  refine ⟨info, availableAbis libraries, objects, ?_, ?_, rfl⟩
  · rw [readObjects, hlibs, ok_bind, hobjects]
  · intro hne
    apply availableAbis_ne_nil
    intro hnil
    rw [readAll, hnil] at hobjects
    cases hobjects
    exact hne rfl

theorem analyse_eq_ok {data : Bytes} {r : Report} (h : analyse env data = .ok r) :
    ∃ objects, readObjects env data = .ok objects ∧ r.Of env objects := by
  obtain ⟨info, available, objects, hread, havailable, rfl⟩ := analyse_eq_report h
  refine ⟨objects, hread, ⟨objects_foldl objects .zero, ?_, nodup_toList _, ?_, havailable⟩⟩
  · intro name
    have hempty : name ∉ Tally.zero.unimplemented := Std.ExtTreeSet.not_mem_empty
    rw [report, Tally.report, Std.ExtTreeSet.mem_toList, mem_unimplemented_foldl,
      or_iff_right hempty]
  · rw [report, Tally.report, entryPoints_foldl]
    rfl

end Xylitol.Shim
