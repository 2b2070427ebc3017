import Xylitol.Library.Damage

/-!
# Processes in different directories

An entry keeps the path it was added under, and a path that is not absolute is looked up from the
working directory of whoever opens the library. `entry_kept_iff` says when later processes, each in
a directory of its own, keep an entry.
-/

namespace Xylitol.Library

open Apkpure (Variant)

variable {J : Type} {json : SerdeJson J} {env : Apk.Env}

/-- The files as a process in `cwd` finds them under the paths it is given. -/
def seenFrom (cwd : Path) (fs : Path → Option Bytes) : Path → Option Bytes :=
  fun path => fs (Path.join cwd path)

/-- A process that opens the library and makes some calls. `fs` are the files when it opens the
library; those at the time of a call are in the call. -/
structure Visit where
  cwd : Path
  fs : Path → Option Bytes
  faults : Faults
  attempts : List Attempt

namespace Visit

/-- The index file and the package files as the process finds them. -/
def world (v : Visit) (world : World J) : World J := { world with files := seenFrom v.cwd v.fs }

def calls (v : Visit) : List Attempt :=
  v.attempts.map fun a => { a with files := seenFrom v.cwd a.files }

def opened (json : SerdeJson J) (v : Visit) (world : World J) : Except Error Index :=
  openAt json v.faults (v.world world)

/-- What the process leaves behind; one that cannot open the library leaves it as it is. -/
def run (json : SerdeJson J) (env : Apk.Env) (world : World J) (v : Visit) : World J :=
  match v.opened json world with
  | .error _ => world
  | .ok index => (Runs.run (Attempt.step json env) ⟨index, v.world world⟩ v.calls).world

/-- No call of the process is for the key. -/
def Spares (json : SerdeJson J) (env : Apk.Env) (key : String) (world : World J) (v : Visit) : Prop :=
  ∀ index, v.opened json world = .ok index →
    Runs.Along (Attempt.step json env) (Attempt.Spares env key) ⟨index, v.world world⟩ v.calls

/-- The process lists the entry when it has opened the library, and the index file still has it when
it is done. -/
def Keeps (json : SerdeJson J) (env : Apk.Env) (e : Entry) (world : World J) (v : Visit) : Prop :=
  ∀ index, v.opened json world = .ok index →
    index[e.key]? = some e ∧ OnDisk json (v.run json env world) e

/-- There is a file under the path of the entry, as the process sees it. -/
def Finds (e : Entry) (v : Visit) : Prop := (v.fs (Path.join v.cwd e.path)).isSome

end Visit

/-- Entries are spelled out where the whole index can be parsed. -/
def parsedSpelling (json : SerdeJson J) : Spelling json where
  Spells j k e := ∃ index : Index, json.fromSlice j = some index ∧ index[k]? = some e
  fromSlice j index h k e := by simp [h]

theorem spelled_parsed_iff {world : World J} {e : Entry} :
    Spelled (parsedSpelling json) e.key e world ↔ OnDisk json world e := by
  simp only [Spelled, parsedSpelling, OnDisk, exists_and_left]

/-- A process keeps a recorded entry exactly when it finds the file. -/
theorem Visit.keeps_iff {world : World J} {e : Entry} {v : Visit} (hdisk : OnDisk json world e)
    (hspares : v.Spares json env e.key world) :
    v.Keeps json env e world ↔ (v.faults.readIndex = false → v.Finds e) := by
  constructor
  · intro hkeeps hread
    obtain ⟨index, hopen⟩ : ∃ index, v.opened json world = .ok index := by
      simp [Visit.opened, openAt, hread]
    exact ((getElem?_openAt hopen e.key e).mp (hkeeps index hopen).1).2
  · intro hfinds index hopen
    have hread : v.faults.readIndex = false := by
      cases hread : v.faults.readIndex with
      | false => rfl
      | true => simp [Visit.opened, openAt, hread] at hopen
    have hseen : OnDisk json (v.world world) e := hdisk
    have hentry : index[e.key]? = some e := openAt_of_onDisk hseen (hfinds hread) hopen
    refine ⟨hentry, ?_⟩
    rw [Visit.run, hopen, ← spelled_parsed_iff]
    exact (run_spelled_iff _ (hspares index hopen)
      (iff_of_true (spelled_parsed_iff.mpr hdisk) hentry)).mpr hentry

/-- Whatever a process that finds the file does for other keys, the entry stays recorded. -/
theorem Visit.run_onDisk {world : World J} {e : Entry} {v : Visit} (hdisk : OnDisk json world e)
    (hkeeps : v.Keeps json env e world) : OnDisk json (v.run json env world) e := by
  cases hopen : v.opened json world with
  | error err => rwa [Visit.run, hopen]
  | ok index => exact (hkeeps index hopen).2

/-- A process that does not find the file drops the entry, as soon as it has added something. -/
theorem Visit.run_not_onDisk {world : World J} {e : Entry} {v : Visit} {index : Index}
    (hdisk : OnDisk json world e) (hopen : v.opened json world = .ok index) (hlost : ¬ v.Finds e)
    (hrun : Runs.Along (Attempt.step json env) (Attempt.Succeeds json env e.key)
      ⟨index, v.world world⟩ v.calls)
    {a : Attempt} (ha : a ∈ v.calls) (hadd : ¬ a.call.IsRemove) :
    ¬ OnDisk json (v.run json env world) e := by
  have hnone : index[e.key]? = none := by
    cases hentry : index[e.key]? with
    | none => rfl
    | some e' =>
      obtain ⟨hrecorded, hfinds⟩ := (getElem?_openAt hopen e.key e').mp hentry
      have hseen : OnDisk json (v.world world) e := hdisk
      obtain ⟨j, read, hj, hparse, he⟩ := hseen
      rw [recorded, hj, Option.bind_some, hparse, Option.getD_some, he] at hrecorded
      cases hrecorded
      exact absurd hfinds hlost
  rw [← spelled_parsed_iff, Visit.run, hopen]
  exact run_add_not_spelled _ hrun hnone ha hadd

/-- Among processes that do nothing for its key, a recorded entry is kept exactly when each finds
the file. -/
theorem along_keeps_iff {world : World J} {e : Entry} {visits : List Visit}
    (hdisk : OnDisk json world e)
    (hspares : Runs.Along (Visit.run json env) (fun world v => v.Spares json env e.key world) world
      visits) :
    Runs.Along (Visit.run json env) (fun world v => v.Keeps json env e world) world visits ↔
      ∀ v ∈ visits, v.faults.readIndex = false → v.Finds e := by
  induction visits generalizing world with
  | nil => simp [Runs.Along]
  | cons v rest ih =>
    rw [List.forall_mem_cons, ← Visit.keeps_iff hdisk hspares.1]
    constructor
    · rintro ⟨hkeeps, hrest⟩
      exact ⟨hkeeps, (ih (v.run_onDisk hdisk hkeeps) hspares.2).mp hrest⟩
    · rintro ⟨hkeeps, hrest⟩
      exact ⟨hkeeps, (ih (v.run_onDisk hdisk hkeeps) hspares.2).mpr hrest⟩

/-- What an `add` that succeeds has recorded: the path as it was given. -/
theorem add_onDisk {faults : Faults} {index : Index} {world : World J} {path : Path}
    {source : Option Variant} {verified : Bool} {now : String} {e : Entry}
    (hok : (add json env faults index world path source verified now).result = .ok (.added e)) :
    e.path = path ∧
      OnDisk json (add json env faults index world path source verified now).world e := by
  rcases add_cases json env faults index world path source verified now with
    ⟨err, -, hrun⟩ | ⟨entry, hentry, ⟨j, hj, hrun⟩ | ⟨err, hrun⟩⟩
  · rw [hrun] at hok
    cases hok
  · rw [hrun] at hok ⊢
    cases hok
    have hpath : e.path = path := by
      unfold newEntry at hentry
      split at hentry
      · cases hentry
      · obtain ⟨info, -, hinfo⟩ := bind_eq_ok.mp hentry
        cases hinfo
        rfl
    exact ⟨hpath, j, _, rfl, json.fromSlice_toVecPretty _ _ hj,
      Std.ExtTreeMap.getElem?_insert_self⟩
  · rw [hrun] at hok
    cases hok

/-- An entry added by a process in one directory is kept by later processes, in any directories,
exactly when each of them finds a file under the path that was given, from where it is itself. -/
theorem entry_kept_iff {faults : Faults} {index : Index} {file : Option J} {cwd : Path}
    {fs : Path → Option Bytes} {path : Path} {source : Option Variant} {verified : Bool}
    {now : String} {e : Entry} {visits : List Visit}
    (hok : (add json env faults index ⟨file, seenFrom cwd fs⟩ path source verified now).result
      = .ok (.added e))
    (hspares : Runs.Along (Visit.run json env) (fun world v => v.Spares json env e.key world)
      (add json env faults index ⟨file, seenFrom cwd fs⟩ path source verified now).world visits) :
    Runs.Along (Visit.run json env) (fun world v => v.Keeps json env e world)
        (add json env faults index ⟨file, seenFrom cwd fs⟩ path source verified now).world visits ↔
      ∀ v ∈ visits, v.faults.readIndex = false → (v.fs (Path.join v.cwd path)).isSome := by
  obtain ⟨rfl, hdisk⟩ := add_onDisk hok
  exact along_keeps_iff hdisk hspares

/-- From every directory an absolute path leads to the same file. -/
theorem join_absolute {cwd path : Path} (h : path.head? = some Path.slash) :
    Path.join cwd path = path := by
  rw [Path.join, if_pos (Or.inl h)]

/-- So an entry with an absolute path is kept for as long as its file stays there. -/
theorem along_keeps_absolute {world : World J} {e : Entry} {visits : List Visit}
    (hdisk : OnDisk json world e) (habsolute : e.path.head? = some Path.slash)
    (hspares : Runs.Along (Visit.run json env) (fun world v => v.Spares json env e.key world) world
      visits)
    (hthere : ∀ v ∈ visits, (v.fs e.path).isSome) :
    Runs.Along (Visit.run json env) (fun world v => v.Keeps json env e world) world visits := by
  rw [along_keeps_iff hdisk hspares]
  intro v hv _
  rw [Visit.Finds, join_absolute habsolute]
  exact hthere v hv

/-! ## A relative path

`xylitol-cli library add a.apk` in `/home/u`, and a second process that adds a bundle. -/

def homeDir : Path := utf8Bytes "/home/u"
def rootDir : Path := utf8Bytes "/"
def relativePath : Path := utf8Bytes "a.apk"

/-- The two files, both where they have been all along. -/
def homeFiles : Path → Option Bytes := fun p =>
  if p = utf8Bytes "/home/u/a.apk" then some baseApk
  else if p = bundlePath then some armBundle
  else none

def relativeEntry : Entry := ⟨relativePath, baseInfo, none, "t1", false⟩

/-- Adding the APK to an empty library. -/
def relativeAdded : Outcome Index :=
  add plainJson smallEnv .none ∅ ⟨none, seenFrom homeDir homeFiles⟩ relativePath none false "t1"

def bundleVisit (cwd : Path) : Visit := ⟨cwd, homeFiles, .none, [⟨.none, homeFiles, addBundle⟩]⟩

theorem homeFiles_bundlePath : homeFiles bundlePath = some armBundle := by
  simp [homeFiles, bundlePath, utf8Bytes_inj]

theorem relativeAdded_eq : relativeAdded
    = ⟨.ok (.added relativeEntry), (∅ : Index).insert relativeEntry.key relativeEntry,
        ⟨some ((∅ : Index).insert relativeEntry.key relativeEntry), seenFrom homeDir homeFiles⟩⟩ := by
  have hjoin : Path.join homeDir relativePath = utf8Bytes "/home/u/a.apk" := by decide
  have hfile : seenFrom homeDir homeFiles relativePath = some baseApk := by
    rw [seenFrom, hjoin, homeFiles, if_pos rfl]
  have hpath : relativePath.isUtf8 := Path.isUtf8_utf8Bytes _
  rw [relativeAdded, add_plainJson utf8_empty hpath hfile inspect_baseApk relativeEntry rfl]

theorem relativeAdded_ok : relativeAdded.result = .ok (.added relativeEntry) := by
  rw [relativeAdded_eq]

/-- The bundle has a key of its own, and an absolute path. -/
theorem bundleVisit_spares (cwd : Path) :
    Runs.Along (Visit.run plainJson smallEnv)
      (fun world v => v.Spares plainJson smallEnv relativeEntry.key world) relativeAdded.world
      [bundleVisit cwd] := by
  refine ⟨?_, trivial⟩
  rintro index -
  refine ⟨?_, trivial⟩
  intro entry hentry
  have hfile : seenFrom cwd homeFiles bundlePath = bothFiles bundlePath := by
    rw [seenFrom, join_absolute (by decide), homeFiles_bundlePath, bothFiles_bundlePath]
  cases newEntry_bothFiles.symm.trans ((newEntry_congr hfile none false "t2").symm.trans hentry)
  decide

/-- The bundle can be added from everywhere. -/
theorem bundleAdded_isOk (cwd : Path) {index : Index} (h : Utf8 index) (world : World Index) :
    (Attempt.outcome plainJson smallEnv ⟨index, world⟩
      ⟨.none, seenFrom cwd homeFiles, addBundle⟩).result.isOk := by
  have hfile : seenFrom cwd homeFiles bundlePath = some armBundle := by
    rw [seenFrom, join_absolute (by decide), homeFiles_bundlePath]
  have hpath : bundlePath.isUtf8 := Path.isUtf8_utf8Bytes _
  rw [Attempt.outcome, Attempt.world, addBundle, Call.run,
    add_plainJson h hpath hfile inspect_armBundle bundleEntry rfl]
  rfl

/-- A process in the same directory keeps the entry. -/
theorem entry_kept_iff_home : Runs.Along (Visit.run plainJson smallEnv)
    (fun world v => v.Keeps plainJson smallEnv relativeEntry world) relativeAdded.world
    [bundleVisit homeDir] :=
  (entry_kept_iff relativeAdded_ok (bundleVisit_spares homeDir)).mpr (by
    simp only [List.forall_mem_singleton]
    decide)

/-- A process in another directory does not list it, and drops it from the index file when it adds
the bundle. -/
theorem entry_dropped_elsewhere :
    relativeAdded.result = .ok (.added relativeEntry) ∧
      Runs.Along (Visit.run plainJson smallEnv)
        (fun world v => v.Spares plainJson smallEnv relativeEntry.key world) relativeAdded.world
        [bundleVisit rootDir] ∧
      ((bundleVisit rootDir).fs (Path.join homeDir relativePath)).isSome ∧
      ¬ Runs.Along (Visit.run plainJson smallEnv)
        (fun world v => v.Keeps plainJson smallEnv relativeEntry world) relativeAdded.world
        [bundleVisit rootDir] ∧
      ¬ OnDisk plainJson (Runs.run (Visit.run plainJson smallEnv) relativeAdded.world
        [bundleVisit rootDir]) relativeEntry := by
  have hspares := bundleVisit_spares rootDir
  have hdisk : OnDisk plainJson relativeAdded.world relativeEntry := (add_onDisk relativeAdded_ok).2
  have hlost : ¬ (bundleVisit rootDir).Finds relativeEntry := by
    rw [Visit.Finds]
    decide
  refine ⟨relativeAdded_ok, hspares, by decide, ?_, ?_⟩
  · rw [along_keeps_iff hdisk hspares, List.forall_mem_singleton]
    intro hfinds
    exact hlost (hfinds rfl)
  · obtain ⟨index, hopen⟩ : ∃ index,
        (bundleVisit rootDir).opened plainJson relativeAdded.world = .ok index := ⟨_, rfl⟩
    have hrecorded : recorded plainJson ((bundleVisit rootDir).world relativeAdded.world)
        = (∅ : Index).insert relativeEntry.key relativeEntry := by
      rw [relativeAdded_eq]
      rfl
    have hpath : relativePath.isUtf8 := Path.isUtf8_utf8Bytes _
    have hutf8 : Utf8 (recorded plainJson ((bundleVisit rootDir).world relativeAdded.world)) := by
      rw [hrecorded]
      exact utf8_empty.insert _ _ hpath
    obtain ⟨hspare, -⟩ := hspares.1 index hopen
    have hok := bundleAdded_isOk rootDir (utf8_openAt hopen hutf8)
      ((bundleVisit rootDir).world relativeAdded.world)
    have hrun : Runs.Along (Attempt.step plainJson smallEnv)
        (Attempt.Succeeds plainJson smallEnv relativeEntry.key)
        ⟨index, (bundleVisit rootDir).world relativeAdded.world⟩ (bundleVisit rootDir).calls :=
      ⟨⟨hspare, hok⟩, trivial⟩
    rw [Runs.run_cons, Runs.run_nil]
    exact Visit.run_not_onDisk hdisk hopen hlost hrun List.mem_cons_self id

end Xylitol.Library
