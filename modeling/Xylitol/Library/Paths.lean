import Xylitol.Components
import Xylitol.Library.Invariant

/-!
# Paths in the library

An entry is identified by what is in its file, and removed from disk by where the file is. The two
identities come apart when a path is added again after its content has changed: the library then
holds two entries, under two keys, for one file, and removing one deletes the file of the other.

    add p ──▶ { k₁ ↦ p }      p gets other content      add p ──▶ { k₁ ↦ p, k₂ ↦ p }

The same happens with two paths for one file: `a.apk` and `./a.apk`, a relative path and an absolute
one, a link. A `Lookup` says which file a path leads to. Nothing but `add` brings a path into a map, so
`run_distinctPaths` holds of every run in which no path is added whose file the map already has under
another key.
-/

namespace Xylitol.Library

variable {H J N : Type} [DecidableEq H] {json : SerdeJson J} {env : Apk.Env}

/-! ## Paths that lead to one file -/

/-- How paths lead to files, and what `remove_file` does to what is found under them: the path is gone,
and a path that leads to another file does not notice. -/
structure Lookup (N : Type) where
  leads : Path → N
  removeFile : Path → (Path → Option Bytes) → Path → Option Bytes
  removeFile_self : ∀ p files, removeFile p files p = none
  removeFile_of_ne : ∀ {p q} files, leads q ≠ leads p → removeFile p files q = files q

/-- Every path leads to a file of its own. -/
def Lookup.byText : Lookup Path where
  leads := id
  removeFile p files := Function.update files p none
  removeFile_self _ _ := Function.update_self ..
  removeFile_of_ne _ hne := Function.update_of_ne hne ..

/-- The path whose file the call deletes, if it deletes one. -/
def Call.deletes (faults : Faults) (index : Index) : Call → Option Path
  | .add _ _ _ _ => none
  | .remove key deleteFile =>
    if deleteFile && !faults.removeFile then index[key]?.map (·.path) else none

/-- A call where several paths may lead to one file. -/
def Lookup.run (lookup : Lookup N) (json : SerdeJson J) (env : Apk.Env) (faults : Faults)
    (index : Index) (world : World J) (call : Call) : Outcome J :=
  let after := call.run json env faults index world
  match call.deletes faults index with
  | none => after
  | some path =>
    { after with world := { after.world with files := lookup.removeFile path world.files } }

def Lookup.outcome (lookup : Lookup N) (json : SerdeJson J) (env : Apk.Env) (s : System H J) (h : H)
    (faults : Faults) (call : Call) : Option (Outcome J) :=
  (s.handles h).map fun index => lookup.run json env faults index s.world call

def Lookup.step (lookup : Lookup N) (json : SerdeJson J) (env : Apk.Env) (s : System H J) :
    Step H → System H J
  | .call h faults call =>
    match lookup.outcome json env s h faults call with
    | some after => ⟨Function.update s.handles h (some after.index), after.world⟩
    | none => s
  | st => s.step json env st

section

variable (lookup : Lookup N) (faults : Faults) (index : Index) (world : World J) (call : Call)

/-- The files a call leaves are those it found, without the one it deletes. -/
theorem Call.run_files : (call.run json env faults index world).world.files =
    match call.deletes faults index with
    | none => world.files
    | some path => Function.update world.files path none := by
  cases call with
  | add path source verified now =>
      rcases add_cases json env faults index world path source verified now with
        ⟨e, -, hrun⟩ | ⟨entry, -, ⟨j, -, hrun⟩ | ⟨e, hrun⟩⟩
      all_goals rw [Call.run, hrun]; rfl
  | remove key deleteFile =>
      have hfiles : ∀ entry, index[key]? = some entry →
          (world.withoutFile entry (deleteFile && !faults.removeFile)).files =
            match Call.deletes faults index (.remove key deleteFile) with
            | none => world.files
            | some path => Function.update world.files path none := by
        intro entry hentry
        simp only [World.withoutFile, Call.deletes, hentry, Option.map_some]
        cases deleteFile && !faults.removeFile with
        | false => rfl
        | true => rfl
      rcases remove_cases json faults index world key deleteFile with
        ⟨hnone, hrun⟩ | ⟨entry, hentry, ⟨j, -, hrun⟩ | ⟨e, hrun⟩⟩
      all_goals rw [Call.run, hrun]
      · simp [Call.deletes, hnone]
      · exact hfiles entry hentry
      · exact hfiles entry hentry

/-- Where every path leads to a file of its own, this is the call as it was. -/
theorem Lookup.run_byText :
    Lookup.byText.run json env faults index world call = call.run json env faults index world := by
  have hfiles : (call.run json env faults index world).world.files = _ :=
    call.run_files faults index world
  unfold Lookup.run
  dsimp only
  split
  · rfl
  · next path hpath =>
      simp only [hpath] at hfiles
      rw [Lookup.byText]
      dsimp only
      rw [← hfiles]

/-- The lookup matters to the package files only. -/
theorem Lookup.run_index : (lookup.run json env faults index world call).index
      = (call.run json env faults index world).index ∧
    (lookup.run json env faults index world call).world.index
      = (call.run json env faults index world).world.index := by
  unfold Lookup.run
  dsimp only
  split <;> exact ⟨rfl, rfl⟩

end

/-- So do the steps of a system. -/
theorem Lookup.step_maps (lookup : Lookup N) (s : System H J) (st : Step H) :
    (lookup.step json env s st).handles = (s.step json env st).handles ∧
      (lookup.step json env s st).world.index = (s.step json env st).world.index := by
  cases st with
  | «open» | outside => exact ⟨rfl, rfl⟩
  | call h faults call =>
      simp only [Lookup.step, System.step, Lookup.outcome, System.outcome]
      cases s.handles h with
      | none => exact ⟨rfl, rfl⟩
      | some index =>
          have hsame : _ = (call.run json env faults index s.world).index ∧ _ :=
            lookup.run_index faults index s.world call
          obtain ⟨hindex, hfile⟩ := hsame
          simp only [Option.map_some, hindex, hfile, and_self]

theorem Lookup.step_byText (s : System H J) (st : Step H) :
    Lookup.byText.step json env s st = s.step json env st := by
  cases st with
  | «open» | outside => rfl
  | call h faults call =>
      cases hindex : s.handles h with
      | none => simp [Lookup.step, System.step, Lookup.outcome, System.outcome, hindex]
      | some index =>
          simp [Lookup.step, System.step, Lookup.outcome, System.outcome, hindex, Lookup.run_byText]

/-! ## Distinct files -/

/-- No two entries have the same path. -/
def DistinctPaths (index : Index) : Prop :=
  ∀ (k k' : String) (e e' : Entry), index[k]? = some e → index[k']? = some e' →
    e.path = e'.path → k = k'

/-- No two entries have paths that lead to the same file. -/
def DistinctFiles (lookup : Lookup N) (index : Index) : Prop :=
  ∀ (k k' : String) (e e' : Entry), index[k]? = some e → index[k']? = some e' →
    lookup.leads e.path = lookup.leads e'.path → k = k'

/-- The map has the file that the path leads to under no other key. -/
def FreeFor (lookup : Lookup N) (index : Index) (path : Path) (key : String) : Prop :=
  ∀ (k : String) (e : Entry), index[k]? = some e → lookup.leads e.path = lookup.leads path → k = key

/-- The step adds no path that leads to a file which its handle has listed under another key. -/
def FreshFile (lookup : Lookup N) (env : Apk.Env) (s : System H J) : Step H → Prop
  | .call h _ (.add path source verified now) => ∀ index entry, s.handles h = some index →
      newEntry env s.world path source verified now = .ok entry →
        FreeFor lookup index path entry.key
  | _ => True

variable {lookup : Lookup N}

theorem DistinctFiles.paths {index : Index} (h : DistinctFiles lookup index) :
    DistinctPaths index := by
  intro k k' e e' he he' hpath
  exact h k k' e e' he he' (congrArg lookup.leads hpath)

/-! ### What the operations on the map keep -/

theorem DistinctFiles.empty : DistinctFiles lookup ∅ := by
  intro k k' e e' he
  simp at he

theorem DistinctFiles.erase {index : Index} (h : DistinctFiles lookup index) (key : String) :
    DistinctFiles lookup (index.erase key) := by
  intro k k' e e' he he'
  rw [Std.ExtTreeMap.getElem?_erase] at he he'
  split at he
  · cases he
  split at he'
  · cases he'
  exact h k k' e e' he he'

theorem DistinctFiles.filter {index : Index} (h : DistinctFiles lookup index)
    (keep : String → Entry → Bool) : DistinctFiles lookup (index.filter keep) := by
  intro k k' e e' he he'
  rw [Std.ExtTreeMap.getElem?_filter, Option.pfilter_eq_some_iff] at he he'
  exact h k k' e e' he.1 he'.1

theorem DistinctFiles.insert {index : Index} (h : DistinctFiles lookup index) {entry : Entry}
    {key : String} (hfree : FreeFor lookup index entry.path key) :
    DistinctFiles lookup (index.insert key entry) := by
  intro k k' e e' he he' hfile
  rw [Std.ExtTreeMap.getElem?_insert] at he he'
  split at he <;> split at he'
  · next hk hk' => rw [← compare_eq_iff_eq.mp hk, ← compare_eq_iff_eq.mp hk']
  · next hk _ =>
      cases he
      rw [hfree k' e' he' hfile.symm, compare_eq_iff_eq.mp hk]
  · next _ hk' =>
      cases he'
      rw [hfree k e he hfile, compare_eq_iff_eq.mp hk']
  · exact h k k' e e' he he' hfile

theorem newEntry_path {world : World J} {path : Path} {source : Option Apkpure.Variant}
    {verified : Bool} {now : String} {entry : Entry}
    (h : newEntry env world path source verified now = .ok entry) : entry.path = path := by
  unfold newEntry at h
  cases hfile : world.files path with
  | none => simp [hfile] at h
  | some data =>
      simp only [hfile] at h
      obtain ⟨info, -, h⟩ := bind_eq_ok.mp h
      cases h
      rfl

/-! ### Every handle of every run -/

/-- The maps of all open handles and the map in the index file have distinct files. -/
structure System.DistinctFiles (lookup : Lookup N) (json : SerdeJson J) (s : System H J) : Prop where
  memory : ∀ h index, s.handles h = some index → Library.DistinctFiles lookup index
  file : ∀ j index, s.world.index = some j → json.fromSlice j = some index →
    Library.DistinctFiles lookup index

omit [DecidableEq H] in
theorem System.Fresh.distinctFiles (json : SerdeJson J) {s : System H J} (h : s.Fresh) :
    s.DistinctFiles lookup json := by
  obtain ⟨hmemory, hfile⟩ := h.maps json (Library.DistinctFiles lookup)
  exact ⟨hmemory, hfile⟩

theorem Call.distinctFiles_run {faults : Faults} {index : Index} {world : World J} {call : Call}
    (h : DistinctFiles lookup index)
    (hfree : ∀ path source verified now entry, call = .add path source verified now →
      newEntry env world path source verified now = .ok entry →
        FreeFor lookup index path entry.key) :
    DistinctFiles lookup (call.run json env faults index world).index := by
  apply Call.run_maps h
  intro index' world' reply hedit
  cases hedit with
  | add hentry =>
      have hpath := newEntry_path hentry
      exact h.insert (hpath ▸ hfree _ _ _ _ _ rfl hentry)
  | remove _ => exact h.erase _

theorem step_distinctFiles {s : System H J} {st : Step H} (hs : s.DistinctFiles lookup json)
    (hfresh : FreshFile lookup env s st) :
    (lookup.step json env s st).DistinctFiles lookup json := by
  have hcall : ∀ h faults call index, st = .call h faults call → s.handles h = some index →
      DistinctFiles lookup (call.run json env faults index s.world).index := by
    intro h faults call index hst hindex
    apply Call.distinctFiles_run (hs.memory h index hindex)
    rintro path source verified now entry rfl hentry
    subst hst
    exact hfresh index entry hindex hentry
  obtain ⟨hmemory, hfile⟩ := System.step_maps hs.memory hs.file
    (fun _ _ => openAt_maps .empty .filter hs.file) hcall
  constructor
  · rw [(lookup.step_maps s st).1]
    exact hmemory
  · rw [(lookup.step_maps s st).2]
    exact hfile

/-- A removal takes the file of the entry it removes, and no file of an entry that stays. -/
theorem remove_files {faults : Faults} {index : Index} {world : World J} {key : String}
    {deleteFile : Bool} (hfiles : DistinctFiles lookup index) {k : String} {e : Entry}
    (he : (lookup.run json env faults index world (.remove key deleteFile)).index[k]? = some e) :
    (lookup.run json env faults index world (.remove key deleteFile)).world.files e.path
      = world.files e.path := by
  rw [(lookup.run_index faults index world _).1] at he
  have hsame : (Call.run json env faults index world (.remove key deleteFile)).world.files = _ :=
    Call.run_files faults index world (.remove key deleteFile)
  unfold Lookup.run
  dsimp only
  split
  · next hnone =>
      rw [hnone] at hsame
      exact congrFun hsame e.path
  · next path hpath =>
      -- the entry that goes is under the key, the one that stays under another
      obtain ⟨entry, hentry, rfl⟩ : ∃ entry, index[key]? = some entry ∧ entry.path = path := by
        simp only [Call.deletes] at hpath
        split at hpath
        · exact Option.map_eq_some_iff.mp hpath
        · cases hpath
      obtain ⟨hne, hstays⟩ : key ≠ k ∧ index[k]? = some e := by
        rcases remove_cases json faults index world key deleteFile with
          ⟨hnone, -⟩ | ⟨_, -, ⟨_, -, hrun⟩ | ⟨_, hrun⟩⟩
        · rw [hnone] at hentry
          cases hentry
        all_goals
          rw [Call.run, hrun, Std.ExtTreeMap.getElem?_erase] at he
          split at he
          · cases he
          · next hne => exact ⟨fun h => hne (compare_eq_iff_eq.mpr h), he⟩
      apply lookup.removeFile_of_ne
      intro hleads
      exact hne (hfiles k key e entry hstays hentry hleads).symm

/-- As long as no path is added whose file is listed under another key, no two entries of a library
have one path, nor two paths that lead to one file, and deleting the file of a removed entry leaves
every listed file as it was. -/
theorem run_distinctPaths {start : System H J} {steps : List (Step H)} {h : H} {index : Index}
    (hfresh : start.Fresh)
    (hsteps : Runs.Along (lookup.step json env) (FreshFile lookup env) start steps)
    (hindex : (Runs.run (lookup.step json env) start steps).handles h = some index) :
    DistinctPaths index ∧ DistinctFiles lookup index ∧ ∀ faults key deleteFile after,
      lookup.outcome json env (Runs.run (lookup.step json env) start steps) h faults
          (.remove key deleteFile) = some after →
        ∀ (k : String) (e : Entry), after.index[k]? = some e → after.world.files e.path
          = (Runs.run (lookup.step json env) start steps).world.files e.path := by
  have hrun : (Runs.run (lookup.step json env) start steps).DistinctFiles lookup json :=
    Runs.invariant_run (fun _ _ => step_distinctFiles) (hfresh.distinctFiles json) hsteps
  have hfiles := hrun.memory h index hindex
  refine ⟨hfiles.paths, hfiles, ?_⟩
  intro faults key deleteFile after hafter k e he
  rw [Lookup.outcome, hindex, Option.map_some, Option.some.injEq] at hafter
  subst hafter
  exact remove_files hfiles he

/-! ## A process in its directory

Where there are no links a path leads where its names say. The bundle is added under its absolute
path, the APK under one that starts from the directory of the process. -/

/-- One component further, down or up. -/
def placeFrom (place : List Bytes) : Path.Component → List Bytes
  | .rootDir => []
  | .curDir => place
  | .parentDir => place.dropLast
  | .normal name => place ++ [name]

/-- Where a path leads a process in `cwd`. -/
def placeOf (cwd path : Path) : List Bytes := (Path.join cwd path).components.foldl placeFrom []

def Lookup.byNames (cwd : Path) : Lookup (List Bytes) where
  leads := placeOf cwd
  removeFile p files q := if placeOf cwd q = placeOf cwd p then none else files q
  removeFile_self _ _ := if_pos rfl
  removeFile_of_ne _ hne := if_neg hne

def packageDir : Path := utf8Bytes "/p"
def dottedPath : Path := utf8Bytes "./a.apk"

/-- The bundle and the APK in one directory, under all their paths. -/
def placedFiles : Path → Option Bytes := fun p =>
  if placeOf packageDir p = placeOf packageDir armPath then some armBundle
  else if placeOf packageDir p = placeOf packageDir dottedPath then some baseApk
  else none

/-- Nothing is open there and no library yet. -/
def bothPlaced : System Unit Index := ⟨fun _ => none, ⟨none, placedFiles⟩⟩

def dottedEntry : Entry := ⟨dottedPath, baseInfo, none, "t2", false⟩

def bothAdded : List (Step Unit) :=
  [.open () .none, .call () .none (.add armPath none false "t1"),
    .call () .none (.add dottedPath none false "t2")]

def armOnly : Index := (∅ : Index).insert armEntry.key armEntry

/-- A library with the bundle in it, as a process in the directory has it. -/
def armPlaced : System Unit Index := ⟨fun _ => some armOnly, ⟨some armOnly, placedFiles⟩⟩

def bothListed : Index := armOnly.insert dottedEntry.key dottedEntry

theorem placedFiles_armPath : placedFiles armPath = some armBundle := if_pos rfl

theorem placeOf_ne : placeOf packageDir dottedPath ≠ placeOf packageDir armPath := by decide

theorem placedFiles_dottedPath : placedFiles dottedPath = some baseApk := by
  rw [placedFiles, if_neg placeOf_ne, if_pos rfl]

abbrev placed : Lookup (List Bytes) := .byNames packageDir

theorem step_addArm : (placed.step plainJson smallEnv (placed.step plainJson smallEnv bothPlaced
    (.open () .none)) (.call () .none (.add armPath none false "t1"))) = armPlaced := by
  have hopened : placed.step plainJson smallEnv bothPlaced (.open () .none)
      = ⟨fun _ => some ∅, bothPlaced.world⟩ := rfl
  have hpath : armPath.isUtf8 := Path.isUtf8_utf8Bytes _
  have hadd := add_plainJson utf8_empty hpath
    (show bothPlaced.world.files armPath = some armBundle from placedFiles_armPath)
    inspect_armBundle armEntry rfl
  rw [hopened]
  simp only [Lookup.step, Lookup.outcome, Option.map_some, Lookup.run, Call.deletes, Call.run, hadd]
  rfl

theorem step_addDotted : placed.step plainJson smallEnv armPlaced
    (.call () .none (.add dottedPath none false "t2"))
      = ⟨fun _ => some bothListed, ⟨some bothListed, placedFiles⟩⟩ := by
  have hpath : dottedPath.isUtf8 := Path.isUtf8_utf8Bytes _
  have hadd : add plainJson smallEnv .none armOnly ⟨some armOnly, placedFiles⟩ dottedPath none false
      "t2" = ⟨.ok (.added dottedEntry), bothListed, ⟨some bothListed, placedFiles⟩⟩ :=
    add_plainJson utf8_armEntry hpath placedFiles_dottedPath inspect_baseApk dottedEntry rfl
  simp only [Lookup.step, Lookup.outcome, armPlaced, Option.map_some, Lookup.run, Call.deletes,
    Call.run, hadd]
  rfl

theorem run_bothAdded : Runs.run (placed.step plainJson smallEnv) bothPlaced bothAdded
    = ⟨fun _ => some bothListed, ⟨some bothListed, placedFiles⟩⟩ := by
  rw [bothAdded, Runs.run_cons, Runs.run_cons, step_addArm, Runs.run_cons, step_addDotted,
    Runs.run_nil]

/-- The APK is no file that is listed already. -/
theorem bothAdded_fresh :
    Runs.Along (placed.step plainJson smallEnv) (FreshFile placed smallEnv) bothPlaced bothAdded := by
  refine ⟨trivial, ?_, ?_, trivial⟩
  · rintro index entry hindex - k e he
    cases hindex
    simp [bothPlaced] at he
  · rw [step_addArm]
    rintro index entry hindex - k e he hleads
    cases hindex
    rw [armOnly, Std.ExtTreeMap.getElem?_insert] at he
    split at he
    · cases he
      exact absurd hleads.symm placeOf_ne
    · simp at he

/-- The APK is removed with its file; the bundle is listed and its file is there. -/
theorem run_distinctPaths_bothAdded : ∃ index after,
    (Runs.run (placed.step plainJson smallEnv) bothPlaced bothAdded).handles () = some index ∧
    DistinctPaths index ∧ DistinctFiles placed index ∧
    placed.outcome plainJson smallEnv (Runs.run (placed.step plainJson smallEnv) bothPlaced bothAdded)
      () .none (.remove dottedEntry.key true) = some after ∧
    after.result = .ok (.removed true) ∧ after.world.files dottedPath = none ∧
    after.index[armEntry.key]? = some armEntry ∧ after.world.files armPath = some armBundle := by
  have hindex : (Runs.run (placed.step plainJson smallEnv) bothPlaced bothAdded).handles ()
      = some bothListed := by
    rw [run_bothAdded]
  obtain ⟨hpaths, hfiles, hremove⟩ :=
    run_distinctPaths (⟨fun _ => rfl, rfl⟩ : bothPlaced.Fresh) bothAdded_fresh hindex
  have houtcome : placed.outcome plainJson smallEnv
      (Runs.run (placed.step plainJson smallEnv) bothPlaced bothAdded) () .none
      (.remove dottedEntry.key true) = some (placed.run plainJson smallEnv .none bothListed
        ⟨some bothListed, placedFiles⟩ (.remove dottedEntry.key true)) := by
    rw [run_bothAdded]
    rfl
  have harm : (placed.run plainJson smallEnv .none bothListed ⟨some bothListed, placedFiles⟩
      (.remove dottedEntry.key true)).index[armEntry.key]? = some armEntry := by
    decide +kernel
  refine ⟨_, _, hindex, hpaths, hfiles, houtcome, by decide +kernel, ?_, harm, ?_⟩
  · decide +kernel
  · rw [← placedFiles_armPath]
    have hkept := hremove _ _ _ _ houtcome _ _ harm
    rw [run_bothAdded] at hkept
    exact hkept

/-! ## A download that overwrites another

The bundle is added; then the APK is saved under the same name, and added too. -/

/-- The APK in the bundle's place. -/
def overwritten : Path → Option Bytes := fun p => if p = armPath then some baseApk else none

def addedTwice : List (Step Unit) :=
  armAdded ++ [.outside overwritten, .call () .none (.add armPath none false "t2")]

def baseEntry : Entry := ⟨armPath, baseInfo, none, "t2", false⟩

/-- The bundle and the APK, both at the path of the bundle. -/
def bothEntries : Index :=
  ((∅ : Index).insert armEntry.key armEntry).insert baseEntry.key baseEntry

theorem run_addedTwice : twoBundles.run plainJson smallEnv addedTwice
    = ⟨fun _ => some bothEntries, ⟨some bothEntries, overwritten⟩⟩ := by
  have hpath : armPath.isUtf8 := Path.isUtf8_utf8Bytes _
  have hfile : overwritten armPath = some baseApk := by simp [overwritten]
  have houtside : (twoBundles.run plainJson smallEnv armAdded).step plainJson smallEnv
      (.outside overwritten) = ⟨fun _ => some ((∅ : Index).insert armEntry.key armEntry),
        ⟨some ((∅ : Index).insert armEntry.key armEntry), overwritten⟩⟩ := by
    rw [run_armAdded]
    rfl
  rw [addedTwice, System.run_append, System.run_cons, System.run_cons, System.run_nil, houtside,
    System.step_call_open rfl, Call.run,
    add_plainJson utf8_armEntry hpath hfile inspect_baseApk baseEntry rfl]
  congr 1

/-- Two entries for one path; removing one deletes the file of the other. -/
theorem shared_path_deleted :
    (((twoBundles.run plainJson smallEnv addedTwice).handles ()).map fun index =>
      (index[("a.b@-1#bundle" : String)]?.map (·.path),
        index[("a.b@-1#base" : String)]?.map (·.path))) = some (some armPath, some armPath) ∧
    ((twoBundles.run plainJson smallEnv addedTwice).outcome plainJson smallEnv () .none
      (.remove "a.b@-1#bundle" true)).map (fun after =>
        (after.result, after.index[("a.b@-1#base" : String)]?.map (·.path),
          after.world.files armPath))
      = some (.ok (.removed true), some armPath, none) ∧
    ¬ ∀ index, (twoBundles.run plainJson smallEnv addedTwice).handles () = some index →
      DistinctPaths index := by
  have hboth : (((twoBundles.run plainJson smallEnv addedTwice).handles ()).map fun index =>
      (index[("a.b@-1#bundle" : String)]?.map (·.path),
        index[("a.b@-1#base" : String)]?.map (·.path))) = some (some armPath, some armPath) := by
    rw [run_addedTwice]
    decide
  refine ⟨hboth, ?_, ?_⟩
  · rw [run_addedTwice]
    decide +kernel
  intro hall
  obtain ⟨index, hindex, hpaths⟩ := Option.map_eq_some_iff.mp hboth
  obtain ⟨hbundle, hbase⟩ := Prod.mk.inj hpaths
  obtain ⟨e, he, hpath⟩ := Option.map_eq_some_iff.mp hbundle
  obtain ⟨e', he', hpath'⟩ := Option.map_eq_some_iff.mp hbase
  have heq := hall index hindex _ _ e e' he he' (hpath.trans hpath'.symm)
  exact absurd heq (by decide)

end Xylitol.Library
