import Xylitol.Disk
import Xylitol.Library.Model
import Xylitol.Runs
import Xylitol.Sharing

/-!
# Saving the index, step by step

`save` writes the JSON of the map to a temporary file and renames that over the index file, so that
the index file is never half written. The temporary file has one name for all who save:

    A: create ─ write … ─────────── rename             index file: empty
    B: ──────────────────── create

A save holds the temporary file from the moment it opens it until it has renamed it, has failed or is
gone. As long as no save opens it while another one holds it, the index file is always the whole JSON
of some map: `index_never_torn`. The two saves above are `index_torn`.
-/

namespace Xylitol.Library

variable {I : Type} [DecidableEq I] {toVec : Index → Option Bytes} {path : Path}
  {held : Set Index}

/-! ## One save -/

/-- Where a call of `save` is, named after what it does next. -/
inductive Saver where
  | createDir (index : Index)
  | create (json : Bytes)
  | write (file : Handle) (rest : Bytes)
  | rename
  | done (result : Except Error Unit)
  | crashed

/-- What the outside does in a step: the file system call succeeds, a write with at most `size`
bytes; or it fails; or the process is gone. -/
inductive Turn where
  | goOn (size : Nat)
  | fault
  | crash
  deriving DecidableEq, Repr

/-- `self.index_path.with_extension("json.tmp")`. -/
def tmpPath (path : Path) : Path := path.withExtension (utf8Bytes "json.tmp")

namespace Saver

/-- `write_all` returns when nothing is left to write. -/
def writeAll (file : Handle) (rest : Bytes) : Saver :=
  if rest = [] then rename else write file rest

/-- The next step, when nothing goes wrong. -/
def goOn (toVec : Index → Option Bytes) (path : Path) (size : Nat) (disk : Disk Path) :
    Saver → Saver × Disk Path
  | createDir index =>
    match toVec index with
    | none => (done (.error .serialize), disk)
    | some json => (create json, disk)
  | create json =>
    let (disk, file) := disk.create (tmpPath path)
    (writeAll file json, disk)
  | write file rest =>
    let (disk, file) := disk.write file (rest.take (max 1 size))
    (writeAll file (rest.drop (max 1 size)), disk)
  | rename =>
    match disk.rename (tmpPath path) path with
    | some disk => (done (.ok ()), disk)
    | none => (done (.error .rename), disk)
  | done result => (done result, disk)
  | crashed => (crashed, disk)

/-- Where a save is when the call it makes has failed. -/
def fail : Saver → Saver
  | createDir _ => done (.error .createDir)
  | create _ => done (.error .write)
  | write _ _ => done (.error .write)
  | rename => done (.error .rename)
  | done result => done result
  | crashed => crashed

/-- A save that has returned does not notice that its process is gone. -/
def crash : Saver → Saver
  | done result => done result
  | _ => crashed

/-- One step of a save. -/
def step (toVec : Index → Option Bytes) (path : Path) (turn : Turn) (saver : Saver)
    (disk : Disk Path) : Saver × Disk Path :=
  match turn with
  | .goOn size => saver.goOn toVec path size disk
  | .fault => (saver.fail, disk)
  | .crash => (saver.crash, disk)

/-- The save has opened the temporary file and not renamed it yet. -/
def holds : Saver → Bool
  | write .. | rename => true
  | createDir _ | create _ | done _ | crashed => false

/-- The next step opens the temporary file. -/
def opens : Saver → Turn → Bool
  | create _, .goOn _ => true
  | _, _ => false

end Saver

/-! ## Any number of saves -/

/-- Any number of saves of one index file, and the disk. -/
structure Savers (I : Type) where
  calls : I → Saver
  disk : Disk Path

/-- One save takes one step. -/
def Savers.step (toVec : Index → Option Bytes) (path : Path) (s : Savers I) (e : I × Turn) :
    Savers I where
  calls := Function.update s.calls e.1 ((s.calls e.1).step toVec path e.2 s.disk).1
  disk := ((s.calls e.1).step toVec path e.2 s.disk).2

/-- Nobody opens the temporary file while another save holds it. -/
def InTurn (s : Savers I) (e : I × Turn) : Prop :=
  (s.calls e.1).opens e.2 → ∀ j, j ≠ e.1 → ¬ (s.calls j).holds

/-- The index file is absent, which it is only until the first save has renamed its file, or the
whole JSON of a map that some handle held. -/
structure NeverTorn (toVec : Index → Option Bytes) (path : Path) (held : Set Index)
    (s : Savers I) : Prop where
  whole : ∀ bytes, s.disk.read path = some bytes → ∃ index ∈ held, toVec index = some bytes
  present : ∀ i, s.calls i = .done (.ok ()) → (s.disk.read path).isSome

instance [Fintype I] (s : Savers I) (e : I × Turn) : Decidable (InTurn s e) :=
  inferInstanceAs (Decidable (_ → _))

/-! ## One step -/

/-- The JSON of a map that some handle held. -/
def WholeJson (toVec : Index → Option Bytes) (held : Set Index) (bytes : Bytes) : Prop :=
  ∃ index ∈ held, toVec index = some bytes

theorem path_ne_tmpPath (path : Path) : path ≠ tmpPath path :=
  (Path.withExtension_ne (by decide)).symm

/-- What a save counts on: its map is one that some handle held, and what it has written so far is
what the temporary file holds. -/
def Saver.Sound (toVec : Index → Option Bytes) (path : Path) (held : Set Index) (saver : Saver)
    (disk : Disk Path) : Prop :=
  match saver with
  | createDir index => index ∈ held
  | create json => WholeJson toVec held json
  | write file rest => ∃ written, disk.Opened (tmpPath path) file written ∧
      WholeJson toVec held (written ++ rest)
  | rename => ∃ json, disk.read (tmpPath path) = some json ∧ WholeJson toVec held json
  | done _ => True
  | crashed => True

/-- Everything a step can do to a save and to the disk. -/
inductive Saver.Move (toVec : Index → Option Bytes) (path : Path) (disk : Disk Path) :
    Turn → Saver → Saver → Disk Path → Prop where
  | failed {turn saver e} : Move toVec path disk turn saver (.done (.error e)) disk
  | gone {turn saver} : Move toVec path disk turn saver .crashed disk
  | serialized {turn index json} (hjson : toVec index = some json) :
      Move toVec path disk turn (.createDir index) (.create json) disk
  | created {size json} :
      Move toVec path disk (.goOn size) (.create json)
        (writeAll (disk.create (tmpPath path)).2 json) (disk.create (tmpPath path)).1
  | wrote {turn file rest n} :
      Move toVec path disk turn (.write file rest)
        (writeAll (disk.write file (rest.take n)).2 (rest.drop n))
        (disk.write file (rest.take n)).1
  | renamed {turn after} (hrename : disk.rename (tmpPath path) path = some after) :
      Move toVec path disk turn .rename (.done (.ok ())) after
  | rest {turn result} : Move toVec path disk turn (.done result) (.done result) disk

theorem Saver.step_moves (toVec : Index → Option Bytes) (path : Path) (turn : Turn) (saver : Saver)
    (disk : Disk Path) :
    Move toVec path disk turn saver (saver.step toVec path turn disk).1
      (saver.step toVec path turn disk).2 := by
  cases turn with
  | goOn size =>
      cases saver with
      | createDir index =>
          unfold step goOn
          dsimp only
          split
          · exact Move.failed
          · next json hjson => exact Move.serialized hjson
      | create json => exact Move.created
      | write file rest => exact Move.wrote
      | rename =>
          unfold step goOn
          dsimp only
          split
          · next after hrename => exact Move.renamed hrename
          · exact Move.failed
      | done result => exact Move.rest
      | crashed => exact Move.gone
  | fault =>
      cases saver with
      | createDir | create | write | rename => exact Move.failed
      | done => exact Move.rest
      | crashed => exact Move.gone
  | crash =>
      cases saver with
      | createDir | create | write | rename | crashed => exact Move.gone
      | done => exact Move.rest

variable {saver saver' : Saver} {turn : Turn} {disk disk' : Disk Path}

/-- Only a save that holds the temporary file counts on the disk. -/
theorem Saver.sound_of_not_holds (hholds : ¬ saver.holds) (h : saver.Sound toVec path held disk) :
    saver.Sound toVec path held disk' := by
  cases saver with
  | write | rename => simp [holds] at hholds
  | createDir | create | done | crashed => exact h

theorem Saver.sound_writeAll {file : Handle} {written rest : Bytes}
    (hopen : disk.Opened (tmpPath path) file written)
    (hwhole : WholeJson toVec held (written ++ rest)) :
    (writeAll file rest).Sound toVec path held disk := by
  unfold writeAll
  split
  · next hnil =>
      rw [hnil, List.append_nil] at hwhole
      exact ⟨written, hopen.read, hwhole⟩
  · exact ⟨written, hopen, hwhole⟩

theorem Saver.writeAll_ne_done {file : Handle} {rest : Bytes} {result : Except Error Unit} :
    writeAll file rest ≠ done result := by
  unfold writeAll
  split <;> nofun

theorem Saver.sound_of_move (h : saver.Sound toVec path held disk)
    (hmove : Move toVec path disk turn saver saver' disk') :
    saver'.Sound toVec path held disk' := by
  cases hmove with
  | failed | gone | renamed | rest => trivial
  | serialized hjson => exact ⟨_, h, hjson⟩
  | created => exact sound_writeAll Disk.opened_create h
  | @wrote turn file rest n =>
      obtain ⟨written, hopen, hwhole⟩ := h
      apply sound_writeAll (hopen.write _)
      rw [List.append_assoc, List.take_append_drop]
      exact hwhole

/-- A save holds the file only because it did so before or has just opened it. -/
theorem Saver.holds_of_move (hmove : Move toVec path disk turn saver saver' disk')
    (h : saver'.holds) : saver.holds ∨ saver.opens turn := by
  cases hmove with
  | created => exact Or.inr rfl
  | wrote => exact Or.inl rfl
  | failed | gone | serialized | renamed | rest => cases h

/-- A save that neither holds the file nor opens it leaves the disk as it is. -/
theorem Saver.disk_of_move (hmove : Move toVec path disk turn saver saver' disk')
    (hholds : ¬ saver.holds) (hopens : ¬ saver.opens turn) : disk' = disk := by
  cases hmove with
  | created => simp [opens] at hopens
  | wrote | renamed => simp [holds] at hholds
  | failed | gone | serialized | rest => rfl

/-- A step leaves the index file alone, or puts the whole JSON of a map there. -/
theorem Saver.index_of_move (h : saver.Sound toVec path held disk)
    (hmove : Move toVec path disk turn saver saver' disk') :
    (disk'.read path = disk.read path ∧ (saver' = done (.ok ()) → saver = done (.ok ()))) ∨
      ∃ json, WholeJson toVec held json ∧ disk'.read path = some json := by
  cases hmove with
  | failed | gone | serialized => exact Or.inl ⟨rfl, nofun⟩
  | created =>
      apply Or.inl
      exact ⟨Disk.read_create_of_ne (path_ne_tmpPath path), fun h => absurd h writeAll_ne_done⟩
  | wrote =>
      obtain ⟨written, hopen, -⟩ := h
      apply Or.inl
      exact ⟨hopen.read_write_of_ne _ (path_ne_tmpPath path), fun h => absurd h writeAll_ne_done⟩
  | renamed hrename =>
      obtain ⟨json, hread, hwhole⟩ := h
      obtain ⟨hnew, -, -⟩ := Disk.rename_eq_some hrename (path_ne_tmpPath path).symm
      exact Or.inr ⟨json, hwhole, hnew.trans hread⟩
  | rest => exact Or.inl ⟨rfl, id⟩

/-! ## Runs -/

/-- The invariant of a run. -/
structure Savers.Inv (toVec : Index → Option Bytes) (path : Path) (held : Set Index)
    (s : Savers I) : Prop where
  sole : Sharing.Sole (fun saver : Saver => saver.holds = true)
    (fun saver disk => saver.Sound toVec path held disk) s.calls s.disk
  neverTorn : NeverTorn toVec path held s

omit [DecidableEq I] in
theorem Savers.inv_start {s : Savers I}
    (hstart : ∀ i, ∃ index ∈ held, s.calls i = .createDir index)
    (hfile : ∀ bytes, s.disk.read path = some bytes → WholeJson toVec held bytes) :
    s.Inv toVec path held := by
  refine ⟨Sharing.Sole.of_idle ?_ ?_, hfile, ?_⟩
  · intro i
    obtain ⟨index, -, hi⟩ := hstart i
    simp [hi, Saver.holds]
  · intro i
    obtain ⟨index, hindex, hi⟩ := hstart i
    rw [hi]
    exact hindex
  · intro i hdone
    obtain ⟨index, -, hi⟩ := hstart i
    rw [hi] at hdone
    cases hdone

/-- One step of the system, as the index file shows it. -/
theorem Savers.step_index {s : Savers I} {e : I × Turn}
    (h : (s.calls e.1).Sound toVec path held s.disk) :
    ((s.step toVec path e).disk.read path = s.disk.read path ∧
      ∀ i, (s.step toVec path e).calls i = .done (.ok ()) → s.calls i = .done (.ok ())) ∨
    ∃ json, WholeJson toVec held json ∧ (s.step toVec path e).disk.read path = some json := by
  have hself : (s.step toVec path e).calls e.1
      = ((s.calls e.1).step toVec path e.2 s.disk).1 := Function.update_self ..
  have hother : ∀ i, i ≠ e.1 → (s.step toVec path e).calls i = s.calls i :=
    fun i hi => Function.update_of_ne hi _ _
  have hmove := Saver.step_moves toVec path e.2 (s.calls e.1) s.disk
  rcases Saver.index_of_move h hmove with ⟨hsame, hdone⟩ | hnew
  · refine Or.inl ⟨hsame, ?_⟩
    intro i hi
    by_cases hie : i = e.1
    · subst hie
      exact hdone (hself.symm.trans hi)
    · exact (hother i hie).symm.trans hi
  · exact Or.inr hnew

theorem Savers.neverTorn_step {s : Savers I} (hinv : s.Inv toVec path held) (e : I × Turn) :
    NeverTorn toVec path held (s.step toVec path e) := by
  have hindex := step_index (e := e) (hinv.sole.knows e.1)
  rcases hindex with ⟨hsame, hdone⟩ | ⟨json, hwhole, hread⟩
  · constructor
    · intro bytes hbytes
      rw [hsame] at hbytes
      exact hinv.neverTorn.whole bytes hbytes
    · intro i hi
      rw [hsame]
      exact hinv.neverTorn.present i (hdone i hi)
  · constructor
    · intro bytes hbytes
      rw [hread, Option.some.injEq] at hbytes
      exact hbytes ▸ hwhole
    · intro i hi
      rw [hread]
      rfl

theorem Savers.inv_step {s : Savers I} {e : I × Turn} (hinv : s.Inv toVec path held)
    (hturn : InTurn s e) : (s.step toVec path e).Inv toVec path held := by
  have hmove := Saver.step_moves toVec path e.2 (s.calls e.1) s.disk
  refine ⟨?_, neverTorn_step hinv e⟩
  exact hinv.sole.update (fun _ => Saver.sound_of_not_holds)
    (Saver.sound_of_move (hinv.sole.knows e.1) hmove) (Saver.holds_of_move hmove)
    (Saver.disk_of_move hmove) hturn

/-- The index file and the package files, as the model in which a save is one step has them. -/
def Savers.world (path : Path) (files : Path → Option Bytes) (s : Savers I) : World Bytes :=
  ⟨s.disk.read path, files⟩

/-- Saves that take turns refine the save that is one step: nothing is seen of them but the moment
of the rename. -/
theorem Savers.step_refines_save {json : SerdeJson Bytes} {files : Path → Option Bytes}
    {s : Savers I} (hinv : s.Inv json.toVecPretty path held) (e : I × Turn) :
    (s.step json.toVecPretty path e).world path files = s.world path files ∨
    ∃ index ∈ held, save json .none index (s.world path files)
      = (.ok (), (s.step json.toVecPretty path e).world path files) := by
  have hindex := step_index (e := e) (hinv.sole.knows e.1)
  rcases hindex with ⟨hsame, -⟩ | ⟨bytes, ⟨index, hheld, hjson⟩, hread⟩
  · apply Or.inl
    unfold world
    rw [hsame]
  · refine Or.inr ⟨index, hheld, ?_⟩
    simp [save, world, Faults.none, hjson, hread]

/-- Any number of saves, in any order, with crashes anywhere: while nobody opens the temporary file
that another save holds, the index file is the whole JSON of a map that some handle held. -/
theorem index_never_torn {s : Savers I} {events : List (I × Turn)}
    (hstart : ∀ i, ∃ index ∈ held, s.calls i = .createDir index)
    (hfile : ∀ bytes, s.disk.read path = some bytes → ∃ index ∈ held, toVec index = some bytes)
    (hturn : Runs.Along (Savers.step toVec path) InTurn s events) :
    NeverTorn toVec path held (Runs.run (Savers.step toVec path) s events) :=
  (Runs.invariant_run (fun _ _ => Savers.inv_step) (Savers.inv_start hstart hfile) hturn).neverTorn

/-! ## Two saves of the empty map -/

def indexPath : Path := utf8Bytes "/l/index.json"

/-- The JSON of the empty map; other maps are not saved here. -/
def emptyJson (index : Index) : Option Bytes :=
  if index.isEmpty then some (utf8Bytes "\x7b\n  \"entries\": \x7b\x7d\n\x7d") else none

def twoSaves : Savers Bool := ⟨fun _ => .createDir ∅, .empty Path⟩

/-- A save up to and including its last write. -/
def writes (i : Bool) : List (Bool × Turn) := [(i, .goOn 0), (i, .goOn 0), (i, .goOn 64)]

/-- The first save has written its JSON when the second one opens the temporary file. -/
def overtaken : List (Bool × Turn) :=
  writes true ++ [(false, .goOn 0), (false, .goOn 0), (true, .goOn 0)]

/-- What the first save renames is the file the second one has just emptied. -/
theorem index_torn :
    (Runs.run (Savers.step emptyJson indexPath) twoSaves overtaken).disk.read indexPath = some [] ∧
      ¬ NeverTorn emptyJson indexPath {∅}
        (Runs.run (Savers.step emptyJson indexPath) twoSaves overtaken) := by
  have hread : (Runs.run (Savers.step emptyJson indexPath) twoSaves overtaken).disk.read indexPath
      = some [] := by
    decide
  refine ⟨hread, ?_⟩
  intro h
  obtain ⟨index, hindex, hjson⟩ := h.whole [] hread
  cases hindex
  exact absurd hjson (by decide)

/-! ## Saves of two maps -/

def savedEntry : Entry := ⟨utf8Bytes "/p/a.apk", baseInfo, none, "t1", false⟩

def savedMap : Index := (∅ : Index).insert savedEntry.key savedEntry

/-- Its JSON, line by line. -/
def savedLines : List String :=
  ["\x7b\n", "  \"entries\": \x7b\n", "    \"a.b@-1#base\": \x7b\n",
    "      \"path\": \"/p/a.apk\",\n",
    "      \"info\": \x7b\n", "        \"kind\": \"apk\",\n", "        \"package\": \"a.b\",\n",
    "        \"version_name\": null,\n", "        \"version_code\": null,\n",
    "        \"label\": null,\n", "        \"min_sdk\": 23,\n", "        \"target_sdk\": null,\n",
    "        \"split\": null,\n", "        \"abis\": [],\n", "        \"permissions\": [],\n",
    "        \"launchable_activities\": [],\n", "        \"contained_apks\": [],\n",
    "        \"file_size\": 417,\n", "        \"sha256\": \"814f76f86d45c5426e2d22a098f8d37e",
    "771e256ec6302665230b1d1ff08a78b0\"\n", "      \x7d,\n", "      \"source\": null,\n",
    "      \"added\": \"t1\",\n", "      \"verified\": false\n", "    \x7d\n", "  \x7d\n", "\x7d"]

def savedBytes : Bytes := savedLines.flatMap utf8Bytes

/-- The JSON of these two maps; others are not saved here. -/
def plainVec (index : Index) : Option Bytes :=
  if index.size = 1 ∧ index[savedEntry.key]? = some savedEntry then some savedBytes
  else emptyJson index

/-- Two saves of the empty map, and one of the other between them. -/
def threeSaves : Savers (Fin 3) :=
  ⟨fun i => .createDir (if i = 1 then savedMap else ∅), .empty Path⟩

/-- The first save is gone after four bytes. The second one writes its JSON in two pieces and renames
it, and the third one is gone after four bytes too. -/
def crashes : List (Fin 3 × Turn) :=
  [(0, .goOn 0), (0, .goOn 0), (0, .goOn 4), (0, .crash), (1, .goOn 0), (1, .goOn 0), (1, .goOn 512),
    (1, .goOn 512), (1, .goOn 0), (2, .goOn 0), (2, .goOn 0), (2, .goOn 4), (2, .crash)]

/-- The index file holds what the second save was to write. -/
theorem index_never_torn_by_crashes :
    (Runs.run (Savers.step plainVec indexPath) threeSaves crashes).disk.read indexPath
      = some savedBytes ∧
    NeverTorn plainVec indexPath {∅, savedMap}
      (Runs.run (Savers.step plainVec indexPath) threeSaves crashes) := by
  refine ⟨by decide +kernel, ?_⟩
  apply index_never_torn
  · intro i
    refine ⟨if i = 1 then savedMap else ∅, ?_, rfl⟩
    split
    · exact Or.inr rfl
    · exact Or.inl rfl
  · intro bytes hbytes
    cases hbytes
  · decide +kernel

end Xylitol.Library
