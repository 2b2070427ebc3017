import Xylitol.Cli.Saved
import Xylitol.Runs

/-!
# Commands one after the other

Between two commands the files of the machine may be changed by anyone; the index file is the
program's own. Each command that changes it opens the library first and writes back the entries it
found with one more or one less:

    index file ──listed──▶ entries of which the file is there ──add / remove──▶ index file

What an entry says was so while it was there: `run_sound` is this for every run of commands that starts
without an index file. The key that `library list` shows takes out the entry it is shown for.
-/

namespace Xylitol.Cli

open Apkpure

variable {J : Type} {tools : Tools J} {m : Machine J} {o : Outside}

/-- What happens on a machine: a command, or other programs changing its files. -/
inductive Event where
  | command (c : Command) (json : Bool) (o : Outside)
  | files (disk : Disk Path)

def step (tools : Tools J) (m : Machine J) : Event → Machine J
  | .command c json o => (c.run tools json o m).2
  | .files disk => { m with disk := disk }

/-- What the site is asked for the files of a package in a step. -/
def Event.request : Event → Option Fetch
  | .command (.variants package version) _ o => some ⟨package, version, o.page⟩
  | .command (.download args) _ o => some (args.request o)
  | _ => none

/-- The entry is on file, and this is what is in its place. -/
def Shows (tools : Tools J) (m : Machine J) (e : Library.Entry) (content : Bytes) : Prop :=
  Library.Listed (m.recorded tools) e ∧ m.disk.read e.path = some content

/-- What has happened in a run so far. -/
def past (tools : Tools J) (m : Machine J) (events : List Event) : Past where
  held e content := ∃ before, before <+: events ∧ Shows tools (Runs.run (step tools) m before) e content
  asked r := ∃ e ∈ events, e.request = some r

/-! ## What is written to the index file -/

/-- What a step that leaves `m'` may write: the listed entries with one that describes its file, or
without one. -/
inductive Writes (tools : Tools J) (m m' : Machine J) (request : Option Fetch) :
    Library.Index → Prop where
  | added {disk entry content} (hread : m'.disk.read entry.path = some content)
      (hdescribes : Describes tools (fun r => request = some r) entry content) :
      Writes tools m m' request ((Machine.listed tools ⟨disk, m.index⟩).insert entry.key entry)
  | removed {key : String} : Writes tools m m' request ((m.listed tools).erase key)

theorem DownloadEnds.writes {args : DownloadArgs} {json : Bool} {m' : Machine J} {ending : Ending}
    (h : DownloadEnds tools args json o m ending m') : m'.index = m.index ∨
      ∃ index j, Writes tools m m' (some (args.request o)) index ∧
        tools.json.toVecPretty index = some j ∧ m'.index = some j := by
  cases h with
  | refused | dry | stopped | unrecorded => exact Or.inl rfl
  | @saved v content done info j disk hchoose hfinished hjudged hothers hinfo hj =>
      have hread : disk.read done.path = some content := by
        rw [hfinished.path]
        exact hfinished.file
      have hdescribes : Describes tools (fun r => some (args.request o) = some r)
          ⟨done.path, info, some v, o.now, done.verified⟩ content := by
        rw [hfinished.path]
        exact describes_download rfl (lists_of_chooseFile hchoose) hjudged hfinished.sha1 hinfo
      exact Or.inr ⟨_, j, .added hread hdescribes, hj, rfl⟩

theorem library_writes (cmd : LibraryCommand) :
    (library tools cmd o m).2.index = m.index ∨
      ∃ index j, Writes tools m (library tools cmd o m).2 none index ∧
        tools.json.toVecPretty index = some j ∧ (library tools cmd o m).2.index = some j := by
  unfold library
  split
  · exact Or.inl rfl
  · next index hindex =>
      obtain rfl := openAt_eq_ok hindex
      cases cmd with
      | list => exact Or.inl rfl
      | add file =>
          dsimp only
          rcases add_settle tools (m.listed tools) m o.faults file none false o.now with
            ⟨e, -, -, hsettle⟩ | ⟨content, info, hread, hinfo, hindex, ⟨e, -, hsettle⟩ |
              ⟨j, hj, -, hsettle⟩⟩
          · rw [hsettle]
            exact Or.inl rfl
          · rw [hsettle]
            exact Or.inl rfl
          · rw [hindex] at hj
            rw [hsettle]
            have hdescribes : Describes tools (fun r => none = some r)
                ⟨file, info, none, o.now, false⟩ content := ⟨hinfo, rfl⟩
            exact Or.inr ⟨_, j, .added hread hdescribes, hj, rfl⟩
      | remove key delete =>
          dsimp only
          rcases remove_settle tools (m.listed tools) m o.faults key delete with
            ⟨-, hsettle⟩ | ⟨entry, -, herase, -, -, hindex | ⟨j, hj, hindex⟩⟩
          · rw [hsettle]
            exact Or.inl rfl
          · exact Or.inl hindex
          · rw [herase] at hj
            exact Or.inr ⟨_, j, .removed, hj, hindex⟩

/-- A step leaves the index file as it is, or writes one of these. -/
theorem step_writes (tools : Tools J) (m : Machine J) (e : Event) :
    (step tools m e).index = m.index ∨
      ∃ index j, Writes tools m (step tools m e) e.request index ∧
        tools.json.toVecPretty index = some j ∧ (step tools m e).index = some j := by
  cases e with
  | files disk => exact Or.inl rfl
  | command c json o =>
      cases c with
      | search | versions | variants | inspect => exact Or.inl rfl
      | download args => exact (download_ends tools args json o m).writes
      | library cmd => exact library_writes cmd

/-- A step keeps an index on file sound, if what it makes of the machine is then past. -/
theorem sound_step {before after : Past} (h : Sound tools before (m.recorded tools)) (e : Event)
    (hafter : before.Before after)
    (hheld : ∀ entry content, Shows tools (step tools m e) entry content → after.held entry content)
    (hasked : ∀ r, e.request = some r → after.asked r) :
    Sound tools after ((step tools m e).recorded tools) := by
  have hkept : Sound tools after (m.recorded tools) := h.kept hafter
  rcases step_writes tools m e with hsame | ⟨index, j, hwrites, hj, hindex⟩
  · rw [recorded_congr hsame]
    exact hkept
  · have hnew : (step tools m e).recorded tools = index := by
      rw [← recorded_write hj (step tools m e).disk, ← hindex]
    rw [hnew]
    cases hwrites with
    | @added disk entry content hread hdescribes =>
        have hrecorded : Machine.recorded tools ⟨disk, m.index⟩ = m.recorded tools :=
          recorded_congr rfl
        have hshows : Shows tools (step tools m e) entry content := by
          refine ⟨⟨entry.key, ?_⟩, hread⟩
          rw [hnew]
          exact Std.ExtTreeMap.getElem?_insert_self
        refine Sound.insert ?_ ⟨content, hheld _ _ hshows, hdescribes.imp hasked⟩ hj
        rw [Machine.listed, hrecorded]
        exact hkept.filter _
    | removed => exact (hkept.filter _).erase _

theorem past_before (tools : Tools J) (m : Machine J) (events rest : List Event) :
    (past tools m events).Before (past tools m (events ++ rest)) := by
  constructor
  · rintro e content ⟨before, hbefore, hshows⟩
    exact ⟨before, hbefore.trans (List.prefix_append events rest), hshows⟩
  · rintro r ⟨e, he, hr⟩
    exact ⟨e, List.mem_append_left rest he, hr⟩

theorem sound_run (disk : Disk Path) (events : List Event) :
    Sound tools (past tools ⟨disk, none⟩ events)
      ((Runs.run (step tools) ⟨disk, none⟩ events).recorded tools) := by
  have hstep : ∀ (events : List Event) (e : Event),
      Sound tools (past tools ⟨disk, none⟩ events)
        ((Runs.run (step tools) ⟨disk, none⟩ events).recorded tools) → True →
      Sound tools (past tools ⟨disk, none⟩ (events ++ [e]))
        ((step tools (Runs.run (step tools) ⟨disk, none⟩ events) e).recorded tools) := by
    intro events e h _
    apply sound_step h e (past_before tools _ events [e])
    · intro entry content hshows
      refine ⟨events ++ [e], List.prefix_refl _, ?_⟩
      rw [Runs.run_append]
      exact hshows
    · intro r hr
      exact ⟨e, List.mem_append_right events List.mem_cons_self, hr⟩
  exact Runs.history_run (fun events m => Sound tools (past tools ⟨disk, none⟩ events)
    (Machine.recorded tools m)) sound_empty hstep (Runs.along_of_forall (fun _ _ _ => trivial) _)

/-- Whatever commands are run, whatever the site answers, whichever of them fail or die on the way,
and whatever else is done to the files: every entry on file is under its own key, and what it says was
so of the file in its place at a moment of the run when the entry was on file, and of a list that was
returned in the run. -/
theorem run_sound (tools : Tools J) (disk : Disk Path) (events : List Event) :
    let index := (Runs.run (step tools) ⟨disk, none⟩ events).recorded tools
    ∀ (k : String) (e : Library.Entry), index[k]? = some e →
      k = e.key ∧ Path.isUtf8 e.path ∧ Vouched tools (past tools ⟨disk, none⟩ events) e := by
  intro index k e he
  have hsound : Sound tools (past tools ⟨disk, none⟩ events) index := sound_run disk events
  exact ⟨hsound.keyed k e he, hsound.utf8 k e he, hsound.vouched k e he⟩

/-! ## The list and its keys -/

/-- No call of the library fails, and the program lives to print how it ends. -/
structure Outside.Smooth (o : Outside) : Prop where
  openFaults : o.openFaults = .none
  faults : o.faults = .none
  gone : o.gone = false

theorem Outside.Smooth.printed (h : o.Smooth) (ending : Except Failure Report) :
    o.printed ending = some ending := by
  rw [Outside.printed, h.gone]
  rfl

theorem library_list (tools : Tools J) (m : Machine J) (ho : o.Smooth) :
    library tools .list o m = (some (.ok (.entries (Library.entries (m.listed tools)))), m) := by
  rw [library, ho.openFaults, openAt_none]
  simp only [ho.printed]

/-- The key of a listed entry takes it out. -/
theorem library_remove {entry : Library.Entry} {past : Past}
    (hsound : Sound tools past (m.recorded tools))
    (hentry : Library.Listed (m.listed tools) entry) (ho : o.Smooth) (delete : Bool) :
    ∃ j, tools.json.toVecPretty ((m.listed tools).erase entry.key) = some j ∧
      library tools (.remove entry.key delete) o m
        = (some (.ok (.reply (.removed true))), m.without entry delete j) := by
  have hlisted : Sound tools past (m.listed tools) := hsound.filter _
  have hget := hlisted.keyed.listed_iff.mp hentry
  have hutf8 := (hlisted.erase entry.key).utf8
  obtain ⟨j, hj⟩ := Option.isSome_iff_exists.mp ((tools.json.isSome_toVecPretty _).mpr hutf8)
  refine ⟨j, hj, ?_⟩
  have hremove : Library.remove tools.json .none (m.listed tools) m.world entry.key delete
      = ⟨.ok (.removed true), (m.listed tools).erase entry.key,
          { m.world.withoutFile entry delete with index := some j }⟩ := by
    have hnone : (delete && !Library.Faults.none.removeFile) = delete := by
      cases delete <;> rfl
    simp only [Library.remove, hget, hnone, Library.save, hj, Library.World.withoutFile]
    rfl
  rw [library, ho.openFaults, openAt_none, ho.faults]
  simp only [hremove, Machine.without, ho.printed]

/-- What is listed after a removal: what was listed, without the entry and, where its file went too,
without what names the same file. -/
theorem entries_without {entry : Library.Entry} {past : Past} {j : J} (delete : Bool)
    (hsound : Sound tools past (m.recorded tools))
    (hentry : Library.Listed (m.listed tools) entry)
    (hj : tools.json.toVecPretty ((m.listed tools).erase entry.key) = some j) :
    Library.entries ((m.without entry delete j).listed tools) =
      (Library.entries (m.listed tools)).filter fun e =>
        e ≠ entry ∧ (delete = true → e.path ≠ entry.path) := by
  have hkeyed : Library.Keyed (m.listed tools) := (hsound.filter _).keyed
  have hget := hkeyed.listed_iff.mp hentry
  have hrecorded : (m.without entry delete j).recorded tools = (m.listed tools).erase entry.key := by
    rw [← recorded_write hj (m.without entry delete j).disk]
    rfl
  rw [Machine.listed, hrecorded, Library.erase_eq_filter, Library.filter_filter]
  apply Library.entries_filter
  intro k e he
  -- only the entry itself is under its key, and every listed file was there
  have hkey : k = e.key := hkeyed k e he
  have hthere : (m.disk.read e.path).isSome := (listed_listed_iff.mp ⟨k, he⟩).2
  have hne : k ≠ entry.key ↔ e ≠ entry := by
    constructor
    · rintro h rfl
      exact h hkey
    · rintro h rfl
      rw [hget] at he
      exact h (Option.some.inj he).symm
  have hread : ((m.without entry delete j).disk.read e.path).isSome ↔
      (delete = true → e.path ≠ entry.path) := by
    rw [read_without]
    split
    · next h => simp [h.1, h.2]
    · next h =>
        refine iff_of_true hthere ?_
        intro hdelete hpath
        exact h ⟨hdelete, hpath⟩
  rw [← Bool.coe_iff_coe]
  simp only [Bool.and_eq_true, decide_eq_true_eq]
  rw [hne, hread]

/-- One download on an empty machine. -/
def baseEvents : List Event := [.command (.download baseArgs) false quiet]

def baseIndex : Library.Index := (∅ : Library.Index).insert baseEntry.key baseEntry

theorem run_baseEvents : ∃ disk, disk.read baseEntry.path = some Library.baseApk ∧
    Runs.run (step baseTools) ⟨emptyDisk, none⟩ baseEvents = ⟨disk, some baseIndex⟩ := by
  obtain ⟨disk, hread, hdownload⟩ := download_base
  refine ⟨disk, hread, ?_⟩
  rw [baseEvents, Runs.run_cons, Runs.run_nil, step, Command.run, hdownload, baseIndex]

theorem listed_baseEntry : Library.Listed (Machine.listed baseTools
    (Runs.run (step baseTools) ⟨emptyDisk, none⟩ baseEvents)) baseEntry := by
  obtain ⟨disk, hread, hrun⟩ := run_baseEvents
  rw [hrun, listed_listed_iff]
  refine ⟨⟨baseEntry.key, Std.ExtTreeMap.getElem?_insert_self⟩, ?_⟩
  rw [hread]
  rfl

/-- What was fetched, and a bundle that somebody else has put there. -/
def besideDisk : Disk Path :=
  let (fetched, file) := emptyDisk.create baseDone.path
  let (both, bundle) := (fetched.write file Library.baseApk).1.create Library.armPath
  (both.write bundle Library.armBundle).1

theorem read_besideDisk : besideDisk.read baseEntry.path = some Library.baseApk ∧
    besideDisk.read Library.armPath = some Library.armBundle := by decide +kernel

/-- Then the bundle is added. -/
def bothEvents : List Event := baseEvents ++
  [.files besideDisk, .command (.library (.add Library.armPath)) false quiet]

theorem quiet_smooth : quiet.Smooth := ⟨rfl, rfl, rfl⟩

theorem listed_besideDisk : Machine.listed baseTools ⟨besideDisk, some baseIndex⟩ = baseIndex := by
  have hrecorded : Machine.recorded baseTools ⟨besideDisk, some baseIndex⟩ = baseIndex := rfl
  apply Std.ExtTreeMap.ext_getElem?
  intro k
  rw [Machine.listed, hrecorded]
  apply Option.ext
  intro e
  rw [Library.getElem?_filter_eq_some, and_iff_left_iff_imp]
  intro he
  have hentry : e = baseEntry := by
    rw [baseIndex, Std.ExtTreeMap.getElem?_insert] at he
    split at he
    · exact (Option.some.inj he).symm
    · simp at he
  rw [hentry, read_besideDisk.1]
  rfl

/-- Both files are listed. -/
theorem run_bothEvents : Runs.run (step baseTools) ⟨emptyDisk, none⟩ bothEvents
    = ⟨besideDisk, some (baseIndex.insert Library.armEntry.key Library.armEntry)⟩ := by
  obtain ⟨disk, -, hfirst⟩ := run_baseEvents
  have hopen : Library.openAt baseTools.json .none
      (Machine.world (⟨besideDisk, some baseIndex⟩ : Machine Library.Index)) = .ok baseIndex := by
    rw [openAt_none, listed_besideDisk]
  have hbase : Path.isUtf8 baseEntry.path :=
    show Path.isUtf8 (utf8Bytes "/d/a.b_1.0_7_universal.apk") from Path.isUtf8_utf8Bytes _
  have harm : Path.isUtf8 Library.armPath := Path.isUtf8_utf8Bytes _
  have hfile : (Machine.world (⟨besideDisk, some baseIndex⟩ : Machine Library.Index)).files
      Library.armPath = some Library.armBundle := read_besideDisk.2
  have hadd := Library.add_plainJson (Library.utf8_empty.insert baseEntry.key baseEntry hbase) harm
    hfile Library.inspect_armBundle Library.armEntry rfl
  rw [bothEvents, Runs.run_append, hfirst]
  rw [Runs.run_cons, Runs.run_cons, Runs.run_nil, step, step, Command.run, library,
    quiet_smooth.openFaults, hopen, quiet_smooth.faults]
  dsimp only
  rw [show Library.add baseTools.json baseTools.env .none baseIndex _ Library.armPath none false
    quiet.now = _ from hadd]
  exact Machine.settle_same ⟨besideDisk, some baseIndex⟩ _

theorem listed_bothEvents : Library.Listed (Machine.listed baseTools
      (Runs.run (step baseTools) ⟨emptyDisk, none⟩ bothEvents)) baseEntry ∧
    Library.Listed (Machine.listed baseTools
      (Runs.run (step baseTools) ⟨emptyDisk, none⟩ bothEvents)) Library.armEntry := by
  have hrecorded : Machine.recorded baseTools
      ⟨besideDisk, some (baseIndex.insert Library.armEntry.key Library.armEntry)⟩
      = baseIndex.insert Library.armEntry.key Library.armEntry := rfl
  have hkeys : baseEntry.key ≠ Library.armEntry.key := by decide
  rw [run_bothEvents, listed_listed_iff, listed_listed_iff, hrecorded]
  refine ⟨⟨⟨baseEntry.key, ?_⟩, ?_⟩, ⟨Library.armEntry.key, ?_⟩, ?_⟩
  · rw [Std.ExtTreeMap.getElem?_insert, if_neg (by simpa using Ne.symm hkeys), baseIndex,
      Std.ExtTreeMap.getElem?_insert_self]
  · rw [read_besideDisk.1]
    rfl
  · exact Std.ExtTreeMap.getElem?_insert_self
  · rw [show Library.armEntry.path = Library.armPath from rfl, read_besideDisk.2]
    rfl

theorem run_sound_base : ∃ k : String,
    ((Runs.run (step baseTools) ⟨emptyDisk, none⟩ bothEvents).recorded baseTools)[k]?
      = some baseEntry ∧ k = baseEntry.key ∧ Path.isUtf8 baseEntry.path ∧
    Vouched baseTools (past baseTools ⟨emptyDisk, none⟩ bothEvents) baseEntry := by
  obtain ⟨k, hk⟩ := (listed_listed_iff.mp listed_bothEvents.1).1
  exact ⟨k, hk, run_sound baseTools emptyDisk bothEvents k baseEntry hk⟩

end Xylitol.Cli
