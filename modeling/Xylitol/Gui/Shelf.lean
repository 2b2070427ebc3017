import Xylitol.Cli.History
import Xylitol.Gui.Pending

/-!
# What the entries behind the window say

The window enters what its downloads have finished, in memory first and then on file, while commands
are run beside it. Between the end of a call and the entry lies the wait for the main loop; as long as
nobody puts another file in the place of the finished one meanwhile, what the entry says is so of the
file that is there when the entry comes in.
-/

namespace Xylitol.Gui

open Apkpure

variable {R J : Type} [DecidableEq R] {g : Setting R J} {w w' : Window R J} {past later : Past}
  {request : R → Fetch}

/-- What happens: something in the window, or a command beside it, or a change of the files there. -/
inductive Act (R J : Type) where
  | window (e : Event R J)
  | beside (c : Cli.Event)

def Act.event (g : Setting R J) (w : Window R J) : Act R J → Event R J
  | .window e => e
  | .beside c => .elsewhere (Cli.step g.tools w.machine c)

/-- What the site is asked in it; the requests that the rows were made of are not among these. -/
def Act.asks : Act R J → Option Fetch
  | .window _ => none
  | .beside c => c.request

def act (g : Setting R J) (w : Window R J) (a : Act R J) : Window R J := w.step g (a.event g w)

/-- Nobody touches the files of a pending download, and nobody but a command the index file. -/
def Guarded (g : Setting R J) (w : Window R J) (a : Act R J) : Prop :=
  Apart g w (a.event g w) ∧ ∀ machine, a ≠ .window (.elsewhere machine)

/-- Each row is made of a list that the client has returned. -/
def Setting.Listed (g : Setting R J) (request : R → Fetch) : Prop :=
  ∀ row, (request row).Lists g.tools.web (g.variant row)

/-- The entry is in memory or on file, and this is what is in its place. -/
def Holds (g : Setting R J) (w : Window R J) (e : Library.Entry) (content : Bytes) : Prop :=
  (Library.Listed w.library e ∨ Library.Listed (w.machine.recorded g.tools) e) ∧
    w.machine.disk.read e.path = some content

/-- The window that is opened when these commands have been run. -/
def opened (g : Setting R J) (disk : Disk Path) (commands : List Cli.Event) : Window R J :=
  build g (Runs.run (Cli.step g.tools) ⟨disk, none⟩ commands)

/-- What has happened before the window was opened, and since. -/
def pastOf (g : Setting R J) (request : R → Fetch) (disk : Disk Path) (commands : List Cli.Event)
    (acts : List (Act R J)) : Past where
  held e content := (Cli.past g.tools ⟨disk, none⟩ commands).held e content ∨
    ∃ before, before <+: acts ∧ Holds g (Runs.run (act g) (opened g disk commands) before) e content
  asked r := (Cli.past g.tools ⟨disk, none⟩ commands).asked r ∨ (∃ row, request row = r) ∨
    ∃ a ∈ acts, a.asks = some r

/-- What is in memory and on file is vouched for. -/
structure Stocked (g : Setting R J) (past : Past) (w : Window R J) : Prop where
  keyed : Library.Keyed w.library
  vouched : ∀ (k : String) (e : Library.Entry), w.library[k]? = some e → Vouched g.tools past e
  recorded : Sound g.tools past (w.machine.recorded g.tools)

section

omit [DecidableEq R]

theorem Stocked.kept (h : Stocked g past w) (hlater : past.Before later) : Stocked g later w :=
  ⟨h.keyed, fun k e he => (h.vouched k e he).kept hlater, h.recorded.kept hlater⟩

theorem Stocked.congr (h : Stocked g past w) (hlibrary : w'.library = w.library)
    (hindex : w'.machine.index = w.machine.index) : Stocked g past w' := by
  refine ⟨hlibrary ▸ h.keyed, hlibrary ▸ h.vouched, ?_⟩
  rw [recorded_congr hindex]
  exact h.recorded

/-- A window that holds another library, on file as before or written anew. -/
theorem Stocked.of_library {index : Library.Index} (h : Stocked g past w)
    (hlibrary : w'.library = index) (hkeyed : Library.Keyed index)
    (hvouched : ∀ (k : String) (e : Library.Entry), index[k]? = some e → Vouched g.tools past e)
    (hindex : w'.machine.index = w.machine.index ∨
      ∃ j, g.tools.json.toVecPretty index = some j ∧ w'.machine.index = some j) :
    Stocked g past w' := by
  subst hlibrary
  refine ⟨hkeyed, hvouched, ?_⟩
  rcases hindex with hsame | ⟨j, hj, hwritten⟩
  · rw [recorded_congr hsame]
    exact h.recorded
  · have hrecorded : w'.machine.recorded g.tools = w'.library := by
      rw [← recorded_write hj w'.machine.disk]
      exact recorded_congr hwritten
    rw [hrecorded]
    exact sound_of_written hkeyed hvouched hj

theorem stocked_removed {entry : Library.Entry} {faults : Library.Faults} (h : Stocked g past w) :
    Stocked g past (w.removeClicked g entry faults) := by
  have hremove := remove_settle g.tools w.library w.machine faults entry.key true
  dsimp only at hremove
  rcases hremove with ⟨hindex, hsettle⟩ | ⟨e, -, herase, -, -, hindex⟩
  · exact h.congr hindex (congrArg Machine.index hsettle)
  · rw [herase] at hindex
    refine h.of_library herase (Library.keyed_erase h.keyed entry.key) ?_ hindex
    intro k e he
    rw [Std.ExtTreeMap.getElem?_erase] at he
    split at he
    · cases he
    · exact h.vouched k e he

/-- The entry of a download whose call has returned, made while its file is there. -/
theorem vouched_of_enters {t : Task R} {done : Downloaded} {now : String}
    {entry : Library.Entry} (hlisted : g.Listed request) (hrows : ∀ row, past.asked (request row))
    (hreliable : Reliable g.tools.sha1 (g.job t.row) w.machine.disk t.call.phase)
    (hphase : t.call.phase = .done (.ok done)) (hentry : Window.Enters g w t.row done now entry)
    (hheld : ∀ content, w.machine.disk.read entry.path = some content →
      past.held entry content) : Vouched g.tools past entry := by
  have hjudged := hreliable.judged
  obtain ⟨hpath, hcontent⟩ := hreliable.result done hphase
  rw [hphase] at hjudged
  obtain ⟨content, info, hread, hinfo, rfl⟩ := hentry
  refine ⟨content, hheld content hread, ?_⟩
  rw [hpath] at hread ⊢
  exact describes_download (hrows t.row) (hlisted t.row) hjudged (hcontent content hread) hinfo

end

theorem stocked_returned {n : Nat} {t : Task R} {result : Except Apkpure.Error Downloaded}
    {faults : Library.Faults} {now : String} (hlisted : g.Listed request)
    (hrows : ∀ row, past.asked (request row)) (h : Stocked g past w)
    (hreliable : Reliable g.tools.sha1 (g.job t.row) w.machine.disk t.call.phase)
    (hphase : t.call.phase = .done result)
    (hheld : ∀ e content, Holds g (w.returned g n t result faults now) e content →
      past.held e content) : Stocked g past (w.returned g n t result faults now) := by
  have hdisk := disk_returned g w n t result faults now
  rcases Window.returned_cases g w n t result faults now with
    ⟨toast, -, -, -, hmachine, hlibrary⟩ | ⟨done, rfl, hfinish⟩
  · exact h.congr hlibrary (by rw [hmachine])
  · have hinsert : ∀ entry, Window.Enters g w t.row done now entry →
        (w.returned g n t (.ok done) faults now).library = w.library.insert entry.key entry →
        Library.Keyed (w.library.insert entry.key entry) ∧
          ∀ (k : String) (e : Library.Entry), (w.library.insert entry.key entry)[k]? = some e →
            Vouched g.tools past e := by
      intro entry hentry hlibrary
      refine ⟨Library.keyed_insert h.keyed entry, vouched_insert h.vouched
        (vouched_of_enters hlisted hrows hreliable hphase hentry ?_)⟩
      intro content hread
      refine hheld entry content ⟨Or.inl ⟨entry.key, ?_⟩, hdisk ▸ hread⟩
      rw [hlibrary, Std.ExtTreeMap.getElem?_insert_self]
    rw [hfinish] at hinsert ⊢
    rcases Window.finish_cases g ((w.setTask n { t with delivered := true }).setRow t.row
      (·.ended n)) t.row done faults now with
      ⟨e, -, -, hmachine, hsame | ⟨entry, hentry, hlibrary⟩⟩ |
        ⟨entry, j, hentry, hlibrary, hj, hmachine, -, -⟩
    · exact h.congr hsame (by rw [hmachine]; rfl)
    · obtain ⟨hkeyed, hvouched⟩ := hinsert entry hentry hlibrary
      exact h.of_library hlibrary hkeyed hvouched (Or.inl (by rw [hmachine]; rfl))
    · obtain ⟨hkeyed, hvouched⟩ := hinsert entry hentry hlibrary
      rw [hlibrary] at hj
      exact h.of_library hlibrary hkeyed hvouched (Or.inr ⟨j, hj, by rw [hmachine]⟩)

/-- What happens keeps the library sound, if what comes of it is then past. -/
theorem stocked_act {a : Act R J} (hlisted : g.Listed request)
    (hrows : ∀ row, later.asked (request row)) (h : Stocked g past w) (htended : Tended g w)
    (hguarded : Guarded g w a) (hlater : past.Before later)
    (hheld : ∀ e content, Holds g (act g w a) e content → later.held e content)
    (hasked : ∀ r, a.asks = some r → later.asked r) : Stocked g later (act g w a) := by
  have hkept := h.kept hlater
  cases a with
  | beside c =>
    refine ⟨hkept.keyed, hkept.vouched, Cli.sound_step h.recorded c hlater ?_ hasked⟩
    intro e content hshows
    exact hheld e content ⟨Or.inr hshows.1, hshows.2⟩
  | window e =>
    have hmoves := Window.step_moves g w e
    have hactual : act g w (.window e) = w.step g e := rfl
    rw [hactual] at hheld ⊢
    generalize w.step g e = w' at hmoves hheld
    cases hmoves with
    | idle => exact hkept
    | clicked | cancelled | worked | updated => exact hkept.congr rfl rfl
    | @returned n t result faults now hget hphase hnew =>
      exact stocked_returned hlisted hrows hkept (htended.reliable n t ⟨hget, hnew⟩) hphase hheld
    | removed => exact stocked_removed hkept
    | @elsewhere machine => exact absurd rfl (hguarded.2 machine)

theorem pastOf_before (g : Setting R J) (request : R → Fetch) (disk : Disk Path)
    (commands : List Cli.Event) (acts rest : List (Act R J)) :
    (pastOf g request disk commands acts).Before (pastOf g request disk commands (acts ++ rest)) := by
  constructor
  · rintro e content (h | ⟨before, hbefore, hholds⟩)
    · exact Or.inl h
    · exact Or.inr ⟨before, hbefore.trans (List.prefix_append acts rest), hholds⟩
  · rintro r (h | h | ⟨a, ha, hr⟩)
    · exact Or.inl h
    · exact Or.inr (Or.inl h)
    · exact Or.inr (Or.inr ⟨a, List.mem_append_left rest ha, hr⟩)

/-- The window finds what the commands have left. -/
theorem stocked_opened (g : Setting R J) (request : R → Fetch) (disk : Disk Path)
    (commands : List Cli.Event) :
    Stocked g (pastOf g request disk commands []) (opened g disk commands) := by
  have hbefore : (Cli.past g.tools ⟨disk, none⟩ commands).Before
      (pastOf g request disk commands []) := ⟨fun _ _ => Or.inl, fun _ => Or.inl⟩
  have hmachine := (Cli.sound_run disk commands).kept hbefore
  exact ⟨(hmachine.filter _).keyed, (hmachine.filter _).vouched, hmachine⟩

/-- Whatever commands have been run before the window was opened, and whatever is done in it and beside
it while nobody touches the files of a pending download: every entry in memory and on file is under
its own key, and what it says was so of the file in its place at a moment when the entry was there, and
of a list that was returned. -/
theorem run_stocked (g : Setting R J) {request : R → Fetch} (hlisted : g.Listed request)
    (disk : Disk Path) (commands : List Cli.Event) {acts : List (Act R J)}
    (hguarded : Runs.Along (act g) (Guarded g) (opened g disk commands) acts) :
    Stocked g (pastOf g request disk commands acts)
      (Runs.run (act g) (opened g disk commands) acts) := by
  have hstep : ∀ (acts : List (Act R J)) (a : Act R J),
      let w := Runs.run (act g) (opened g disk commands) acts
      Stocked g (pastOf g request disk commands acts) w ∧ Tended g w ∧ AllOk w → Guarded g w a →
      Stocked g (pastOf g request disk commands (acts ++ [a])) (act g w a) ∧ Tended g (act g w a) ∧
        AllOk (act g w a) := by
    rintro acts a w ⟨hstocked, htended, hok⟩ ha
    refine ⟨stocked_act hlisted (fun row => Or.inr (Or.inl ⟨row, rfl⟩)) hstocked htended ha
      (pastOf_before g request disk commands acts [a]) ?_ ?_, tended_step htended hok ha.1,
      allOk_step hok _⟩
    · intro e content hholds
      refine Or.inr ⟨acts ++ [a], List.prefix_refl _, ?_⟩
      rw [Runs.run_append]
      exact hholds
    · intro r hr
      exact Or.inr (Or.inr ⟨a, List.mem_append_right acts List.mem_cons_self, hr⟩)
  have hstart := stocked_opened g request disk commands
  have hidle : AllOk (opened g disk commands) := by
    intro k t hget
    cases hget
  exact (Runs.history_run (fun acts w => Stocked g (pastOf g request disk commands acts) w ∧
    Tended g w ∧ AllOk w) ⟨hstart, tended_build g _, hidle⟩ hstep hguarded).1

section

omit [DecidableEq R]

/-- Where nothing is pending, nothing can be disturbed. -/
theorem apart_of_tasks_nil (hnone : w.tasks = []) (e : Event R J) : Apart g w e := by
  have hpending : ∀ n t, ¬ Pending w n t := by
    rintro n t ⟨ht, -⟩
    rw [hnone] at ht
    cases ht
  cases e with
  | clicked => exact fun n t ht => absurd ht (hpending n t)
  | removeClicked => exact fun _ _ _ _ n t ht => absurd ht (hpending n t)
  | elsewhere => exact fun n t ht => absurd ht (hpending n t)
  | cancelClicked | worked | updated | returned => trivial

theorem tasks_opened (g : Setting R J) (disk : Disk Path) (commands : List Cli.Event) :
    (opened g disk commands).tasks = [] := rfl

end

theorem tasks_beside (c : Cli.Event) : (act g w (.beside c)).tasks = w.tasks := rfl

theorem tasks_removeClicked (k : Nat) (faults : Library.Faults) :
    (act g w (.window (.removeClicked k faults))).tasks = w.tasks := by
  simp only [act, Act.event, Window.step]
  split <;> rfl

/-- The package is downloaded in the window. -/
def baseClicks : List (Event Unit Library.Index) :=
  Cli.quiet.answers.map (.worked 0) ++ [.updated 0, .returned 0 .none "t2"]

/-- A bundle is added on the command line. The entry that the window shows is removed with its file,
and the package is downloaded again. -/
def baseActs : List (Act Unit Library.Index) :=
  .beside (.files Cli.besideDisk)
    :: .beside (.command (.library (.add Library.armPath)) false Cli.quiet)
    :: .window (.removeClicked 0 .none) :: .window (.clicked ()) :: baseClicks.map .window

theorem guarded_baseClicks (w : Window Unit Library.Index) :
    Runs.Along (act baseSetting) (Guarded baseSetting) w (baseClicks.map .window) := by
  apply Runs.along_of_forall
  intro a ha w
  obtain ⟨e, he, rfl⟩ := List.mem_map.mp ha
  rcases List.mem_append.mp he with he | he
  · obtain ⟨answer, -, rfl⟩ := List.mem_map.mp he
    exact ⟨trivial, by simp⟩
  · rcases List.mem_pair.mp he with rfl | rfl
    · exact ⟨trivial, by simp⟩
    · exact ⟨trivial, by simp⟩

theorem guarded_baseActs {w : Window Unit Library.Index} (hnone : w.tasks = []) :
    Runs.Along (act baseSetting) (Guarded baseSetting) w baseActs := by
  refine ⟨⟨apart_of_tasks_nil hnone _, by simp⟩, ⟨apart_of_tasks_nil ?_ _, by simp⟩,
    ⟨apart_of_tasks_nil ?_ _, by simp⟩, ⟨apart_of_tasks_nil ?_ _, by simp⟩, guarded_baseClicks _⟩
  · rw [tasks_beside, hnone]
  · rw [tasks_beside, tasks_beside, hnone]
  · rw [tasks_removeClicked, tasks_beside, tasks_beside, hnone]

def baseRequest : Fetch := Cli.baseArgs.request Cli.quiet

/-- One download on the command line, and then one in the window. -/
theorem run_stocked_base :
    Cli.baseEntry ∈ (opened baseSetting emptyDisk Cli.baseEvents).shown ∧
    Stocked baseSetting (pastOf baseSetting (fun _ => baseRequest) emptyDisk Cli.baseEvents baseActs)
      (Runs.run (act baseSetting) (opened baseSetting emptyDisk Cli.baseEvents) baseActs) := by
  have hlisted : baseSetting.Listed fun _ => baseRequest :=
    fun _ => ⟨_, Cli.fetchVariants_base, List.mem_singleton_self _⟩
  exact ⟨mem_entries_iff.mpr Cli.listed_baseEntry, run_stocked baseSetting hlisted emptyDisk
    Cli.baseEvents (guarded_baseActs (tasks_opened baseSetting emptyDisk Cli.baseEvents))⟩

end Xylitol.Gui
