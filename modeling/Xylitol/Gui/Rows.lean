import Xylitol.Apkpure.Download.Outcome
import Xylitol.Gui.Window
import Xylitol.Runs

/-!
# Rows and their downloads

A row says where its last download stands, and every download before that has failed:

    Download ──clicked──▶ bar, cancel ──Ok──▶ mark
    Resume   ──clicked──▶     │
    Retry    ◀──────── Err ───┘

So no row has two downloads at a time, although any number of rows may be downloading. A download that
was not cancelled never ends as cancelled, and its bar never goes back, whichever updates are dropped.
-/

namespace Xylitol.Gui

open Apkpure

variable {R J : Type} [DecidableEq R] {g : Setting R J} {w w' : Window R J} {row : R}

namespace Window

/-! ### What a step can do -/

inductive Moves (g : Setting R J) (w : Window R J) : Event R J → Window R J → Prop where
  | idle {e} : Moves g w e w
  | clicked {r} (hvisible : (w.rows r).visible = true) :
      Moves g w (.clicked r) { w.setRow r (·.started w.tasks.length) with
        tasks := w.tasks ++ [⟨r, .start, false, true, .empty _ _, [], false⟩] }
  | cancelled {n t} (hget : w.tasks[n]? = some t) :
      Moves g w (.cancelClicked n) (w.setTask n { t with cancelled := true, cancelSensitive := false })
  | worked {n t a} (hget : w.tasks[n]? = some t) : Moves g w (.worked n a) (w.worked g n t a)
  | updated {n t p rest} (hget : w.tasks[n]? = some t) (hrecv : t.updates.recv = some (p, rest)) :
      Moves g w (.updated n) (w.setTask n { t with updates := rest, seen := t.seen ++ [p] })
  | returned {n t result faults now} (hget : w.tasks[n]? = some t)
      (hphase : t.call.phase = .done result) (hnew : t.delivered = false) :
      Moves g w (.returned n faults now) (w.returned g n t result faults now)
  | removed {k entry faults} (hget : w.shown[k]? = some entry) :
      Moves g w (.removeClicked k faults) (w.removeClicked g entry faults)
  | elsewhere {machine} : Moves g w (.elsewhere machine) { w with machine := machine }

theorem step_moves (g : Setting R J) (w : Window R J) (e : Event R J) : Moves g w e (w.step g e) := by
  cases e with
  | clicked row =>
    show Moves g w _ (w.clicked row)
    unfold clicked
    split
    · next hvisible => exact .clicked hvisible
    · exact .idle
  | cancelClicked n =>
    simp only [step]
    split
    · exact .idle
    · next t hget =>
      unfold cancelClicked
      split
      · exact .cancelled hget
      · exact .idle
  | worked n a =>
    simp only [step]
    split
    · exact .idle
    · next t hget => exact .worked hget
  | updated n =>
    simp only [step]
    split
    · exact .idle
    · next t hget =>
      unfold updated
      split
      · exact .idle
      · next p rest hrecv => exact .updated hget hrecv
  | returned n faults now =>
    simp only [step]
    split
    · exact .idle
    · next t hget =>
      split
      · next result hphase =>
        split
        · exact .idle
        · next hnew => exact .returned hget hphase (Bool.eq_false_iff.mpr hnew)
      · exact .idle
  | removeClicked k faults =>
    simp only [step]
    split
    · exact .idle
    · next entry hget => exact .removed hget
  | elsewhere machine => exact .elsewhere

/-! ### What a result does to rows and downloads -/

theorem tasks_finish (done : Downloaded) (faults : Library.Faults) (now : String) :
    (w.finish g row done faults now).tasks = w.tasks := by
  unfold finish
  dsimp only
  split <;> rfl

/-- The row is marked, or stays as it is. -/
theorem rows_finish (g : Setting R J) (w : Window R J) (row : R) (done : Downloaded)
    (faults : Library.Faults) (now : String) :
    (∃ subtitle, (w.finish g row done faults now).rows
      = Function.update w.rows row ((w.rows row).marked subtitle)) ∨
    (w.finish g row done faults now).rows = w.rows := by
  unfold finish
  dsimp only
  split
  · exact Or.inl ⟨_, rfl⟩
  · exact Or.inr rfl

/-- What the button of a failed download says. -/
def again : Apkpure.Error → String
  | .cancelled => "Resume"
  | _ => "Retry"

theorem tasks_returned (n : Nat) (t : Task R) (result : Except Apkpure.Error Downloaded)
    (faults : Library.Faults) (now : String) :
    (w.returned g n t result faults now).tasks = w.tasks.set n { t with delivered := true } := by
  unfold returned
  dsimp only
  split
  · rw [tasks_finish]
    rfl
  · rfl
  · rfl

theorem rows_returned_error (n : Nat) (t : Task R) (e : Apkpure.Error) (faults : Library.Faults)
    (now : String) : (w.returned g n t (.error e) faults now).rows
      = Function.update w.rows t.row (((w.rows t.row).ended n).offered (again e)) := by
  unfold returned
  cases e with
  | _ =>
    dsimp only [toast, setRow, setTask, again]
    rw [Function.update_self, Function.update_idem]

theorem rows_returned_ok (n : Nat) (t : Task R) (done : Downloaded) (faults : Library.Faults)
    (now : String) : ∃ f : Row → Row, (f = id ∨ ∃ subtitle, f = (Row.marked · subtitle)) ∧
      (w.returned g n t (.ok done) faults now).rows
        = Function.update w.rows t.row (f ((w.rows t.row).ended n)) := by
  unfold returned
  dsimp only
  rcases rows_finish g ((w.setTask n { t with delivered := true }).setRow t.row (·.ended n)) t.row
    done faults now with ⟨subtitle, h⟩ | h
  · refine ⟨(Row.marked · subtitle), Or.inr ⟨subtitle, rfl⟩, ?_⟩
    rw [h]
    dsimp only [setRow, setTask]
    rw [Function.update_self, Function.update_idem]
  · exact ⟨id, Or.inl rfl, h⟩

end Window

/-! ### One download -/

section

variable {sha1 : Bytes → Bytes} {job : Job} {a : Answer} {disk after : Disk Path}
  {phase phase' : Apkpure.Phase} {reported : List Progress}

theorem cancelled_of_step {call : Call} (h : (call.step sha1 job a disk).1.phase
    = .done (.error .cancelled)) :
    a.cancelled = true ∨ call.phase = .done (.error .cancelled) := by
  obtain ⟨phase, reported⟩ := call
  unfold Call.step at h
  cases phase with
  | done result => exact Or.inr h
  | next t =>
    by_cases hcancelled : a.cancelled = true
    · exact Or.inl hcancelled
    · dsimp only at h
      repeat' split at h
      all_goals simp_all [Call.fail, Call.goto]
  | createDir | metadata | send | openExisting | rehash | openAppend | create | write | flush
  | removePart | rename =>
    simp only [Call.respond, Call.verify] at h
    repeat' split at h
    all_goals simp [Call.fail, Call.goto, Call.report] at h

/-- What is reported grows, and stays below what has been counted. -/
def Rising (reported : List Progress) : Apkpure.Phase → Prop
  | .createDir | .metadata | .send _ | .openExisting .. | .rehash .. | .openAppend .. | .create .. =>
    reported = []
  | .next t | .write t _ => (reported.map Progress.downloaded).Pairwise (· ≤ ·) ∧
    ∀ p ∈ reported, p.downloaded ≤ t.downloaded
  | .flush _ | .removePart .. | .rename .. | .done _ =>
    (reported.map Progress.downloaded).Pairwise (· ≤ ·)

theorem Rising.rises (h : Rising reported phase) :
    (reported.map Progress.downloaded).Pairwise (· ≤ ·) := by
  cases phase with
  | createDir | metadata | send | openExisting | rehash | openAppend | create =>
    rw [show reported = [] from h]
    exact List.Pairwise.nil
  | next | write => exact h.1
  | flush | removePart | rename | done => exact h

theorem rising_told {t : Transfer} (hrises : (reported.map Progress.downloaded).Pairwise (· ≤ ·))
    (hle : ∀ p ∈ reported, p.downloaded ≤ t.downloaded) :
    Rising (reported ++ (Phase.next t).told) (.next t) := by
  constructor
  · rw [List.map_append, List.pairwise_append]
    refine ⟨hrises, List.pairwise_singleton _ _, ?_⟩
    intro m hm m' hm'
    obtain ⟨p, hp, rfl⟩ := List.mem_map.mp hm
    rw [List.mem_singleton.mp hm']
    exact hle p hp
  · intro p hp
    rcases List.mem_append.mp hp with hp | hp
    · exact hle p hp
    · rw [List.mem_singleton.mp hp]

/-- This does not depend on what the disk holds. -/
theorem move_rising (h : Rising reported phase)
    (hmove : Move sha1 job a disk phase phase' after) :
    Rising (reported ++ phase'.told) phase' := by
  cases hmove with
  | appending | created =>
    obtain rfl : reported = [] := h
    exact rising_told List.Pairwise.nil (List.forall_mem_nil _)
  | wrote =>
    exact rising_told h.1 fun p hp => (h.2 p hp).trans (Nat.le_add_right _ _)
  | dirCreated | measured | resumed | restarted | opened | hashed | rehashed | received | rest =>
    rw [Phase.told, List.append_nil]
    exact h
  | failed | ended | torn | accepted | rejected | removed | renamed =>
    rw [Phase.told, List.append_nil]
    exact h.rises

/-- What holds of every download of a window. -/
structure Task.Ok (t : Task R) : Prop where
  cancelled : t.call.phase = .done (.error .cancelled) → t.cancelled = true
  rising : Rising t.call.reported t.call.phase
  carries : t.updates.Carries t.call.reported t.seen
  delivered : t.delivered = true → ∃ result, t.call.phase = .done result

omit [DecidableEq R] in
theorem ok_start (row : R) : Task.Ok ⟨row, .start, false, true, .empty _ _, [], false⟩ := by
  refine ⟨nofun, rfl, Channel.carries_empty, nofun⟩

omit [DecidableEq R] in
theorem Task.Ok.worked {t : Task R} (h : t.Ok) {call : Call} {disk' : Disk Path}
    (hstep : t.call.step sha1 job { a with cancelled := t.cancelled } disk = (call, disk')) :
    Task.Ok { t with
      call := call
      updates := (call.reported.drop t.call.reported.length).foldl Channel.trySend t.updates } := by
  have hmoves := Apkpure.step_moves sha1 job { a with cancelled := t.cancelled } t.call disk
  have hreported := step_reported sha1 job { a with cancelled := t.cancelled } t.call disk
  have hcancelled : call.phase = .done (.error .cancelled) →
      t.cancelled = true ∨ t.call.phase = .done (.error .cancelled) := by
    intro hphase
    exact cancelled_of_step (a := { a with cancelled := t.cancelled }) (by rw [hstep]; exact hphase)
  rw [hstep] at hmoves hreported
  refine ⟨?_, ?_, ?_, ?_⟩
  · intro hphase
    rcases hcancelled hphase with htoken | hbefore
    · exact htoken
    · exact h.cancelled hbefore
  · show Rising call.reported call.phase
    rw [hreported]
    exact move_rising h.rising hmoves
  · show Channel.Carries (List.foldl _ _ _) call.reported t.seen
    rw [hreported, List.drop_left]
    exact h.carries.foldl_trySend _
  · intro hdelivered
    obtain ⟨result, hresult⟩ := h.delivered hdelivered
    refine ⟨result, ?_⟩
    rw [show call = (t.call.step sha1 job { a with cancelled := t.cancelled } disk).1 by rw [hstep],
      Call.step, hresult]
    exact hresult

end

/-! ### All downloads -/

/-- Every download of the window is in order. -/
def AllOk (w : Window R J) : Prop := ∀ (n : Nat) (t : Task R), w.tasks[n]? = some t → t.Ok

omit [DecidableEq R] in
theorem AllOk.set {tasks : List (Task R)}
    (h : ∀ (n : Nat) (t : Task R), tasks[n]? = some t → t.Ok) {n : Nat} {t : Task R} (ht : t.Ok) :
    ∀ (m : Nat) (t' : Task R), (tasks.set n t)[m]? = some t' → t'.Ok := by
  intro m t' hget
  rw [List.getElem?_set] at hget
  split at hget
  · split at hget
    · cases hget
      exact ht
    · cases hget
  · exact h m t' hget

theorem allOk_step (h : AllOk w) (e : Event R J) : AllOk (w.step g e) := by
  have hmoves := Window.step_moves g w e
  generalize w.step g e = w' at hmoves
  cases hmoves with
  | idle | elsewhere => exact h
  | removed => exact h
  | clicked hvisible =>
    intro m t hget
    rcases List.mem_append.mp (List.mem_of_getElem? hget) with hmem | hmem
    · obtain ⟨n, hn⟩ := List.getElem?_of_mem hmem
      exact h n t hn
    · rw [List.mem_singleton.mp hmem]
      exact ok_start _
  | @cancelled n t hget =>
    have ht := h n t hget
    exact AllOk.set h ⟨fun _ => rfl, ht.rising, ht.carries, ht.delivered⟩
  | @worked n t a hget => exact AllOk.set h ((h n t hget).worked rfl)
  | @updated n t p rest hget hrecv =>
    have ht := h n t hget
    exact AllOk.set h ⟨ht.cancelled, ht.rising, ht.carries.recv hrecv, ht.delivered⟩
  | @returned n t result faults now hget hphase hnew =>
    have ht := h n t hget
    unfold AllOk
    rw [Window.tasks_returned]
    exact AllOk.set h ⟨ht.cancelled, ht.rising, ht.carries, fun _ => ⟨result, hphase⟩⟩

/-- What a bar was told was reported in this order, and never goes back. -/
structure BarsRise (w : Window R J) : Prop where
  told : ∀ t ∈ w.tasks, List.Sublist t.seen t.call.reported
  rises : ∀ t ∈ w.tasks, (t.seen.map Progress.downloaded).Pairwise (· ≤ ·)

theorem allOk_run (g : Setting R J) (machine : Machine J) (events : List (Event R J)) :
    AllOk (Runs.run (Window.step g) (build g machine) events) := by
  have hstep : ∀ (w : Window R J) (e : Event R J), AllOk w → AllOk (w.step g e) :=
    fun _ e h => allOk_step h e
  have hstart : AllOk (build g machine) := fun n t hget => nomatch hget
  exact Runs.invariant_every_run hstep hstart events

/-- In every run every bar rises. -/
theorem bars_rise (g : Setting R J) (machine : Machine J) (events : List (Event R J)) :
    BarsRise (Runs.run (Window.step g) (build g machine) events) := by
  have hok := allOk_run g machine events
  have htold : ∀ t ∈ (Runs.run (Window.step g) (build g machine) events).tasks, t.Ok := by
    intro t ht
    obtain ⟨n, hn⟩ := List.getElem?_of_mem ht
    exact hok n t hn
  constructor
  · intro t ht
    exact (htold t ht).carries.received_sublist
  · intro t ht
    have hsublist := (htold t ht).carries.received_sublist
    exact (htold t ht).rising.rises.sublist (hsublist.map Progress.downloaded)

/-! ### Where a row stands -/

/-- What the main loop knows of how a download has ended. -/
def Task.outcome (t : Task R) : Option (Except Apkpure.Error Downloaded) :=
  match t.delivered, t.call.phase with
  | true, .done result => some result
  | _, _ => none

/-- What the main loop knows of the download `n`: its row, and how it has ended. -/
def Window.known (w : Window R J) (n : Nat) :
    Option (R × Option (Except Apkpure.Error Downloaded)) :=
  w.tasks[n]?.map fun t => (t.row, t.outcome)

/-- The last download of a row. Every one before it has failed. -/
structure Last (known : Nat → Option (R × Option (Except Apkpure.Error Downloaded))) (row : R)
    (n : Nat) (outcome : Option (Except Apkpure.Error Downloaded)) : Prop where
  last : known n = some (row, outcome)
  before : ∀ m o, known m = some (row, o) → m ≠ n → m < n ∧ ∃ e, o = some (.error e)

/-- How a row looks and what has come of its downloads. -/
inductive Stands (look : Row) (shown : Row)
    (known : Nat → Option (R × Option (Except Apkpure.Error Downloaded))) (row : R) : Prop where
  | fresh (hnone : ∀ n o, known n ≠ some (row, o)) (hrow : shown = look)
  | running {n label} (hlast : Last known row n none)
      (hrow : shown = { look.started n with label := label })
  | failed {n e} (hlast : Last known row n (some (.error e)))
      (hrow : shown = look.offered (Window.again e))
  | finished {n done label} (hlast : Last known row n (some (.ok done)))
      (hrow : shown = { look with visible := false, label := label } ∨ ∃ subtitle,
        shown = ({ look with visible := false, label := label } : Row).marked subtitle)

/-- The row as it is built. -/
def Setting.look (g : Setting R J) (row : R) : Row := variantRow g.wording.toLook (g.variant row)

/-- Every row stands where its downloads have brought it, and only who cancels is offered to resume. -/
structure Orderly (g : Setting R J) (w : Window R J) : Prop where
  stands : ∀ row, Stands (g.look row) (w.rows row) w.known row
  cancelled : ∀ t ∈ w.tasks, t.outcome = some (.error .cancelled) → t.cancelled = true

section

variable {known known' : Nat → Option (R × Option (Except Apkpure.Error Downloaded))} {n : Nat}
  {look shown : Row} {t t' : Task R}

omit [DecidableEq R]

/-- A row does not depend on the downloads of others. -/
theorem Stands.congr (h : Stands look shown known row)
    (hknown : ∀ m o, known' m = some (row, o) ↔ known m = some (row, o)) :
    Stands look shown known' row := by
  have hlast : ∀ {n o}, Last known row n o → Last known' row n o := by
    intro n o hl
    exact ⟨(hknown n o).mpr hl.last, fun m o' hm => hl.before m o' ((hknown m o').mp hm)⟩
  cases h with
  | fresh hnone hrow => exact .fresh (fun m o hm => hnone m o ((hknown m o).mp hm)) hrow
  | running hl hrow => exact .running (hlast hl) hrow
  | failed hl hrow => exact .failed (hlast hl) hrow
  | finished hl hrow => exact .finished (hlast hl) hrow

/-- A row that can be clicked has no download, or only failed ones. -/
theorem Stands.of_visible (h : Stands look shown known row) (hvisible : shown.visible = true) :
    (∃ label, ∀ n, shown.started n = { look.started n with label := label }) ∧
      ∀ m o, known m = some (row, o) → ∃ e, o = some (.error e) := by
  cases h with
  | fresh hnone hrow =>
    subst hrow
    exact ⟨⟨shown.label, fun _ => rfl⟩, fun m o hm => absurd hm (hnone m o)⟩
  | running hl hrow =>
    subst hrow
    cases hvisible
  | @failed n e hl hrow =>
    subst hrow
    refine ⟨⟨Window.again e, fun _ => rfl⟩, ?_⟩
    intro m o hm
    by_cases hmn : m = n
    · rw [hmn, hl.last] at hm
      cases hm
      exact ⟨e, rfl⟩
    · exact (hl.before m o hm hmn).2
  | finished hl hrow =>
    rcases hrow with rfl | ⟨subtitle, rfl⟩ <;> cases hvisible

/-- A download that has not ended is the last one of its row. -/
theorem Stands.of_unknown (h : Stands look shown known row) (hn : known n = some (row, none)) :
    Last known row n none ∧ ∃ label, shown = { look.started n with label := label } := by
  have hlast : ∀ {m o}, Last known row m o → m = n := by
    intro m o hl
    by_contra hne
    obtain ⟨-, e, he⟩ := hl.before n none hn (Ne.symm hne)
    cases he
  cases h with
  | fresh hnone hrow => exact absurd hn (hnone n none)
  | running hl hrow =>
    obtain rfl := hlast hl
    exact ⟨hl, _, hrow⟩
  | failed hl hrow | finished hl hrow =>
    obtain rfl := hlast hl
    have hsame := hl.last.symm.trans hn
    cases hsame

/-- The bar and the cancel button of a download go when it has ended. -/
theorem ended_started (hlook : look.suffix = [.button]) (label : String) :
    ({ look.started n with label := label } : Row).ended n
      = { look with visible := false, label := label } := by
  simp [Row.started, Row.ended, hlook]

theorem Last.start (hfailed : ∀ m o, known m = some (row, o) → m < n ∧ ∃ e, o = some (.error e))
    (hn : known' n = some (row, none)) (hother : ∀ m, m ≠ n → known' m = known m) :
    Last known' row n none := by
  refine ⟨hn, ?_⟩
  intro m o hm hmn
  rw [hother m hmn] at hm
  exact hfailed m o hm

theorem Last.done {result : Except Apkpure.Error Downloaded} (h : Last known row n none)
    (hn : known' n = some (row, some result)) (hother : ∀ m, m ≠ n → known' m = known m) :
    Last known' row n (some result) := by
  refine ⟨hn, ?_⟩
  intro m o hm hmn
  rw [hother m hmn] at hm
  exact h.before m o hm hmn

theorem known_setTask (w : Window R J) (hget : w.tasks[n]? = some t) (t' : Task R) (m : Nat) :
    (w.setTask n t').known m = if m = n then some (t'.row, t'.outcome) else w.known m := by
  unfold Window.known Window.setTask
  dsimp only
  by_cases hmn : m = n
  · subst hmn
    have hlt := (List.getElem?_eq_some_iff.mp hget).1
    rw [if_pos rfl, List.getElem?_set_self hlt]
    rfl
  · rw [if_neg hmn, List.getElem?_set_ne (Ne.symm hmn)]

/-- The window learns nothing from what changes neither row nor outcome. -/
theorem known_setTask_same (w : Window R J) (hget : w.tasks[n]? = some t) (hrow : t'.row = t.row)
    (houtcome : t'.outcome = t.outcome) : (w.setTask n t').known = w.known := by
  funext m
  rw [known_setTask w hget, hrow, houtcome]
  split
  · next hmn =>
    rw [hmn, Window.known, hget]
    rfl
  · rfl

/-- What a thread does is not known until it is delivered, and then it does nothing more. -/
theorem outcome_worked {sha1 : Bytes → Bytes} {job : Job} {a : Answer} {disk : Disk Path}
    (ht : t.Ok) (updates : Channel Progress 16) :
    ({ t with call := (t.call.step sha1 job a disk).1, updates := updates } : Task R).outcome
      = t.outcome := by
  unfold Task.outcome
  dsimp only
  cases hdelivered : t.delivered with
  | false => rfl
  | true =>
    obtain ⟨result, hresult⟩ := ht.delivered hdelivered
    rw [Call.step, hresult]
    dsimp only
    rw [hresult]

theorem outcome_of_not_delivered (h : t.delivered = false) : t.outcome = none := by
  unfold Task.outcome
  rw [h]

end

/-- Every row of the window stands where its downloads have brought it. -/
def AllStand (g : Setting R J) (w : Window R J) : Prop :=
  ∀ row, Stands (g.look row) (w.rows row) w.known row

omit [DecidableEq R] in
theorem known_lt {m : Nat} {k : R × Option (Except Apkpure.Error Downloaded)}
    (h : w.known m = some k) : m < w.tasks.length := by
  obtain ⟨t, ht, -⟩ := Option.map_eq_some_iff.mp h
  exact (List.getElem?_eq_some_iff.mp ht).1

theorem known_clicked (w : Window R J) (r : R) (t : Task R) (m : Nat) :
    ({ w.setRow r (·.started w.tasks.length) with tasks := w.tasks ++ [t] } : Window R J).known m
      = if m = w.tasks.length then some (t.row, t.outcome) else w.known m := by
  unfold Window.known
  dsimp only
  split
  · next hm =>
    rw [hm, List.getElem?_concat_length]
    rfl
  · next hm =>
    rcases Nat.lt_or_gt_of_ne hm with hlt | hgt
    · rw [List.getElem?_append_left hlt]
    · rw [List.getElem?_eq_none (by simp; omega), List.getElem?_eq_none (Nat.le_of_lt hgt)]

theorem allStand_clicked {r : R} (h : AllStand g w) (hvisible : (w.rows r).visible = true) :
    AllStand g { w.setRow r (·.started w.tasks.length) with
      tasks := w.tasks ++ [⟨r, .start, false, true, .empty _ _, [], false⟩] } := by
  have hknown := known_clicked w r ⟨r, .start, false, true, .empty _ _, [], false⟩
  intro row
  by_cases hrow : row = r
  · subst hrow
    obtain ⟨⟨label, hstarted⟩, hfailed⟩ := (h row).of_visible hvisible
    have hshown : Function.update w.rows row ((w.rows row).started w.tasks.length) row
        = { (g.look row).started w.tasks.length with label := label } := by
      rw [Function.update_self]
      exact hstarted _
    refine .running (Last.start (fun m o hm => ⟨known_lt hm, hfailed m o hm⟩) ?_ ?_) hshown
    · rw [hknown, if_pos rfl]
      rfl
    · intro m hm
      rw [hknown, if_neg hm]
  · show Stands _ (Function.update w.rows r _ row) _ row
    rw [Function.update_of_ne hrow]
    refine (h row).congr ?_
    intro m o
    rw [hknown]
    split
    · next hm =>
      constructor
      · intro heq
        cases heq
        exact absurd rfl hrow
      · intro heq
        exact absurd (known_lt heq) (by omega)
    · rfl

theorem allStand_returned {n : Nat} {t : Task R} {result : Except Apkpure.Error Downloaded}
    {faults : Library.Faults} {now : String} (h : AllStand g w) (hget : w.tasks[n]? = some t)
    (hphase : t.call.phase = .done result) (hnew : t.delivered = false) :
    AllStand g (w.returned g n t result faults now) := by
  have hbefore : w.known n = some (t.row, none) := by
    rw [Window.known, hget, ← outcome_of_not_delivered hnew]
    rfl
  have hknown : ∀ m, (w.returned g n t result faults now).known m
      = if m = n then some (t.row, some result) else w.known m := by
    intro m
    rw [Window.known, Window.tasks_returned]
    have hset := known_setTask w hget { t with delivered := true } m
    rw [show Task.outcome { t with delivered := true } = some result by
      unfold Task.outcome; rw [hphase]] at hset
    exact hset
  have hother : ∀ m, m ≠ n → (w.returned g n t result faults now).known m = w.known m := by
    intro m hm
    rw [hknown, if_neg hm]
  have hself : (w.returned g n t result faults now).known n = some (t.row, some result) := by
    rw [hknown, if_pos rfl]
  intro row
  by_cases hrow : row = t.row
  · subst hrow
    obtain ⟨hlast, label, hshown⟩ := (h t.row).of_unknown hbefore
    have hended : (w.rows t.row).ended n = { g.look t.row with visible := false, label := label } := by
      rw [hshown]
      exact ended_started rfl label
    cases result with
    | error e =>
      refine .failed (hlast.done hself hother) ?_
      rw [Window.rows_returned_error, Function.update_self, hended]
      rfl
    | ok done =>
      obtain ⟨f, hf, hrows⟩ := Window.rows_returned_ok (w := w) (g := g) n t done faults now
      rw [hended] at hrows
      rcases hf with rfl | ⟨subtitle, rfl⟩
      · exact .finished (hlast.done hself hother) (Or.inl (by rw [hrows, Function.update_self]; rfl))
      · exact .finished (hlast.done hself hother)
          (Or.inr ⟨subtitle, by rw [hrows, Function.update_self]⟩)
  · have hrows : (w.returned g n t result faults now).rows row = w.rows row := by
      cases result with
      | error e => rw [Window.rows_returned_error, Function.update_of_ne hrow]
      | ok done =>
        obtain ⟨f, -, hrows⟩ := Window.rows_returned_ok (w := w) (g := g) n t done faults now
        rw [hrows, Function.update_of_ne hrow]
    rw [hrows]
    refine (h row).congr ?_
    intro m o
    rw [hknown]
    split
    · next hm =>
      subst hm
      rw [hbefore]
      constructor <;> (intro heq; cases heq; exact absurd rfl hrow)
    · rfl

theorem allStand_step (hok : AllOk w) (h : AllStand g w) (e : Event R J) :
    AllStand g (w.step g e) := by
  have hsame : ∀ {w' : Window R J}, w'.rows = w.rows → w'.known = w.known → AllStand g w' := by
    intro w' hrows hknown row
    rw [hrows, hknown]
    exact h row
  have hmoves := Window.step_moves g w e
  generalize w.step g e = w' at hmoves
  cases hmoves with
  | idle | elsewhere | removed => exact h
  | clicked hvisible => exact allStand_clicked h hvisible
  | @cancelled n t hget => exact hsame rfl (known_setTask_same w hget rfl rfl)
  | @worked n t a hget =>
    exact hsame rfl (known_setTask_same w hget rfl (outcome_worked (hok n t hget) _))
  | @updated n t p rest hget hrecv => exact hsame rfl (known_setTask_same w hget rfl rfl)
  | returned hget hphase hnew => exact allStand_returned h hget hphase hnew

/-- In every run every row stands where its downloads have brought it. -/
theorem run_orderly (g : Setting R J) (machine : Machine J) (events : List (Event R J)) :
    Orderly g (Runs.run (Window.step g) (build g machine) events) := by
  have hstep : ∀ (w : Window R J) (e : Event R J), AllOk w ∧ AllStand g w →
      AllOk (w.step g e) ∧ AllStand g (w.step g e) :=
    fun _ e h => ⟨allOk_step h.1 e, allStand_step h.1 h.2 e⟩
  have hstart : AllOk (build g machine) ∧ AllStand g (build g machine) := by
    constructor
    · intro n t hget
      cases hget
    · intro row
      exact .fresh (fun n o hm => nomatch hm) rfl
  have hrun := Runs.invariant_every_run hstep hstart events
  refine ⟨hrun.2, ?_⟩
  intro t ht houtcome
  obtain ⟨n, hn⟩ := List.getElem?_of_mem ht
  refine (hrun.1 n t hn).cancelled ?_
  unfold Task.outcome at houtcome
  split at houtcome
  · next result hdelivered hphase =>
    cases houtcome
    exact hphase
  · cases houtcome

end Xylitol.Gui
