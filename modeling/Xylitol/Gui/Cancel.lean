import Xylitol.Gui.Pending

/-!
# What the cancel button does

A call looks at its token when the next chunk is there and nowhere else. So the button stops a download
that has something to receive, and one that has received everything finishes:

    token ──▶ at most one more update ──▶ something was left    no file is finished
                                          nothing was left      as if nobody had cancelled
-/

namespace Xylitol.Gui

open Apkpure

/-! ### The call -/

section

variable {sha1 : Bytes → Bytes} {job : Job} {a : Answer} {disk : Disk Path} {call : Call}

/-- How many updates a call whose token is set can still report. -/
def owed : Apkpure.Phase → Nat
  | .createDir | .metadata | .send _ | .openExisting .. | .rehash .. | .openAppend .. | .create ..
  | .write .. => 1
  | .next _ | .flush _ | .removePart .. | .rename .. | .done _ => 0

/-- There is something left to receive. -/
def Left : Apkpure.Phase → Prop
  | .openExisting _ _ body | .rehash _ _ body _ _ _ | .openAppend _ _ body _ | .create _ body =>
    body ≠ []
  | .next t | .write t _ => t.body ≠ []
  | .createDir | .metadata | .send _ | .flush _ | .removePart .. | .rename .. | .done _ => False

/-- What the token prevents: no chunk is taken. -/
theorem not_write_of_cancelled (hcancelled : a.cancelled = true) {t : Transfer}
    (hphase : call.phase = .next t) (u : Transfer) (chunk : Bytes) :
    (call.step sha1 job a disk).1.phase ≠ .write u chunk := by
  unfold Call.step
  rw [hphase]
  dsimp only
  split
  · intro h
    cases h
  · rw [if_pos hcancelled]
    intro h
    cases h

/-- A call that goes on like this reports what it has in hand and takes nothing more. -/
structure Halts (before after : Call) : Prop where
  reports : after.reported.length + owed after.phase ≤ before.reported.length + owed before.phase
  left : Left before.phase → Left after.phase ∨ ∃ e, after.phase = .done (.error e)

theorem Halts.refl (call : Call) : Halts call call := ⟨le_refl _, Or.inl⟩

theorem Halts.trans {first second third : Call} (h : Halts first second) (h' : Halts second third)
    (hdone : ∀ e, second.phase = .done (.error e) → third.phase = second.phase) :
    Halts first third := by
  refine ⟨h'.reports.trans h.reports, ?_⟩
  intro hleft
  rcases h.left hleft with hsecond | ⟨e, he⟩
  · exact h'.left hsecond
  · exact Or.inr ⟨e, (hdone e he).trans he⟩

/-- A step of a call whose token is set. -/
theorem halts_step (hcancelled : a.cancelled = true) :
    Halts call (call.step sha1 job a disk).1 := by
  have hmoves := Apkpure.step_moves sha1 job a call disk
  have hreported := step_reported sha1 job a call disk
  have hnot : ∀ t u chunk, call.phase = .next t →
      (call.step sha1 job a disk).1.phase ≠ .write u chunk :=
    fun t u chunk hphase => not_write_of_cancelled hcancelled hphase u chunk
  generalize call.step sha1 job a disk = after at hmoves hreported hnot
  obtain ⟨⟨phase', reported'⟩, disk'⟩ := after
  obtain ⟨phase, reported⟩ := call
  dsimp only at hmoves hreported hnot
  subst hreported
  constructor
  · dsimp only
    rw [List.length_append]
    cases hmoves with
    | received => exact absurd rfl (hnot _ _ _ rfl)
    | failed => exact Nat.add_le_add_left (Nat.zero_le _) _
    | _ => simp [Phase.told, owed]
  · intro hleft
    cases hmoves with
    | received => exact absurd rfl (hnot _ _ _ rfl)
    | failed | torn => exact Or.inr ⟨_, rfl⟩
    | opened | hashed | rehashed | appending | created | wrote => exact Or.inl hleft
    | ended hbody => exact absurd hbody hleft
    | dirCreated | measured | resumed | restarted | accepted | rejected | removed | renamed | rest =>
      exact hleft.elim

end

/-! ### The window -/

variable {R J : Type} [DecidableEq R] {w : Window R J} {n : Nat} {t t' u u' : Task R}

/-- How a download goes on. -/
structure Onward (t t' : Task R) : Prop where
  row : t'.row = t.row
  token : t.cancelled = true → t'.cancelled = true
  halts : t.cancelled = true → Halts t.call t'.call
  ended : ∀ result, t.call.phase = .done result → t'.call.phase = t.call.phase

omit [DecidableEq R] in
/-- The call was left alone. -/
theorem Onward.of_call (hrow : t'.row = t.row) (hcall : t'.call = t.call)
    (htoken : t.cancelled = true → t'.cancelled = true) : Onward t t' :=
  ⟨hrow, htoken, fun _ => hcall ▸ Halts.refl _, fun _ _ => congrArg Call.phase hcall⟩

omit [DecidableEq R] in
theorem Onward.trans {t'' : Task R} (h : Onward t t') (h' : Onward t' t'') : Onward t t'' := by
  refine ⟨h'.row.trans h.row, fun htoken => h'.token (h.token htoken), ?_, ?_⟩
  · intro htoken
    exact (h.halts htoken).trans (h'.halts (h.token htoken)) fun e he => h'.ended _ he
  · intro result hresult
    exact (h'.ended result ((h.ended result hresult).trans hresult)).trans (h.ended result hresult)

omit [DecidableEq R] in
theorem onward_set {tasks : List (Task R)} {m : Nat} (ht : tasks[n]? = some t)
    (hu : tasks[m]? = some u) (h : Onward u u') :
    ∃ t', (tasks.set m u')[n]? = some t' ∧ Onward t t' := by
  by_cases hmn : m = n
  · subst hmn
    obtain rfl : t = u := Option.some.inj (ht.symm.trans hu)
    exact ⟨u', List.getElem?_set_self (List.getElem?_eq_some_iff.mp ht).1, h⟩
  · exact ⟨t, (List.getElem?_set_ne hmn).trans ht, .of_call rfl rfl id⟩

theorem onward_step (g : Setting R J) (e : Event R J) (ht : w.tasks[n]? = some t) :
    ∃ t', (w.step g e).tasks[n]? = some t' ∧ Onward t t' := by
  have hsame : Onward t t := .of_call rfl rfl id
  have hmoves := Window.step_moves g w e
  generalize w.step g e = w' at hmoves
  cases hmoves with
  | idle | elsewhere | removed => exact ⟨t, ht, hsame⟩
  | clicked hvisible =>
    exact ⟨t, (List.getElem?_append_left (List.getElem?_eq_some_iff.mp ht).1).trans ht, hsame⟩
  | cancelled hget => exact onward_set ht hget (.of_call rfl rfl fun _ => rfl)
  | updated hget hrecv => exact onward_set ht hget (.of_call rfl rfl id)
  | returned hget hphase hnew =>
    rw [Window.tasks_returned]
    exact onward_set ht hget (.of_call rfl rfl id)
  | @worked m u a hget =>
    refine onward_set ht hget ⟨rfl, id, fun htoken => halts_step htoken, ?_⟩
    intro result hresult
    show (u.call.step _ _ _ _).1.phase = _
    rw [Call.step, hresult]
    exact hresult

/-- Once the token of a download is set, whatever is done afterwards: it stays set, the call reports at
most one more update, and a call that had something left to receive then never returns a file. -/
theorem cancel_stops (g : Setting R J) (w : Window R J) (events : List (Event R J))
    (ht : w.tasks[n]? = some t) (htoken : t.cancelled = true) :
    ∃ t', (Runs.run (Window.step g) w events).tasks[n]? = some t' ∧ t'.row = t.row ∧
      t'.cancelled = true ∧ t'.call.reported.length ≤ t.call.reported.length + 1 ∧
      (Left t.call.phase → ∀ done, t'.call.phase ≠ .done (.ok done)) := by
  have hstep : ∀ (w : Window R J) (e : Event R J), (∃ t', w.tasks[n]? = some t' ∧ Onward t t') →
      ∃ t', (w.step g e).tasks[n]? = some t' ∧ Onward t t' := by
    rintro w e ⟨u, hu, honward⟩
    obtain ⟨t', ht', h⟩ := onward_step g e hu
    exact ⟨t', ht', honward.trans h⟩
  obtain ⟨t', ht', h⟩ := Runs.invariant_every_run hstep ⟨t, ht, .of_call rfl rfl id⟩ events
  have hhalts := h.halts htoken
  refine ⟨t', ht', h.row, h.token htoken, ?_, ?_⟩
  · have howed : owed t.call.phase ≤ 1 := by
      unfold owed
      split <;> decide
    have hreports := hhalts.reports
    omega
  · intro hleft done hdone
    rcases hhalts.left hleft with hstill | ⟨e, he⟩
    · rw [hdone] at hstill
      exact hstill
    · rw [hdone] at he
      cases he

/-- The button is clicked when the answer is there and nothing of its body has been taken. -/
def baseCancel : List (Event Unit Library.Index) :=
  [.clicked (), .worked 0 (smooth none), .worked 0 (smooth none),
    .worked 0 (smooth (some wholeBody)), .cancelClicked 0]

theorem cancel_stops_base :
    let w := Runs.run (Window.step baseSetting) (build baseSetting ⟨emptyDisk, none⟩) baseCancel
    ∃ t', (Runs.run (Window.step baseSetting) w
        (List.replicate 9 (.worked 0 (smooth none)))).tasks[0]? = some t' ∧
      t'.cancelled = true ∧ t'.call.reported.length ≤ 1 ∧
      ∀ done, t'.call.phase ≠ .done (.ok done) := by
  intro w
  have ht : w.tasks[0]? = some ⟨(), ⟨.create (some 5) wholeBody.body, []⟩, true, false,
      .empty _ _, [], false⟩ := rfl
  obtain ⟨t', ht', -, htoken, hreports, hleft⟩ :=
    cancel_stops baseSetting w (List.replicate 9 (.worked 0 (smooth none))) ht rfl
  exact ⟨t', ht', htoken, hreports, hleft (List.cons_ne_nil _ _)⟩

end Xylitol.Gui
