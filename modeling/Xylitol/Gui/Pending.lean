import Xylitol.Apkpure.Download.Apart
import Xylitol.Cli.Saved
import Xylitol.Gui.Page

/-!
# Downloads that are still to be delivered

A download is pending from the click until the main loop has its result. What a step of the window
does to a pending download is one of two things, `pending_step`: it is a step of its call, or it leaves
the call and its partial file alone. This needs that nobody else touches its files, `Apart`.

So the call can rely on what it knows of its files, and it gets done: where its thread keeps running
and the main loop keeps taking results, every download is delivered.
-/

namespace Xylitol.Gui

open Apkpure

variable {R J : Type} [DecidableEq R] {g : Setting R J} {w w' : Window R J} {e : Event R J} {k : Nat}
  {t t' : Task R}

/-- A download of which the result is still to come. -/
def Pending (w : Window R J) (k : Nat) (t : Task R) : Prop :=
  w.tasks[k]? = some t ∧ t.delivered = false

/-- Nobody but its call touches the files of a download before its result is delivered: no other
download has the same finished file, and no removal takes the partial file away. Another program may
take finished files away. -/
def Apart (g : Setting R J) (w : Window R J) : Event R J → Prop
  | .clicked row => ∀ k t, Pending w k t → (g.job t.row).finalPath ≠ (g.job row).finalPath
  | .removeClicked k _ => ∀ entry ∈ w.shown[k]?, ∀ e ∈ w.library[entry.key]?,
    ∀ k t, Pending w k t → (g.job t.row).partPath ≠ e.path
  | .elsewhere machine => ∀ k t, Pending w k t →
    Disk.SameAt (g.job t.row).partPath w.machine.disk machine.disk ∧
    ∀ x, machine.disk.read (g.job t.row).finalPath = some x →
      w.machine.disk.read (g.job t.row).finalPath = some x
  | _ => True

/-- What the calls of the pending downloads know of their files is true. -/
structure Tended (g : Setting R J) (w : Window R J) : Prop where
  reliable : ∀ k t, Pending w k t →
    Reliable g.tools.sha1 (g.job t.row) w.machine.disk t.call.phase
  apart : ∀ k t k' t', Pending w k t → Pending w k' t' → k ≠ k' →
    (g.job t.row).finalPath ≠ (g.job t'.row).finalPath

/-- A download among others: what it is now and what it was. -/
inductive Meets (g : Setting R J) (w : Window R J) (e : Event R J) (k : Nat) (t : Task R)
    (w' : Window R J) (t' : Task R) : Prop where
  | own {a b} (he : e = .worked k a) (hmove : Move g.tools.sha1 (g.job t.row) b w.machine.disk
      t.call.phase t'.call.phase w'.machine.disk)
  | spared (hother : ∀ a, e ≠ .worked k a) (hcall : t'.call = t.call)
      (hpart : Disk.SameAt (g.job t.row).partPath w.machine.disk w'.machine.disk)
      (hfinal : ∀ x, w'.machine.disk.read (g.job t.row).finalPath = some x →
        w.machine.disk.read (g.job t.row).finalPath = some x)

section

omit [DecidableEq R]

/-- A step that leaves the disk as it is spares everyone it does not change. -/
theorem Meets.of_disk (hdisk : w'.machine.disk = w.machine.disk) (hother : ∀ a, e ≠ .worked k a)
    (hcall : t'.call = t.call) : Meets g w e k t w' t' := by
  refine .spared hother hcall ?_ ?_
  · rw [hdisk]
    exact Disk.SameAt.refl _ _
  · rw [hdisk]
    exact fun x hx => hx

theorem getElem?_setTask {n : Nat} {s : Task R} (hget : w.tasks[n]? = some s) (s' : Task R)
    (k : Nat) : (w.setTask n s').tasks[k]? = if k = n then some s' else w.tasks[k]? := by
  show (w.tasks.set n s')[k]? = _
  by_cases hkn : k = n
  · rw [hkn, if_pos rfl, List.getElem?_set_self (List.getElem?_eq_some_iff.mp hget).1]
  · rw [if_neg hkn, List.getElem?_set_ne (Ne.symm hkn)]

/-- A change of one download that leaves the disk as it is. -/
theorem Meets.of_setTask {n : Nat} {s s' : Task R} (hget : w.tasks[n]? = some s)
    (htasks : w'.tasks = (w.setTask n s').tasks) (hdisk : w'.machine.disk = w.machine.disk)
    (ht : w.tasks[k]? = some t) (hrow : s'.row = s.row) (hcall : s'.call = s.call)
    (hother : ∀ a, e ≠ .worked k a) :
    ∃ t', w'.tasks[k]? = some t' ∧ t'.row = t.row ∧ Meets g w e k t w' t' := by
  rw [htasks, getElem?_setTask hget]
  by_cases hkn : k = n
  · subst hkn
    rw [hget] at ht
    cases ht
    rw [if_pos rfl]
    exact ⟨s', rfl, hrow, .of_disk hdisk hother hcall⟩
  · rw [if_neg hkn]
    exact ⟨t, ht, rfl, .of_disk hdisk hother rfl⟩

theorem own_move (g : Setting R J) (w : Window R J) (k : Nat) (t : Task R) (a : Answer) :
    Move g.tools.sha1 (g.job t.row) { a with cancelled := t.cancelled } w.machine.disk t.call.phase
      (t.call.step g.tools.sha1 (g.job t.row) { a with cancelled := t.cancelled }
        w.machine.disk).1.phase
      (w.worked g k t a).machine.disk :=
  Apkpure.step_moves g.tools.sha1 (g.job t.row) { a with cancelled := t.cancelled } t.call
    w.machine.disk

/-- A step of one call spares the other pending downloads. -/
theorem meets_worked {n : Nat} {s : Task R} {a : Answer} (h : Tended g w) (hok : AllOk w)
    (hget : w.tasks[n]? = some s) (ht : Pending w k t) (hkn : k ≠ n) :
    Meets g w (.worked n a) k t (w.worked g n s a) t := by
  have hmove := own_move g w n s a
  have hother : ∀ b, (.worked n a : Event R J) ≠ .worked k b := by
    intro b heq
    cases heq
    exact hkn rfl
  cases hdelivered : s.delivered with
  | true =>
    -- its call has returned, so it touches nothing
    obtain ⟨result, hresult⟩ := (hok n s hget).delivered hdelivered
    rw [hresult] at hmove
    exact .of_disk (move_done hmove).2 hother rfl
  | false =>
    have hs : Pending w n s := ⟨hget, hdelivered⟩
    have hne := h.apart k t n s ht hs hkn
    obtain ⟨hpart, hpartFinal, hfinalPart⟩ := Job.names_ne hne
    have hfaithful := (h.reliable n s hs).faithful
    refine .spared hother rfl (sameAt_move hfaithful hpart hpartFinal hmove) ?_
    intro x hx
    rw [← (sameAt_move hfaithful hfinalPart hne hmove).read]
    exact hx

end

theorem step_worked (g : Setting R J) (ht : w.tasks[k]? = some t) (a : Answer) :
    w.step g (.worked k a) = w.worked g k t a := by
  simp only [Window.step, ht]

/-- A result that is delivered touches no file but the index. -/
theorem disk_returned (g : Setting R J) (w : Window R J) (n : Nat) (s : Task R)
    (result : Except Apkpure.Error Downloaded) (faults : Library.Faults) (now : String) :
    (w.returned g n s result faults now).machine.disk = w.machine.disk := by
  rcases Window.returned_cases g w n s result faults now with
    ⟨toast, -, -, -, hmachine, -⟩ | ⟨done, -, hfinish⟩
  · rw [hmachine]
  · rw [hfinish]
    rcases Window.finish_cases g ((w.setTask n { s with delivered := true }).setRow s.row
      (·.ended n)) s.row done faults now with
      ⟨e, -, -, hmachine, -⟩ | ⟨entry, j, -, -, -, hmachine, -⟩
    · rw [hmachine]
      rfl
    · rw [hmachine]
      rfl

/-- What a step of the window does to a pending download. -/
theorem pending_step (h : Tended g w) (hok : AllOk w) (hapart : Apart g w e) (ht : Pending w k t) :
    ∃ t', (w.step g e).tasks[k]? = some t' ∧ t'.row = t.row ∧ Meets g w e k t (w.step g e) t' := by
  by_cases hown : ∃ a, e = .worked k a
  · obtain ⟨a, rfl⟩ := hown
    rw [step_worked g ht.1]
    exact ⟨_, (getElem?_setTask ht.1 _ k).trans (if_pos rfl), rfl, .own rfl (own_move g w k t a)⟩
  · have hother : ∀ a, e ≠ .worked k a := fun a ha => hown ⟨a, ha⟩
    have hmoves := Window.step_moves g w e
    generalize w.step g e = w' at hmoves
    cases hmoves with
    | idle => exact ⟨t, ht.1, rfl, .of_disk rfl hother rfl⟩
    | clicked hvisible =>
      refine ⟨t, ?_, rfl, .of_disk rfl hother rfl⟩
      rw [List.getElem?_append_left (List.getElem?_eq_some_iff.mp ht.1).1]
      exact ht.1
    | cancelled hget => exact Meets.of_setTask hget rfl rfl ht.1 rfl rfl hother
    | updated hget hrecv => exact Meets.of_setTask hget rfl rfl ht.1 rfl rfl hother
    | @worked n s a hget =>
      have hkn : k ≠ n := fun hkn => hother a (by rw [hkn])
      refine ⟨t, ?_, rfl, meets_worked h hok hget ht hkn⟩
      exact (getElem?_setTask hget _ k).trans ((if_neg hkn).trans ht.1)
    | @returned n s result faults now hget hphase hnew =>
      exact Meets.of_setTask hget (Window.tasks_returned n s result faults now)
        (disk_returned g w n s result faults now) ht.1 rfl rfl hother
    | @removed i entry faults hget =>
      have hremove := remove_settle g.tools w.library w.machine faults entry.key true
      dsimp only at hremove
      rcases hremove with ⟨-, hsettle⟩ | ⟨e, hentry, -, hothers, hreads, -⟩
      · exact ⟨t, ht.1, rfl, .of_disk (congrArg Machine.disk hsettle) hother rfl⟩
      · exact ⟨t, ht.1, rfl, .spared hother rfl
          (hothers _ (hapart entry hget e hentry k t ht)) (fun x => hreads _ x)⟩
    | elsewhere =>
      obtain ⟨hpart, hfinal⟩ := hapart k t ht
      exact ⟨t, ht.1, rfl, .spared hother rfl hpart hfinal⟩

omit [DecidableEq R] in
/-- What a call knows of its files stays true. -/
theorem Meets.reliable (h : Meets g w e k t w' t')
    (hreliable : Reliable g.tools.sha1 (g.job t.row) w.machine.disk t.call.phase) :
    Reliable g.tools.sha1 (g.job t.row) w'.machine.disk t'.call.phase := by
  cases h with
  | own he hmove => exact reliable_move hreliable hmove
  | spared hother hcall hpart hfinal =>
    rw [hcall]
    exact hreliable.congr hpart hfinal

/-! ### Nobody is disturbed -/

/-- A pending download was pending before, or its row was clicked just now. -/
theorem pending_of_step (h : Pending (w.step g e) k t') :
    (∃ t, Pending w k t) ∨
      e = .clicked t'.row ∧ t'.call = .start ∧ k = w.tasks.length := by
  have hset : ∀ {w' : Window R J} {n : Nat} {s s' : Task R}, Pending w' k t' →
      w.tasks[n]? = some s → w'.tasks = (w.setTask n s').tasks → s'.delivered = s.delivered →
      ∃ t, Pending w k t := by
    rintro w' n s s' ⟨ht', hnew⟩ hget htasks hdelivered
    rw [htasks, getElem?_setTask hget] at ht'
    split at ht'
    · next hkn =>
      cases ht'
      exact ⟨s, hkn ▸ hget, hdelivered.symm.trans hnew⟩
    · exact ⟨t', ht', hnew⟩
  have hmoves := Window.step_moves g w e
  generalize w.step g e = w' at hmoves h
  cases hmoves with
  | idle | removed | elsewhere => exact Or.inl ⟨t', h⟩
  | cancelled hget => exact Or.inl (hset h hget rfl rfl)
  | worked hget => exact Or.inl (hset h hget rfl rfl)
  | updated hget hrecv => exact Or.inl (hset h hget rfl rfl)
  | @returned n s result faults now hget hphase hnew =>
    obtain ⟨ht', hpending⟩ := h
    rw [Window.tasks_returned] at ht'
    by_cases hkn : k = n
    · subst hkn
      rw [List.getElem?_set_self (List.getElem?_eq_some_iff.mp hget).1] at ht'
      cases ht'
      cases hpending
    · rw [List.getElem?_set_ne (Ne.symm hkn)] at ht'
      exact Or.inl ⟨t', ht', hpending⟩
  | @clicked r hvisible =>
    obtain ⟨ht', hpending⟩ := h
    by_cases hlt : k < w.tasks.length
    · rw [List.getElem?_append_left hlt] at ht'
      exact Or.inl ⟨t', ht', hpending⟩
    · have hk : k = w.tasks.length := by
        have hlen := (List.getElem?_eq_some_iff.mp ht').1
        rw [List.length_append, List.length_singleton] at hlen
        omega
      rw [hk, List.getElem?_concat_length] at ht'
      cases ht'
      exact Or.inr ⟨rfl, rfl, hk⟩

theorem tended_step (h : Tended g w) (hok : AllOk w) (hapart : Apart g w e) :
    Tended g (w.step g e) := by
  have hold : ∀ {k : Nat} {t t' : Task R}, Pending w k t → Pending (w.step g e) k t' →
      t'.row = t.row ∧ Meets g w e k t (w.step g e) t' := by
    intro k t t' ht ht'
    obtain ⟨s, hs, hrow, hmeets⟩ := pending_step h hok hapart ht
    rw [ht'.1] at hs
    cases hs
    exact ⟨hrow, hmeets⟩
  constructor
  · intro k t' ht'
    rcases pending_of_step ht' with ⟨t, ht⟩ | ⟨-, hcall, -⟩
    · obtain ⟨hrow, hmeets⟩ := hold ht ht'
      rw [hrow]
      exact hmeets.reliable (h.reliable k t ht)
    · rw [hcall]
      exact reliable_start
  · intro k t k' t' ht ht' hne
    rcases pending_of_step ht with ⟨s, hs⟩ | ⟨he, -, hk⟩
    · rcases pending_of_step ht' with ⟨s', hs'⟩ | ⟨he, -, -⟩
      · rw [(hold hs ht).1, (hold hs' ht').1]
        exact h.apart k s k' s' hs hs' hne
      · subst he
        rw [(hold hs ht).1]
        exact hapart k s hs
    · rcases pending_of_step ht' with ⟨s', hs'⟩ | ⟨-, -, hk'⟩
      · subst he
        rw [(hold hs' ht').1]
        exact (hapart k' s' hs').symm
      · exact absurd (hk.trans hk'.symm) hne

omit [DecidableEq R] in
theorem tended_build (g : Setting R J) (machine : Machine J) : Tended g (build g machine) := by
  constructor
  · rintro k t ⟨ht, -⟩
    cases ht
  · rintro k t k' t' ⟨ht, -⟩
    cases ht

/-! ### Every download is delivered -/

theorem step_returned (g : Setting R J) {result : Except Apkpure.Error Downloaded}
    (ht : Pending w k t) (hphase : t.call.phase = .done result) (faults : Library.Faults)
    (now : String) :
    w.step g (.returned k faults now) = w.returned g k t result faults now := by
  simp [Window.step, ht.1, ht.2, hphase]

/-- How far a download is from the end of its call. -/
def distance (w : Window R J) (k : Nat) : ℕ ×ₗ ℕ :=
  match w.tasks[k]? with
  | none => toLex (0, 0)
  | some t => rank w.machine.disk t.call.phase

section

omit [DecidableEq R]

theorem distance_eq (ht : w.tasks[k]? = some t) :
    distance w k = rank w.machine.disk t.call.phase := by
  rw [distance, ht]

/-- A call that has not returned comes closer to its end in its own steps, and stays where it is in
those of others. -/
theorem Meets.rank_le (h : Meets g w e k t w' t')
    (hreliable : Reliable g.tools.sha1 (g.job t.row) w.machine.disk t.call.phase)
    (hrunning : ∀ result, t.call.phase ≠ .done result) :
    rank w'.machine.disk t'.call.phase ≤ rank w.machine.disk t.call.phase ∧
      ∀ a, e = .worked k a →
        rank w'.machine.disk t'.call.phase < rank w.machine.disk t.call.phase := by
  cases h with
  | own he hmove =>
    have hlt := move_rank hrunning hmove
    exact ⟨le_of_lt hlt, fun _ _ => hlt⟩
  | spared hother hcall hpart hfinal =>
    refine ⟨?_, fun a ha => absurd ha (hother a)⟩
    rw [hcall, rank_congr hreliable.faithful hpart]

theorem Meets.done {result : Except Apkpure.Error Downloaded} (h : Meets g w e k t w' t')
    (hdone : t.call.phase = .done result) : t'.call.phase = .done result := by
  cases h with
  | own he hmove =>
    rw [hdone] at hmove
    exact (move_done hmove).1
  | spared hother hcall hpart hfinal =>
    rw [hcall]
    exact hdone

end

section

variable {W : ℕ → Window R J} {events : ℕ → Event R J} {n : ℕ}

/-- The windows of a run in which nobody touches the files of a pending download. -/
structure Undisturbed (g : Setting R J) (W : ℕ → Window R J) (events : ℕ → Event R J) : Prop where
  next : ∀ n, W (n + 1) = (W n).step g (events n)
  apart : ∀ n, Apart g (W n) (events n)
  tended : ∀ n, Tended g (W n)
  ok : ∀ n, AllOk (W n)

theorem undisturbed_after (g : Setting R J) (machine : Machine J)
    (hapart : ∀ n, Apart g (Runs.after (Window.step g) (build g machine) events n) (events n)) :
    Undisturbed g (Runs.after (Window.step g) (build g machine) events) events := by
  have hstep : ∀ (w : Window R J) (e : Event R J), Tended g w ∧ AllOk w → Apart g w e →
      Tended g (w.step g e) ∧ AllOk (w.step g e) :=
    fun _ e h he => ⟨tended_step h.1 h.2 he, allOk_step h.2 e⟩
  have hinv := Runs.invariant_after hstep
    ⟨tended_build g machine, fun _ _ hget => nomatch hget⟩ hapart
  exact ⟨fun _ => rfl, hapart, fun n => (hinv n).1, fun n => (hinv n).2⟩

theorem Undisturbed.meets (h : Undisturbed g W events) (ht : Pending (W n) k t) :
    ∃ t', (W (n + 1)).tasks[k]? = some t' ∧ t'.row = t.row ∧
      Meets g (W n) (events n) k t (W (n + 1)) t' := by
  rw [h.next]
  exact pending_step (h.tended n) (h.ok n) (h.apart n) ht

/-- A download that was started is pending until the main loop knows how it has ended. -/
theorem Undisturbed.pending_or_known (h : Undisturbed g W events)
    (ht : (W n).tasks[k]? = some t) {m : ℕ} (hm : n ≤ m) :
    (∃ t', Pending (W m) k t' ∧ t'.row = t.row) ∨
      ∃ i, n ≤ i ∧ ∃ result, (W i).known k = some (t.row, some result) := by
  have hcases : ∀ {i : ℕ} {t' : Task R}, n ≤ i → (W i).tasks[k]? = some t' → t'.row = t.row →
      (∃ t', Pending (W i) k t' ∧ t'.row = t.row) ∨
        ∃ i, n ≤ i ∧ ∃ result, (W i).known k = some (t.row, some result) := by
    intro i t' hi ht' hrow
    cases hdelivered : t'.delivered with
    | false => exact Or.inl ⟨t', ⟨ht', hdelivered⟩, hrow⟩
    | true =>
      obtain ⟨result, hresult⟩ := (h.ok i k t' ht').delivered hdelivered
      refine Or.inr ⟨i, hi, result, ?_⟩
      rw [Window.known, ht', Option.map_some, hrow, Task.outcome, hdelivered, hresult]
  induction m, hm using Nat.le_induction with
  | base => exact hcases (le_refl n) ht rfl
  | succ m hm ih =>
    rcases ih with ⟨t', ht', hrow⟩ | hknown
    · obtain ⟨s, hs, hsrow, -⟩ := h.meets ht'
      exact hcases (by omega) hs (hsrow.trans hrow)
    · exact Or.inr hknown

/-- A download that stays pending returns, and then waits with its result. -/
theorem Undisturbed.returns (h : Undisturbed g W events)
    (hpending : ∀ m, n ≤ m → ∃ t, Pending (W m) k t)
    (hworks : ∀ n, ∃ m, n ≤ m ∧ ∃ a, events m = .worked k a) :
    ∃ m, n ≤ m ∧ ∃ result, ∀ i, m ≤ i → ∃ t, Pending (W i) k t ∧ t.call.phase = .done result := by
  have hfalls : ∀ m, n ≤ m →
      (¬ ∃ t, Pending (W m) k t ∧ ∃ result, t.call.phase = .done result) →
      distance (W (m + 1)) k ≤ distance (W m) k ∧
        ((∃ a, events m = .worked k a) → distance (W (m + 1)) k < distance (W m) k) := by
    intro m hm hrunning
    obtain ⟨t, ht⟩ := hpending m hm
    obtain ⟨s, hs, -, hmeets⟩ := h.meets ht
    rw [distance_eq hs, distance_eq ht.1]
    obtain ⟨hle, hlt⟩ := hmeets.rank_le ((h.tended m).reliable k t ht)
      (fun result hresult => hrunning ⟨t, ht, result, hresult⟩)
    exact ⟨hle, fun ⟨a, ha⟩ => hlt a ha⟩
  obtain ⟨m, hm, t, ht, result, hresult⟩ :=
    Runs.happens_of_turns (fun m => distance (W m) k) (fun m hm h => (hfalls m hm h).1)
      (fun m hm h => (hfalls m hm h).2) hworks
  refine ⟨m, hm, result, ?_⟩
  intro i hi
  induction i, hi using Nat.le_induction with
  | base => exact ⟨t, ht, hresult⟩
  | succ i hi ih =>
    obtain ⟨t', ht', hdone⟩ := ih
    obtain ⟨s, hs, -, hmeets⟩ := h.meets ht'
    obtain ⟨s', hs'⟩ := hpending (i + 1) (by omega)
    have hsame := hs'.1.symm.trans hs
    cases hsame
    exact ⟨s, hs', hmeets.done hdone⟩

end

/-- While nobody touches the files of a pending download, every download of which the thread keeps
running and the result keeps being asked for ends, and the main loop gets to know how, whatever
happens to the others. -/
theorem every_download_delivered (g : Setting R J) (machine : Machine J) {events : ℕ → Event R J}
    (hapart : ∀ n, Apart g (Runs.after (Window.step g) (build g machine) events n) (events n))
    (hworks : ∀ n, ∃ m, n ≤ m ∧ ∃ a, events m = .worked k a)
    (hreturns : ∀ n, ∃ m, n ≤ m ∧ ∃ faults now, events m = .returned k faults now) {n : ℕ}
    (ht : (Runs.after (Window.step g) (build g machine) events n).tasks[k]? = some t) :
    ∃ m, n ≤ m ∧ ∃ result,
      (Runs.after (Window.step g) (build g machine) events m).known k
        = some (t.row, some result) := by
  have h := undisturbed_after g machine hapart
  by_contra hnever
  have hpending : ∀ m, n ≤ m → ∃ t', Pending
      (Runs.after (Window.step g) (build g machine) events m) k t' := by
    intro m hm
    rcases h.pending_or_known ht hm with ⟨t', ht', -⟩ | hknown
    · exact ⟨t', ht'⟩
    · exact absurd hknown hnever
  obtain ⟨m, hm, result, hwaits⟩ := h.returns hpending hworks
  -- the main loop takes the result, and the download is pending no more
  obtain ⟨i, hi, faults, now, he⟩ := hreturns m
  obtain ⟨t', ht', hdone⟩ := hwaits i hi
  obtain ⟨s, ⟨hs, hnew⟩, -⟩ := hwaits (i + 1) (by omega)
  rw [h.next, he, step_returned g ht' hdone, Window.tasks_returned,
    List.getElem?_set_self (List.getElem?_eq_some_iff.mp ht'.1).1] at hs
  cases hs
  cases hnew

/-- A window with one row, for the small package. -/
def baseSetting : Setting Unit Library.Index where
  tools := Cli.baseTools
  wording :=
    { markup := id
      humanSize := toString
      error := fun _ => "failed"
      libraryError := fun _ => "failed"
      path := fromUtf8Lossy }
  variant _ := Cli.baseFile

/-- A click, and then the thread and the main loop take turns. -/
def baseTurns : ℕ → Event Unit Library.Index
  | 0 => .clicked ()
  | n + 1 => if n % 2 = 0 then .worked 0 (smooth none) else .returned 0 .none "t2"

theorem every_download_delivered_base : ∃ m, 1 ≤ m ∧ ∃ result,
    (Runs.after (Window.step baseSetting) (build baseSetting ⟨emptyDisk, none⟩) baseTurns m).known 0
      = some ((), some result) := by
  have hapart : ∀ n, Apart baseSetting (Runs.after (Window.step baseSetting)
      (build baseSetting ⟨emptyDisk, none⟩) baseTurns n) (baseTurns n) := by
    intro n
    cases n with
    | zero =>
      rintro k t ⟨ht, -⟩
      cases ht
    | succ n =>
      rw [show baseTurns (n + 1) = if n % 2 = 0 then .worked 0 (smooth none)
        else .returned 0 .none "t2" from rfl]
      split <;> trivial
  have hworks : ∀ n, ∃ m, n ≤ m ∧ ∃ a, baseTurns m = .worked 0 a := by
    intro n
    refine ⟨2 * n + 1, by omega, smooth none, ?_⟩
    exact if_pos (Nat.mul_mod_right 2 n)
  have hreturns : ∀ n, ∃ m, n ≤ m ∧ ∃ faults now, baseTurns m = .returned 0 faults now := by
    intro n
    refine ⟨2 * n + 1 + 1, by omega, .none, "t2", if_neg ?_⟩
    omega
  exact every_download_delivered baseSetting ⟨emptyDisk, none⟩ hapart hworks hreturns (n := 1) rfl

end Xylitol.Gui
