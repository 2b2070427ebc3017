import Mathlib

/-!
# Runs of a system

A system is a function that takes one step: from a state and what the outside does in that step to
the next state. A run is the list of what the outside did. Three rules are all that is needed of runs:

    invariant_run   what every step keeps holds after the run
    history_run     so does what every step keeps given all that happened before
    reaches_done    a measure that every step lowers until the system is done brings it there
-/

namespace Xylitol.Runs

variable {State Event : Type*} {step : State → Event → State}

/-- The state after a run. -/
def run (step : State → Event → State) (s : State) (events : List Event) : State :=
  events.foldl step s

/-- Every event of the run is allowed in the state it meets. -/
def Along (step : State → Event → State) (allowed : State → Event → Prop) :
    State → List Event → Prop
  | _, [] => True
  | s, e :: rest => allowed s e ∧ Along step allowed (step s e) rest

/-- Whether a run is allowed can be decided step by step. -/
def decidableAlong (step : State → Event → State) (allowed : State → Event → Prop)
    [∀ s e, Decidable (allowed s e)] : (s : State) → (es : List Event) →
    Decidable (Along step allowed s es)
  | _, [] => isTrue trivial
  | s, e :: rest =>
    have := decidableAlong step allowed (step s e) rest
    instDecidableAnd

instance {allowed : State → Event → Prop} [∀ s e, Decidable (allowed s e)] (s : State)
    (es : List Event) : Decidable (Along step allowed s es) := decidableAlong step allowed s es

@[simp] theorem run_nil (s : State) : run step s [] = s := rfl

@[simp] theorem run_cons (s : State) (e : Event) (rest : List Event) :
    run step s (e :: rest) = run step (step s e) rest := rfl

@[simp] theorem run_append (s : State) (es rest : List Event) :
    run step s (es ++ rest) = run step (run step s es) rest := List.foldl_append

theorem along_append {allowed : State → Event → Prop} {s : State} {es rest : List Event} :
    Along step allowed s (es ++ rest) ↔
      Along step allowed s es ∧ Along step allowed (run step s es) rest := by
  induction es generalizing s with
  | nil => simp [Along]
  | cons e es ih =>
      simp only [List.cons_append, Along, run_cons]
      rw [ih, and_assoc]

theorem along_imp {allowed allowed' : State → Event → Prop}
    (himp : ∀ s e, allowed s e → allowed' s e) {s : State} {events : List Event}
    (h : Along step allowed s events) : Along step allowed' s events := by
  induction events generalizing s with
  | nil => trivial
  | cons e rest ih => exact ⟨himp s e h.1, ih h.2⟩

/-- A run of events that are allowed in any state. -/
theorem along_of_forall {allowed : State → Event → Prop} {events : List Event}
    (h : ∀ e ∈ events, ∀ s, allowed s e) (s : State) : Along step allowed s events := by
  induction events generalizing s with
  | nil => trivial
  | cons e rest ih =>
      refine ⟨h e List.mem_cons_self s, ih ?_ _⟩
      intro e' he'
      exact h e' (List.mem_cons_of_mem e he')

/-- What holds at the start and is kept by every allowed step holds after every allowed run. -/
theorem invariant_run {allowed : State → Event → Prop} {Inv : State → Prop}
    (hstep : ∀ s e, Inv s → allowed s e → Inv (step s e)) {s : State} {events : List Event}
    (hs : Inv s) (hrun : Along step allowed s events) : Inv (run step s events) := by
  induction events generalizing s with
  | nil => exact hs
  | cons e rest ih => exact ih (hstep s e hs hrun.1) hrun.2

/-- What holds at the start and is kept by every step holds after every run. -/
theorem invariant_every_run {Inv : State → Prop} (hstep : ∀ s e, Inv s → Inv (step s e)) {s : State}
    (hs : Inv s) (events : List Event) : Inv (run step s events) :=
  invariant_run (fun s e h _ => hstep s e h) hs (along_of_forall (fun _ _ _ => trivial) s)

/-- An invariant may speak of everything that the outside has done so far. -/
theorem history_run {allowed : State → Event → Prop} (Inv : List Event → State → Prop) {s : State}
    (hs : Inv [] s)
    (hstep : ∀ past e, Inv past (run step s past) → allowed (run step s past) e →
      Inv (past ++ [e]) (step (run step s past) e)) {events : List Event}
    (hrun : Along step allowed s events) : Inv events (run step s events) := by
  induction events using List.reverseRecOn with
  | nil => exact hs
  | append_singleton past e ih =>
      obtain ⟨hpast, he, -⟩ := along_append.mp hrun
      rw [run_append]
      exact hstep past e (ih hpast) he

/-- What an invariant that every step keeps allows is allowed all along. -/
theorem along_of_invariant {allowed : State → Event → Prop} {Inv : State → Prop}
    (hstep : ∀ s e, Inv s → Inv (step s e)) (hallowed : ∀ s e, Inv s → allowed s e) {s : State}
    (hs : Inv s) (events : List Event) : Along step allowed s events := by
  induction events generalizing s with
  | nil => trivial
  | cons e rest ih => exact ⟨hallowed s e hs, ih (hstep s e hs)⟩

/-- A step that may get stuck, and where it is allowed does not, gets to the end of an allowed run. -/
theorem foldlM_eq_run {allowed : State → Event → Prop} {step? : State → Event → Option State}
    (hstep : ∀ s e, allowed s e → step? s e = some (step s e)) {s : State} {events : List Event}
    (hrun : Along step allowed s events) : events.foldlM step? s = some (run step s events) := by
  induction events generalizing s with
  | nil => rfl
  | cons e rest ih =>
      rw [List.foldlM_cons, hstep s e hrun.1]
      exact ih hrun.2

/-- The states of a run that never ends. -/
def after (step : State → Event → State) (s : State) (events : ℕ → Event) : ℕ → State
  | 0 => s
  | n + 1 => step (after step s events n) (events n)

theorem after_shift (s : State) (events : ℕ → Event) (n : ℕ) :
    after step s events (n + 1) = after step (step s (events 0)) (fun k => events (k + 1)) n := by
  induction n with
  | zero => rfl
  | succ n ih =>
      rw [after, ih]
      rfl

/-- What holds at the start and is kept by every allowed step always holds. -/
theorem invariant_after {allowed : State → Event → Prop} {Inv : State → Prop}
    (hstep : ∀ s e, Inv s → allowed s e → Inv (step s e)) {s : State} {events : ℕ → Event}
    (hs : Inv s) (hallowed : ∀ n, allowed (after step s events n) (events n)) (n : ℕ) :
    Inv (after step s events n) := by
  induction n with
  | zero => exact hs
  | succ n ih => exact hstep _ _ ih (hallowed n)

/-- A system whose steps lower a measure until it is done gets done. -/
theorem reaches_done {α : Type*} [Preorder α] [WellFoundedLT α] {Done : State → Prop}
    (measure : State → α) (hstep : ∀ s e, ¬ Done s → measure (step s e) < measure s)
    (s : State) (events : ℕ → Event) : ∃ n, Done (after step s events n) := by
  induction hm : measure s using WellFoundedLT.induction generalizing s events with
  | ind m ih =>
      by_cases hdone : Done s
      · exact ⟨0, hdone⟩
      · have hlt : measure (step s (events 0)) < m := hm ▸ hstep s (events 0) hdone
        obtain ⟨n, hn⟩ := ih _ hlt (step s (events 0)) (fun k => events (k + 1)) rfl
        refine ⟨n + 1, ?_⟩
        rw [after_shift]
        exact hn

/-- What a measure brings about that never rises before and falls when it is its turn, when its turn
comes again and again. -/
theorem happens_of_turns {α : Type*} [Preorder α] [WellFoundedLT α] {Happens Turn : ℕ → Prop}
    (measure : ℕ → α) {n : ℕ} (hle : ∀ m, n ≤ m → ¬ Happens m → measure (m + 1) ≤ measure m)
    (hlt : ∀ m, n ≤ m → ¬ Happens m → Turn m → measure (m + 1) < measure m)
    (hfair : ∀ m, ∃ m', m ≤ m' ∧ Turn m') : ∃ m, n ≤ m ∧ Happens m := by
  induction hv : measure n using WellFoundedLT.induction generalizing n with
  | ind v ih =>
      by_contra hnever
      have hnot : ∀ m, n ≤ m → ¬ Happens m := fun m hm h => hnever ⟨m, hm, h⟩
      have hdown : ∀ m, n ≤ m → measure m ≤ measure n := by
        intro m hm
        induction m, hm using Nat.le_induction with
        | base => exact le_refl _
        | succ k hk hdown => exact (hle k hk (hnot k hk)).trans hdown
      obtain ⟨m, hm, hturn⟩ := hfair n
      have hfall : measure (m + 1) < v := hv ▸ (hlt m hm (hnot m hm) hturn).trans_le (hdown m hm)
      obtain ⟨k, hk, hhappens⟩ := ih _ hfall (fun k hk => hle k (by omega))
        (fun k hk => hlt k (by omega)) rfl
      exact hnot k (by omega) hhappens

end Xylitol.Runs
