import Xylitol.Gui.Page

/-!
# Every ending is announced once

A download ends on its thread; the main loop hears of it later, and says so with one toast:

    Cancelled ──▶ stopped        Err ──▶ failed        Ok ──▶ saved, or not added

So the toasts about downloads are the endings of the downloads that the main loop has heard of, each
once and no other, whatever else was done and announced in between.
-/

namespace Xylitol.Gui

open Apkpure

/-! ### One element of a list -/

section

variable {α β : Type*} {f : α → Option β} {l : List α} {n : Nat} {a b : α} {x : β}

theorem filterMap_set_same (h : l[n]? = some b) (hsame : f a = f b) :
    (l.set n a).filterMap f = l.filterMap f := by
  induction l generalizing n with
  | nil => rfl
  | cons c l ih =>
    cases n with
    | zero =>
      cases h
      rw [List.set_cons_zero, List.filterMap_cons, List.filterMap_cons, hsame]
    | succ n => rw [List.set_cons_succ, List.filterMap_cons, List.filterMap_cons, ih h]

theorem filterMap_set_perm (h : l[n]? = some b) (hb : f b = none) (ha : f a = some x) :
    ((l.set n a).filterMap f).Perm (l.filterMap f ++ [x]) := by
  induction l generalizing n with
  | nil => cases h
  | cons c l ih =>
    cases n with
    | zero =>
      cases h
      rw [List.set_cons_zero, List.filterMap_cons_some ha, List.filterMap_cons_none hb]
      exact (List.perm_append_singleton x _).symm
    | succ n =>
      rw [List.set_cons_succ, List.filterMap_cons, List.filterMap_cons]
      cases f c with
      | none => exact ih h
      | some y => exact (ih h).cons y

end

/-! ### Endings -/

/-- How a download has ended, as far as a toast tells. -/
inductive Ending where
  | stopped
  | failed (e : Apkpure.Error)
  | kept
  deriving DecidableEq, Repr

def Ending.of : Except Apkpure.Error Downloaded → Ending
  | .ok _ => .kept
  | .error .cancelled => .stopped
  | .error e => .failed e

/-- The ending that a toast announces. -/
def Toast.announces : Toast → Option Ending
  | .stopped => some .stopped
  | .failed e => some (.failed e)
  | .saved _ | .notAdded _ => some .kept
  | .removed _ | .alreadyGone | .notRemoved _ => none

variable {R J : Type} [DecidableEq R] {g : Setting R J} {w : Window R J}

/-- The ending that the main loop has heard of. -/
def Task.heard (t : Task R) : Option Ending := t.outcome.map Ending.of

/-- The toasts about downloads are the endings that were heard of, in some order. -/
def Announced (w : Window R J) : Prop :=
  (w.toasts.filterMap Toast.announces).Perm (w.tasks.filterMap Task.heard)

omit [DecidableEq R] in
theorem announces_removal (name : String) (result : Except Library.Error Library.Reply) :
    (Window.removal name result).announces = none := by
  unfold Window.removal
  split <;> rfl

/-- A result is announced with one toast. -/
theorem toasts_returned (g : Setting R J) (w : Window R J) (n : Nat) (t : Task R)
    (result : Except Apkpure.Error Downloaded) (faults : Library.Faults) (now : String) :
    ∃ toast, (w.returned g n t result faults now).toasts = w.toasts ++ [toast] ∧
      toast.announces = some (Ending.of result) := by
  cases result with
  | error e =>
    unfold Window.returned
    cases e with
    | _ => exact ⟨_, rfl, rfl⟩
  | ok done =>
    show ∃ toast, (Window.finish g _ _ _ _ _).toasts = _ ∧ _
    rcases Window.finish_cases g ((w.setTask n { t with delivered := true }).setRow t.row
      (·.ended n)) t.row done faults now with ⟨e, htoasts, -⟩ | ⟨entry, j, -, -, -, -, -, htoasts⟩
    · exact ⟨_, htoasts, rfl⟩
    · exact ⟨_, htoasts, rfl⟩

theorem announced_step (hok : AllOk w) (h : Announced w) (e : Event R J) :
    Announced (w.step g e) := by
  -- a download of which nothing new is heard
  have hset {m : Nat} {t u : Task R} (hget : w.tasks[m]? = some u) (hsame : t.outcome = u.outcome) :
      (w.toasts.filterMap Toast.announces).Perm ((w.tasks.set m t).filterMap Task.heard) := by
    rw [filterMap_set_same hget (congrArg (Option.map Ending.of) hsame)]
    exact h
  have hmoves := Window.step_moves g w e
  generalize w.step g e = w' at hmoves
  unfold Announced at h ⊢
  cases hmoves with
  | idle | elsewhere => exact h
  | clicked hvisible =>
    refine h.trans ?_
    rw [List.filterMap_append]
    exact List.Perm.of_eq (List.append_nil _).symm
  | cancelled hget => exact hset hget rfl
  | updated hget hrecv => exact hset hget rfl
  | @worked m u a hget => exact hset hget (outcome_worked (hok m u hget) _)
  | removed hget =>
    refine List.Perm.trans ?_ h
    show ((w.toasts ++ [_]).filterMap _).Perm _
    rw [List.filterMap_append, List.filterMap_cons_none (announces_removal _ _)]
    exact List.Perm.of_eq (List.append_nil _)
  | @returned m u result faults now hget hphase hnew =>
    obtain ⟨toast, htoasts, htoast⟩ := toasts_returned g w m u result faults now
    have hbefore : u.heard = none := by
      rw [Task.heard, outcome_of_not_delivered hnew]
      rfl
    have hafter : Task.heard { u with delivered := true } = some (Ending.of result) := by
      unfold Task.heard Task.outcome
      rw [hphase]
      rfl
    rw [htoasts, Window.tasks_returned, List.filterMap_append, List.filterMap_cons_some htoast]
    exact (h.append_right _).trans (filterMap_set_perm hget hbefore hafter).symm

/-- In every run the toasts about downloads are the endings of the downloads that were heard of: each is
announced once, and nothing else is. -/
theorem endings_announced (g : Setting R J) (machine : Machine J) (events : List (Event R J)) :
    Announced (Runs.run (Window.step g) (build g machine) events) := by
  have hstep : ∀ (w : Window R J) (e : Event R J), AllOk w ∧ Announced w →
      AllOk (w.step g e) ∧ Announced (w.step g e) :=
    fun _ e h => ⟨allOk_step h.1 e, announced_step h.1 h.2 e⟩
  have hstart : AllOk (build g machine) ∧ Announced (build g machine) := by
    constructor
    · intro n t hget
      cases hget
    · exact List.Perm.nil
  exact (Runs.invariant_every_run hstep hstart events).2

end Xylitol.Gui
