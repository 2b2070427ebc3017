import Mathlib

/-!
# Work that a later request replaces

A counter goes up with each request, and what is done for a request carries the number the counter
had. Work is looked at again when it is done, and dropped unless it carries the number the counter
has by then. What the numbers say of pending and of finished work:

    past       no number is ahead of the counter
    latest     pending work with the counter's own number is for the last request
    distinct   no two have one number

`Numbered.issue`, `Numbered.skip` and `Numbered.of_subperm` are the step rules: a request with and
without work to do, and work that is dropped or moves on.
-/

namespace Xylitol.Generations

variable {T Q : Type*} {number : T → ℕ} {request : T → Q} {last : Option Q} {n : ℕ}
  {pending finished pending' finished' : List T}

structure Numbered (number : T → ℕ) (request : T → Q) (last : Option Q) (n : ℕ)
    (pending finished : List T) : Prop where
  past : ∀ t ∈ pending ++ finished, number t ≤ n
  latest : ∀ t ∈ pending, number t = n → last = some (request t)
  distinct : ((pending ++ finished).map number).Nodup

theorem Numbered.start : Numbered number request none 0 [] [] := by
  constructor <;> simp

/-- A request there is nothing to do for. -/
theorem Numbered.skip (h : Numbered number request last n pending finished) (q : Q) :
    Numbered number request (some q) (n + 1) pending finished := by
  constructor
  · intro t ht
    exact Nat.le_succ_of_le (h.past t ht)
  · intro t ht hnumber
    have := h.past t (List.mem_append_left _ ht)
    omega
  · exact h.distinct

/-- A request and the work for it. -/
theorem Numbered.issue (h : Numbered number request last n pending finished) {t : T}
    (ht : number t = n + 1) :
    Numbered number request (some (request t)) (n + 1) (t :: pending) finished := by
  have hskip := h.skip (request t)
  constructor
  · intro t' ht'
    rcases List.mem_cons.mp ht' with rfl | ht'
    · exact ht.le
    · exact hskip.past t' ht'
  · intro t' ht' hnumber
    rcases List.mem_cons.mp ht' with rfl | ht'
    · rfl
    · exact hskip.latest t' ht' hnumber
  · rw [List.cons_append, List.map_cons, List.nodup_cons]
    refine ⟨?_, h.distinct⟩
    intro hmem
    obtain ⟨t', ht', hnumber⟩ := List.mem_map.mp hmem
    have := h.past t' ht'
    omega

/-- Work is dropped, finished, or listed in another order. -/
theorem Numbered.of_subperm (h : Numbered number request last n pending finished)
    (hall : List.Subperm (pending' ++ finished') (pending ++ finished))
    (hpending : pending' ⊆ pending) :
    Numbered number request last n pending' finished' := by
  constructor
  · intro t ht
    exact h.past t (hall.subset ht)
  · intro t ht
    exact h.latest t (hpending ht)
  · obtain ⟨l, hperm, hsub⟩ := hall
    rw [← (hperm.map number).nodup_iff]
    exact h.distinct.sublist (hsub.map number)

end Xylitol.Generations
