import Mathlib

/-!
# A resource that one process at a time may hold

Each process has a state of its own, and there is one state that all of them share. A process that
holds the resource knows something of the shared state, and that knowledge is only good as long as
nobody else touches it:

    alone     no two processes hold the resource
    knows     what each of them knows is true

`Sole.update` is the step rule: when a process opens the resource only while nobody else holds it,
and touches the shared state only while it holds it or opens it, both stay true.
-/

namespace Xylitol.Sharing

variable {I L S : Type*} {holds : L → Prop} {Knows : L → S → Prop} {procs : I → L}
  {shared shared' : S}

structure Sole (holds : L → Prop) (Knows : L → S → Prop) (procs : I → L) (shared : S) : Prop where
  alone : ∀ i j, i ≠ j → holds (procs i) → ¬ holds (procs j)
  knows : ∀ i, Knows (procs i) shared

/-- Where nobody holds the resource yet. -/
theorem Sole.of_idle (hidle : ∀ i, ¬ holds (procs i)) (hknows : ∀ i, Knows (procs i) shared) :
    Sole holds Knows procs shared :=
  ⟨fun i _ _ hi => absurd hi (hidle i), hknows⟩

/-- One process takes a step, to `next`. -/
theorem Sole.update [DecidableEq I] {i : I} {next : L} {opens : Prop}
    (h : Sole holds Knows procs shared)
    (hidle : ∀ l, ¬ holds l → Knows l shared → Knows l shared')
    (hnext : Knows next shared') (hkeeps : holds next → holds (procs i) ∨ opens)
    (hquiet : ¬ holds (procs i) → ¬ opens → shared' = shared)
    (hexclusive : opens → ∀ j, j ≠ i → ¬ holds (procs j)) :
    Sole holds Knows (Function.update procs i next) shared' := by
  -- once the process holds the resource nobody else does
  have hrest : holds next → ∀ j, j ≠ i → ¬ holds (procs j) := by
    intro hholds j hj
    rcases hkeeps hholds with hheld | hopens
    · exact h.alone i j hj.symm hheld
    · exact hexclusive hopens j hj
  constructor
  · intro j k hjk hj
    by_cases hji : j = i
    · subst hji
      rw [Function.update_self] at hj
      rw [Function.update_of_ne hjk.symm]
      exact hrest hj k hjk.symm
    · rw [Function.update_of_ne hji] at hj
      by_cases hki : k = i
      · subst hki
        rw [Function.update_self]
        intro hk
        exact hrest hk j hji hj
      · rw [Function.update_of_ne hki]
        exact h.alone j k hjk hj
  · intro j
    by_cases hji : j = i
    · subst hji
      rw [Function.update_self]
      exact hnext
    · rw [Function.update_of_ne hji]
      by_cases hholds : holds (procs j)
      · -- somebody else holds the resource, so this step does not touch what is shared
        rw [hquiet (h.alone j i hji hholds) (fun hopens => hexclusive hopens j hji hholds)]
        exact h.knows j
      · exact hidle _ hholds (h.knows j)

end Xylitol.Sharing
