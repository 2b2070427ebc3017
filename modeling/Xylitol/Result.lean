import Mathlib

/-!
# Peeling `Except` computations apart

`do` blocks over `Except` are chains of binds. Three facts take such a chain apart: what a bind does
on each constructor, and what an `ok` result says about the two halves.
-/

namespace Xylitol

variable {ε α β : Type}

@[simp] theorem ok_bind (a : α) (f : α → Except ε β) : (Except.ok a >>= f) = f a := rfl

@[simp] theorem error_bind (e : ε) (f : α → Except ε β) :
    ((Except.error e : Except ε α) >>= f) = Except.error e := rfl

theorem bind_eq_ok {x : Except ε α} {f : α → Except ε β} {b : β} :
    (x >>= f) = .ok b ↔ ∃ a, x = .ok a ∧ f a = .ok b := by
  cases x with
  | error e => simp
  | ok a => simp

theorem map_eq_ok {x : Except ε α} {f : α → β} {b : β} :
    x.map f = .ok b ↔ ∃ a, x = .ok a ∧ f a = b := by
  cases x with
  | error e => simp [Except.map]
  | ok a => simp [Except.map]

theorem mapError_eq_ok {ε' : Type} {x : Except ε α} {f : ε → ε'} {a : α} :
    x.mapError f = .ok a ↔ x = .ok a := by
  cases x with
  | error e => simp [Except.mapError]
  | ok a => simp [Except.mapError]

/-- A list read item by item and then put together: the first item, then the rest. -/
theorem map_mapM_cons {γ : Type} (f : α → Except ε β) (g : List β → γ) (x : α) (xs : List α) :
    ((x :: xs).mapM f).map g = f x >>= fun y => (xs.mapM f).map fun ys => g (y :: ys) := by
  rw [List.mapM_cons]
  cases f x with
  | error e => rfl
  | ok y =>
    simp only [ok_bind]
    cases xs.mapM f with
    | error e => rfl
    | ok ys => rfl

/-- Reading a list item by item succeeds exactly when reading each item does, in order. -/
theorem mapM_eq_ok {f : α → Except ε β} {xs : List α} {ys : List β} :
    xs.mapM f = .ok ys ↔ List.Forall₂ (fun x y => f x = .ok y) xs ys := by
  induction xs generalizing ys with
  | nil =>
    rw [List.mapM_nil, List.forall₂_nil_left_iff]
    exact ⟨fun h => (Except.ok.inj h).symm, fun h => by rw [h]; rfl⟩
  | cons x xs ih =>
    rw [List.mapM_cons, bind_eq_ok, List.forall₂_cons_left_iff]
    apply exists_congr
    intro y
    rw [bind_eq_ok]
    constructor
    · intro ⟨hy, rest, hrest, hys⟩
      exact ⟨rest, hy, ih.mp hrest, (Except.ok.inj hys).symm⟩
    · intro ⟨rest, hy, hrest, hys⟩
      exact ⟨hy, rest, ih.mpr hrest, by rw [hys]; rfl⟩

/-- When reading every item succeeds, leaving out what fails leaves out nothing. -/
theorem filterMap_of_mapM_eq_ok {f : α → Except ε β} {xs : List α} {ys : List β}
    (h : xs.mapM f = .ok ys) : xs.filterMap (fun x => (f x).toOption) = ys := by
  have hall := mapM_eq_ok.mp h
  clear h
  induction hall with
  | nil => rfl
  | cons hhead _ ih => rw [List.filterMap_cons_some (by rw [hhead]; rfl), ih]

theorem toOption_eq_some {x : Except ε α} {a : α} : x.toOption = some a ↔ x = .ok a := by
  cases x with
  | error e => simp [Except.toOption]
  | ok b => simp [Except.toOption]

theorem mem_of_mapM_eq_ok {f : α → Except ε β} {xs : List α} {ys : List β}
    (h : xs.mapM f = .ok ys) {y : β} : y ∈ ys ↔ ∃ x ∈ xs, f x = .ok y := by
  rw [← filterMap_of_mapM_eq_ok h, List.mem_filterMap]
  simp only [toOption_eq_some]

/-- A list can be read item by item exactly when each item can. -/
theorem exists_mapM_eq_ok {f : α → Except ε β} {xs : List α} :
    (∃ ys, xs.mapM f = .ok ys) ↔ ∀ x ∈ xs, ∃ y, f x = .ok y := by
  induction xs with
  | nil => simp [pure, Except.pure]
  | cons x xs ih =>
    rw [List.forall_mem_cons, ← ih]
    constructor
    · intro ⟨ys, h⟩
      rw [List.mapM_cons] at h
      obtain ⟨y, hy, h⟩ := bind_eq_ok.mp h
      obtain ⟨rest, hrest, -⟩ := bind_eq_ok.mp h
      exact ⟨⟨y, hy⟩, rest, hrest⟩
    · intro ⟨⟨y, hy⟩, rest, hrest⟩
      exact ⟨y :: rest, by rw [List.mapM_cons, hy, ok_bind, hrest]; rfl⟩

end Xylitol
