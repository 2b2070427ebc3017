import Mathlib

/-!
# Stable sorts and sorted sets

A stable sort puts in front the first of the least elements: nothing before it in the list is as
small, nothing after it is smaller. Filtering may come before or after, and of two elements that the
order tells apart the smaller one stands first.
-/

namespace Xylitol

variable {α : Type} (r : α → α → Prop)

/-- `b` is the first of the least elements of `xs`. -/
def FirstLeast (b : α) (xs : List α) : Prop :=
  ∃ before after, xs = before ++ b :: after ∧ (∀ a ∈ before, ¬ r a b) ∧ ∀ a ∈ after, r b a

variable {r}

theorem firstLeast_singleton {a b : α} : FirstLeast r b [a] ↔ b = a := by
  constructor
  · rintro ⟨before, after, hxs, -, -⟩
    cases before with
    | nil => exact (List.cons.inj hxs).1.symm
    | cons x before => simp at hxs
  · rintro rfl
    exact ⟨[], [], rfl, by simp, by simp⟩

theorem FirstLeast.mem {b : α} {xs : List α} (h : FirstLeast r b xs) : b ∈ xs := by
  obtain ⟨before, after, rfl, -, -⟩ := h
  simp

theorem head?_orderedInsert [DecidableRel r] (x : α) (xs : List α) :
    (xs.orderedInsert r x).head? = match xs.head? with
      | none => some x
      | some h => if r x h then some x else some h := by
  cases xs with
  | nil => rfl
  | cons h xs =>
    rw [List.orderedInsert_cons]
    split <;> simp_all

variable [Std.Total r]

/-- The first of the least elements is at most every element. -/
theorem FirstLeast.le {b : α} {xs : List α} (h : FirstLeast r b xs) {a : α} (ha : a ∈ xs) :
    r b a := by
  obtain ⟨before, after, rfl, hbefore, hafter⟩ := h
  rcases List.mem_append.mp ha with ha | ha
  · exact (Std.Total.total a b).resolve_left (hbefore a ha)
  · rcases List.mem_cons.mp ha with rfl | ha
    · exact (Std.Total.total a a).elim id id
    · exact hafter a ha

variable [IsTrans α r]

/-- A further element in front is the first of the least when it is at most the one so far, and
changes nothing otherwise. -/
theorem firstLeast_cons {x h b : α} {xs : List α} (hxs : FirstLeast r h xs) :
    FirstLeast r b (x :: xs) ↔ (r x h ∧ b = x) ∨ (¬ r x h ∧ FirstLeast r b xs) := by
  constructor
  · rintro ⟨before, after, hsplit, hbefore, hafter⟩
    cases before with
    | nil =>
      obtain ⟨rfl, rfl⟩ := List.cons.inj hsplit
      exact Or.inl ⟨hafter h hxs.mem, rfl⟩
    | cons y before =>
      obtain ⟨rfl, rfl⟩ := List.cons.inj hsplit
      have hb : FirstLeast r b (before ++ b :: after) :=
        ⟨before, after, rfl, fun a ha => hbefore a (List.mem_cons_of_mem _ ha), hafter⟩
      refine Or.inr ⟨?_, hb⟩
      intro hxh
      exact hbefore x List.mem_cons_self (IsTrans.trans x h b hxh (hxs.le hb.mem))
  · rintro (⟨hxh, rfl⟩ | ⟨hxh, before, after, rfl, hbefore, hafter⟩)
    · exact ⟨[], xs, rfl, by simp, fun a ha => IsTrans.trans b h a hxh (hxs.le ha)⟩
    · refine ⟨x :: before, after, rfl, ?_, hafter⟩
      intro a ha
      rcases List.mem_cons.mp ha with rfl | ha
      · intro hab
        have hb : FirstLeast r b (before ++ b :: after) := ⟨before, after, rfl, hbefore, hafter⟩
        exact hxh (IsTrans.trans a b h hab (hb.le hxs.mem))
      · exact hbefore a ha

variable [DecidableRel r]

theorem head?_insertionSort {b : α} {xs : List α} :
    (xs.insertionSort r).head? = some b ↔ FirstLeast r b xs := by
  induction xs generalizing b with
  | nil => simp [FirstLeast]
  | cons x xs ih =>
    rw [List.insertionSort_cons, head?_orderedInsert]
    cases hhead : (xs.insertionSort r).head? with
    | none =>
      have hnil : xs = [] := by
        have hlen := List.length_insertionSort r xs
        rw [List.head?_eq_none_iff.mp hhead] at hlen
        exact List.length_eq_zero_iff.mp hlen.symm
      rw [hnil, firstLeast_singleton]
      simp [eq_comm]
    | some h =>
      rw [firstLeast_cons (ih.mp hhead), ← ih, hhead]
      by_cases hxh : r x h
      · simp [hxh, eq_comm]
      · simp [hxh]

/-! ## Sorting and filtering -/

omit [Std.Total r] [IsTrans α r] in
theorem orderedInsert_of_forall_rel {x : α} {xs : List α} (h : ∀ a ∈ xs, r x a) :
    xs.orderedInsert r x = x :: xs := by
  cases xs with
  | nil => rfl
  | cons a xs => exact List.orderedInsert_cons_of_le r xs (h a List.mem_cons_self)

omit [Std.Total r] in
theorem filter_orderedInsert (p : α → Bool) (x : α) {xs : List α} (hsorted : xs.Pairwise r) :
    (xs.orderedInsert r x).filter p
      = if p x then (xs.filter p).orderedInsert r x else xs.filter p := by
  induction xs with
  | nil => simp [List.filter_cons]
  | cons a xs ih =>
    obtain ⟨ha, hsorted⟩ := List.pairwise_cons.mp hsorted
    by_cases hxa : r x a
    · -- `x` is in front of all of them, and stays there
      rw [List.orderedInsert_cons_of_le r xs hxa, List.filter_cons]
      split
      · symm
        apply orderedInsert_of_forall_rel
        intro b hb
        rcases List.mem_cons.mp (List.mem_of_mem_filter hb) with rfl | hb
        · exact hxa
        · exact IsTrans.trans x a b hxa (ha b hb)
      · rfl
    · rw [List.orderedInsert_cons, if_neg hxa, List.filter_cons, ih hsorted, List.filter_cons]
      split <;> split <;> simp [hxa]

/-- What is left of a sorted list is sorted as what is left of the list. -/
theorem filter_insertionSort (p : α → Bool) (xs : List α) :
    (xs.insertionSort r).filter p = (xs.filter p).insertionSort r := by
  induction xs with
  | nil => rfl
  | cons x xs ih =>
    rw [List.insertionSort_cons, filter_orderedInsert p x (List.pairwise_insertionSort r xs), ih,
      List.filter_cons]
    split <;> simp

omit [Std.Total r] [IsTrans α r] [DecidableRel r] in
/-- The first of the least of the elements that satisfy `p`, by where it stands among all of them. -/
theorem firstLeast_filter (p : α → Bool) {b : α} {xs : List α} :
    FirstLeast r b (xs.filter p) ↔ p b ∧ ∃ before after, xs = before ++ b :: after ∧
      (∀ a ∈ before, p a → ¬ r a b) ∧ ∀ a ∈ after, p a → r b a := by
  constructor
  · rintro ⟨before, after, hsplit, hbefore, hafter⟩
    obtain ⟨front, back, rfl, hfront, hback⟩ := List.filter_eq_append_iff.mp hsplit
    obtain ⟨skipped, after', rfl, hskipped, hb, rfl⟩ := List.filter_eq_cons_iff.mp hback
    refine ⟨hb, front ++ skipped, after', by simp, ?_, ?_⟩
    · intro a ha hpa
      rcases List.mem_append.mp ha with ha | ha
      · exact hbefore a (hfront ▸ List.mem_filter.mpr ⟨ha, hpa⟩)
      · exact absurd hpa (hskipped a ha)
    · intro a ha hpa
      exact hafter a (List.mem_filter.mpr ⟨ha, hpa⟩)
  · rintro ⟨hb, before, after, rfl, hbefore, hafter⟩
    refine ⟨before.filter p, after.filter p, ?_, ?_, ?_⟩
    · rw [List.filter_append, List.filter_cons_of_pos hb]
    · intro a ha
      exact hbefore a (List.mem_of_mem_filter ha) (List.mem_filter.mp ha).2
    · intro a ha
      exact hafter a (List.mem_of_mem_filter ha) (List.mem_filter.mp ha).2

/-! ## Places in a sorted list -/

/-- `a` stands before `b`, wherever the two stand. -/
def Before (xs : List α) (a b : α) : Prop :=
  ∀ i j : Nat, xs[i]? = some a → xs[j]? = some b → i < j

omit [Std.Total r] [IsTrans α r] [DecidableRel r] in
/-- Elements that are not equal in the order stand as the order says. -/
theorem before_iff {xs : List α} {a b : α} (hsorted : xs.Pairwise r) (ha : a ∈ xs) (hb : b ∈ xs)
    (hor : r a b ∨ r b a) (hne : ¬ (r a b ∧ r b a)) : Before xs a b ↔ r a b := by
  have hrel : ∀ (i j : Nat) (x y : α), xs[i]? = some x → xs[j]? = some y → i < j → r x y := by
    intro i j x y hx hy hij
    obtain ⟨hi, rfl⟩ := List.getElem?_eq_some_iff.mp hx
    obtain ⟨hj, rfl⟩ := List.getElem?_eq_some_iff.mp hy
    exact List.pairwise_iff_getElem.mp hsorted i j hi hj hij
  constructor
  · intro h
    obtain ⟨i, hi⟩ := List.getElem?_of_mem ha
    obtain ⟨j, hj⟩ := List.getElem?_of_mem hb
    exact hrel i j a b hi hj (h i j hi hj)
  · intro hab i j hi hj
    have hba : ¬ r b a := fun h => hne ⟨hab, h⟩
    rcases Nat.lt_trichotomy i j with hij | rfl | hji
    · exact hij
    · rw [hi] at hj
      cases hj
      exact absurd hab hba
    · exact absurd (hrel j i b a hj hi hji) hba

/-! ## Sets of texts

A `BTreeSet` of strings gives its elements in order, each once. -/

theorem sorted_toList (set : Std.ExtTreeSet String) : set.toList.Pairwise (· < ·) :=
  Std.ExtTreeSet.ordered_toList.imp compare_lt_iff_lt.mp

theorem nodup_toList (set : Std.ExtTreeSet String) : set.toList.Nodup :=
  (sorted_toList set).imp ne_of_lt

end Xylitol
