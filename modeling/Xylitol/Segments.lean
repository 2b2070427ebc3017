import Mathlib

/-!
# Front segments and stripped parts of a list

Two general facts. A filter keeps a front segment of a list exactly when it rejects nothing before
something it keeps. Cutting a list at a separator and stripping each part of padding gives the same
parts whether or not the whole list was stripped first.
-/

namespace Xylitol

variable {α : Type}

/-! ### Filters that keep a front segment -/

/-- Nothing that `p` rejects stands before something that it keeps. -/
def KeepsFront (p : α → Bool) (xs : List α) : Prop := xs.Pairwise fun a b => p b → p a

theorem keepsFront_cons {p : α → Bool} {x : α} {xs : List α} :
    KeepsFront p (x :: xs) ↔ (∀ b ∈ xs, p b → p x) ∧ KeepsFront p xs :=
  List.pairwise_cons

theorem filter_prefix_iff {p : α → Bool} {xs : List α} :
    xs.filter p <+: xs ↔ KeepsFront p xs := by
  induction xs with
  | nil => simp [KeepsFront]
  | cons x xs ih =>
    rw [keepsFront_cons]
    by_cases hx : p x
    · rw [List.filter_cons_of_pos hx, List.prefix_cons_inj, ih]
      simp [hx]
    · rw [List.filter_cons_of_neg hx]
      constructor
      · intro hfront
        have hnil : xs.filter p = [] := by
          cases hys : xs.filter p with
          | nil => rfl
          | cons y ys =>
            rw [hys, List.cons_prefix_cons] at hfront
            have hy : p y := List.of_mem_filter (hys ▸ List.mem_cons_self)
            exact absurd (hfront.1 ▸ hy) hx
        exact ⟨fun b hb hpb => absurd hpb (List.filter_eq_nil_iff.mp hnil b hb),
          ih.mp (by rw [hnil]; exact List.nil_prefix)⟩
      · rintro ⟨hhead, -⟩
        have hnil : xs.filter p = [] :=
          List.filter_eq_nil_iff.mpr fun b hb hpb => hx (hhead b hb hpb)
        rw [hnil]
        exact List.nil_prefix

/-- The positions in what is kept are the positions in the whole list exactly when the filter keeps
a front segment. -/
theorem getElem?_filter_iff {p : α → Bool} {xs : List α} :
    (∀ (i : Nat) (v : α), (xs.filter p)[i]? = some v → xs[i]? = some v) ↔ KeepsFront p xs := by
  rw [← filter_prefix_iff, List.prefix_iff_getElem?]
  constructor
  · intro h i hi
    exact h i _ (List.getElem?_eq_getElem hi)
  · intro h i v hv
    obtain ⟨hi, rfl⟩ := List.getElem?_eq_some_iff.mp hv
    exact h i hi

theorem filter_eq_filter_iff {p q : α → Bool} {xs : List α} :
    xs.filter p = xs.filter q ↔ ∀ x ∈ xs, (p x ↔ q x) := by
  constructor
  · intro h x hx
    have hmem : x ∈ xs.filter p ↔ x ∈ xs.filter q := by rw [h]
    simpa [List.mem_filter, hx] using hmem
  · intro h
    exact List.filter_congr fun x hx => Bool.eq_iff_iff.mpr (h x hx)

/-! ### Two ways to read a list -/

variable {β : Type} {f g : α → Option β}

theorem length_filterMap_le {xs : List α} (hle : ∀ x ∈ xs, ∀ b, g x = some b → f x = some b) :
    (xs.filterMap g).length ≤ (xs.filterMap f).length := by
  induction xs with
  | nil => exact le_rfl
  | cons x xs ih =>
    obtain ⟨hx, hxs⟩ := List.forall_mem_cons.mp hle
    cases hg : g x with
    | some b =>
      rw [List.filterMap_cons_some hg, List.filterMap_cons_some (hx b hg)]
      exact Nat.succ_le_succ (ih hxs)
    | none =>
      rw [List.filterMap_cons_none hg]
      refine (ih hxs).trans ?_
      rw [List.filterMap_cons]
      split <;> simp

/-- Where `f` reads all that `g` reads, going on with `f` reads no more exactly when there is no more
to read. -/
theorem filterMap_append_eq_iff {xs ys : List α}
    (hle : ∀ x ∈ xs, ∀ b, g x = some b → f x = some b) :
    (xs ++ ys).filterMap f = xs.filterMap g ↔ (∀ x ∈ xs, f x = g x) ∧ ∀ y ∈ ys, f y = none := by
  induction xs with
  | nil => simp
  | cons x xs ih =>
    obtain ⟨hx, hxs⟩ := List.forall_mem_cons.mp hle
    rw [List.cons_append, List.forall_mem_cons]
    cases hg : g x with
    | some b =>
      rw [List.filterMap_cons_some hg, List.filterMap_cons_some (hx b hg), List.cons_inj_right,
        ih hxs, hx b hg, and_iff_right rfl]
    | none =>
      rw [List.filterMap_cons_none hg]
      cases hf : f x with
      | none => rw [List.filterMap_cons_none hf, ih hxs, and_iff_right rfl]
      | some b =>
        constructor
        · intro h
          have hlen := congrArg List.length h
          have hshort := length_filterMap_le hxs
          rw [List.filterMap_cons_some hf, List.length_cons, List.filterMap_append,
            List.length_append] at hlen
          omega
        · rintro ⟨⟨h, -⟩, -⟩
          cases h

/-! ### Stripped parts -/

/-- `l` without the elements at either end that satisfy `p`. -/
def strip (p : α → Bool) (l : List α) : List α := (l.dropWhile p).rdropWhile p

variable {p : α → Bool}

theorem strip_cons {x : α} (hx : p x) (l : List α) : strip p (x :: l) = strip p l := by
  rw [strip, List.dropWhile_cons_of_pos hx, strip]

theorem strip_concat {x : α} (hx : p x) (l : List α) : strip p (l ++ [x]) = strip p l := by
  rw [strip, strip, List.dropWhile_append]
  split
  · next hempty =>
      rw [List.dropWhile_cons_of_pos hx, List.dropWhile_nil, List.isEmpty_iff.mp hempty]
  · exact List.rdropWhile_concat_pos _ _ _ hx

theorem strip_map {β : Type} (q : β → Bool) (f : α → β) (l : List α) :
    strip q (l.map f) = (strip (q ∘ f) l).map f := by
  simp only [strip, List.rdropWhile, List.dropWhile_map, ← List.map_reverse]

/-- What is left has no padding at either end. -/
theorem strip_strip (l : List α) : strip p (strip p l) = strip p l := by
  have hfront : (strip p l).dropWhile p = strip p l := by
    rw [List.dropWhile_eq_self_iff]
    intro hlen hp
    have hprefix : strip p l <+: l.dropWhile p := List.rdropWhile_prefix p _
    have hlen' : 0 < (l.dropWhile p).length := Nat.lt_of_lt_of_le hlen hprefix.length_le
    have hhead : (strip p l)[0] = (l.dropWhile p)[0] := by
      obtain ⟨rest, hrest⟩ := hprefix
      simp only [← hrest, List.getElem_append_left hlen]
    rw [hhead] at hp
    exact List.dropWhile_get_zero_not p l hlen' hp
  rw [strip, hfront, strip, List.rdropWhile_idempotent]

/-- A list whose ends are no padding is left as it is. -/
theorem strip_eq_self {l : List α} (hhead : ∀ x, l.head? = some x → p x = false)
    (hlast : ∀ x, l.getLast? = some x → p x = false) : strip p l = l := by
  have hfront : l.dropWhile p = l := by
    cases l with
    | nil => rfl
    | cons x l => exact List.dropWhile_cons_of_neg (by simp [hhead x rfl])
  rw [strip, hfront, List.rdropWhile_eq_self_iff]
  intro hne hp
  rw [hlast _ (List.getLast?_eq_some_getLast hne)] at hp
  exact Bool.false_ne_true hp

variable [BEq α] [LawfulBEq α] {c : α}

/-- Padding in front of the list is padding in front of its first part. -/
theorem map_strip_splitOn_cons {x : α} (hx : p x) (hc : p c = false) (l : List α) :
    ((x :: l).splitOn c).map (strip p) = (l.splitOn c).map (strip p) := by
  have hne : x ≠ c := by
    rintro rfl
    exact absurd hx (by simp [hc])
  rw [List.splitOn_cons_eq_if_modifyHead, if_neg (by simpa using hne)]
  cases hparts : l.splitOn c with
  | nil => rfl
  | cons part parts => simp [List.modifyHead, strip_cons hx]

/-- What follows the list follows its last part. -/
theorem splitOn_concat {x : α} (hx : x ≠ c) (l : List α) : ∃ parts last,
    l.splitOn c = parts ++ [last] ∧ (l ++ [x]).splitOn c = parts ++ [last ++ [x]] := by
  induction l with
  | nil => exact ⟨[], [], rfl, by simp [List.splitOn_cons_eq_if_modifyHead, hx]⟩
  | cons y l ih =>
    obtain ⟨parts, last, hl, hlx⟩ := ih
    rw [List.cons_append, List.splitOn_cons_eq_if_modifyHead, List.splitOn_cons_eq_if_modifyHead,
      hl, hlx]
    by_cases hy : y == c
    · exact ⟨[] :: parts, last, by simp [hy], by simp [hy]⟩
    · cases parts with
      | nil => exact ⟨[], y :: last, by simp [hy], by simp [hy]⟩
      | cons part parts => exact ⟨(y :: part) :: parts, last, by simp [hy], by simp [hy]⟩

theorem map_strip_splitOn_concat {x : α} (hx : p x) (hc : p c = false) (l : List α) :
    ((l ++ [x]).splitOn c).map (strip p) = (l.splitOn c).map (strip p) := by
  have hne : x ≠ c := by
    rintro rfl
    exact absurd hx (by simp [hc])
  obtain ⟨parts, last, hl, hlx⟩ := splitOn_concat hne l
  rw [hl, hlx, List.map_append, List.map_append]
  simp [strip_concat hx]

/-- The stripped parts of a list are those of the stripped list, when the separator is no
padding. -/
theorem map_strip_splitOn_strip (hc : p c = false) (l : List α) :
    ((strip p l).splitOn c).map (strip p) = (l.splitOn c).map (strip p) := by
  have hend : ∀ l : List α,
      ((l.rdropWhile p).splitOn c).map (strip p) = (l.splitOn c).map (strip p) := by
    intro l
    induction l using List.reverseRecOn with
    | nil => simp
    | append_singleton l x ih =>
      by_cases hx : p x
      · rw [List.rdropWhile_concat_pos _ _ _ hx, ih, map_strip_splitOn_concat hx hc]
      · rw [List.rdropWhile_concat_neg _ _ _ hx]
  rw [strip, hend]
  induction l with
  | nil => rfl
  | cons x l ih =>
    by_cases hx : p x
    · rw [List.dropWhile_cons_of_pos hx, ih, map_strip_splitOn_cons hx hc]
    · rw [List.dropWhile_cons_of_neg hx]

end Xylitol
