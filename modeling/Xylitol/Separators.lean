import Mathlib

/-!
# Texts joined by separators

A text that does not contain the separator behind it can be cut out of a joined text again. One that
may contain it cannot: the text `p₂` can go on where `p₁` ends, through the separators and into the
last part.

    p₁ a c₁ b d₁              p₁ s c₁ s d₁
    ───── p₂ ────── a c₂ b d₂      ──── p₂ ──── s c₂ s d₂
-/

namespace Xylitol

variable {α : Type*}

/-- Two texts that do not contain the separator behind them. -/
theorem append_sep_cancel {b : α} {c₁ c₂ d₁ d₂ : List α} (h₁ : b ∉ c₁) (h₂ : b ∉ c₂)
    (h : c₁ ++ b :: d₁ = c₂ ++ b :: d₂) : c₁ = c₂ ∧ d₁ = d₂ := by
  induction c₁ generalizing c₂ with
  | nil =>
      cases c₂ with
      | nil => exact ⟨rfl, List.tail_eq_of_cons_eq h⟩
      | cons x c₂ =>
          rw [List.nil_append, List.cons_append, List.cons.injEq] at h
          exact absurd (h.1 ▸ List.mem_cons_self) h₂
  | cons x c₁ ih =>
      cases c₂ with
      | nil =>
          rw [List.nil_append, List.cons_append, List.cons.injEq] at h
          exact absurd (h.1 ▸ List.mem_cons_self) h₁
      | cons y c₂ =>
          rw [List.cons_append, List.cons_append, List.cons.injEq] at h
          rw [List.mem_cons, not_or] at h₁ h₂
          obtain ⟨rfl, rfl⟩ := ih h₁.2 h₂.2 h.2
          exact ⟨by rw [h.1], rfl⟩

/-- A text without the separator is in front of the separator or behind it. -/
theorem infix_append_cons {c : α} {xs a b : List α} (hc : c ∉ xs) (h : xs <:+: a ++ c :: b) :
    xs <:+: a ∨ xs <:+: b := by
  obtain ⟨s, t, hst⟩ := h
  rcases List.append_eq_append_iff.mp hst with ⟨w, rfl, -⟩ | ⟨w, hsx, hw⟩
  · exact Or.inl ⟨s, w, rfl⟩
  · cases w with
    | nil =>
        rw [List.append_nil] at hsx
        exact Or.inl ⟨s, [], by rw [List.append_nil, hsx]⟩
    | cons y w =>
        rw [List.cons_append, List.cons.injEq] at hw
        obtain ⟨rfl, rfl⟩ := hw
        rcases List.append_eq_append_iff.mp hsx with ⟨u, rfl, rfl⟩ | ⟨u, rfl, hu⟩
        · exact absurd (List.mem_append_right u List.mem_cons_self) hc
        · cases u with
          | nil =>
              rw [List.nil_append] at hu
              exact absurd (hu ▸ List.mem_cons_self) hc
          | cons z u =>
              rw [List.cons_append, List.cons.injEq] at hu
              rw [hu.2]
              exact Or.inr ⟨u, t, rfl⟩

/-- The second text starts with the first one, its separators and some `w`. -/
theorem append_sep_shift {a b : α} {v c₁ c₂ d₁ d₂ : List α} (hab : a ≠ b) (h₁ : a ∉ c₁)
    (h : c₁ ++ b :: d₁ = v ++ a :: (c₂ ++ b :: d₂)) :
    ∃ w, v = c₁ ++ b :: w ∧ d₁ = w ++ a :: (c₂ ++ b :: d₂) := by
  rcases List.append_eq_append_iff.mp h with ⟨u, rfl, hu⟩ | ⟨u, rfl, hu⟩
  · cases u with
    | nil => exact absurd (List.head_eq_of_cons_eq hu).symm hab
    | cons x w =>
        rw [List.cons_append, List.cons.injEq] at hu
        exact ⟨w, by rw [hu.1], hu.2⟩
  · -- the separator `a` would be inside `c₁`
    cases u with
    | nil => exact absurd (List.head_eq_of_cons_eq hu) hab
    | cons x w =>
        rw [List.cons_append, List.cons.injEq] at hu
        refine absurd ?_ h₁
        rw [hu.1]
        exact List.mem_append_right _ List.mem_cons_self

/-- All ways in which two texts `p a c b d` agree when neither separator occurs in the middle part. -/
theorem two_seps_eq_iff {a b : α} {p₁ p₂ c₁ c₂ d₁ d₂ : List α} (hab : a ≠ b)
    (ha₁ : a ∉ c₁) (hb₁ : b ∉ c₁) (ha₂ : a ∉ c₂) (hb₂ : b ∉ c₂) :
    p₁ ++ a :: (c₁ ++ b :: d₁) = p₂ ++ a :: (c₂ ++ b :: d₂) ↔
      (p₁ = p₂ ∧ c₁ = c₂ ∧ d₁ = d₂) ∨
      (∃ w, p₂ = p₁ ++ a :: (c₁ ++ b :: w) ∧ d₁ = w ++ a :: (c₂ ++ b :: d₂)) ∨
      ∃ w, p₁ = p₂ ++ a :: (c₂ ++ b :: w) ∧ d₂ = w ++ a :: (c₁ ++ b :: d₁) := by
  constructor
  · intro h
    -- one of the texts in front is where the other one begins
    rcases List.append_eq_append_iff.mp h with ⟨u, rfl, hu⟩ | ⟨u, rfl, hu⟩
    · cases u with
      | nil =>
          obtain ⟨rfl, rfl⟩ := append_sep_cancel hb₁ hb₂ (List.tail_eq_of_cons_eq hu)
          exact Or.inl ⟨(List.append_nil _).symm, rfl, rfl⟩
      | cons x v =>
          rw [List.cons_append, List.cons.injEq] at hu
          obtain ⟨w, rfl, rfl⟩ := append_sep_shift hab ha₁ hu.2
          exact Or.inr (Or.inl ⟨w, by rw [hu.1], rfl⟩)
    · cases u with
      | nil =>
          obtain ⟨rfl, rfl⟩ := append_sep_cancel hb₂ hb₁ (List.tail_eq_of_cons_eq hu)
          exact Or.inl ⟨List.append_nil _, rfl, rfl⟩
      | cons x v =>
          rw [List.cons_append, List.cons.injEq] at hu
          obtain ⟨w, rfl, rfl⟩ := append_sep_shift hab ha₂ hu.2
          exact Or.inr (Or.inr ⟨w, by rw [hu.1], rfl⟩)
  · rintro (⟨rfl, rfl, rfl⟩ | ⟨w, rfl, rfl⟩ | ⟨w, rfl, rfl⟩) <;> simp

/-! ## One separator between all parts -/

/-- A text up to a separator is the first part alone, or the first part and more. -/
theorem append_sep_through {s : α} {c d u r : List α} (hc : s ∉ c)
    (h : c ++ s :: d = u ++ s :: r) : ∃ t, u ++ [s] = c ++ s :: t ∧ d = t ++ r := by
  induction c generalizing u with
  | nil =>
      cases u with
      | nil => exact ⟨[], rfl, List.tail_eq_of_cons_eq h⟩
      | cons x u =>
          rw [List.nil_append, List.cons_append, List.cons.injEq] at h
          refine ⟨u ++ [s], ?_, ?_⟩
          · rw [h.1]
            rfl
          · rw [h.2, List.append_assoc]
            rfl
  | cons y c ih =>
      rw [List.mem_cons, not_or] at hc
      cases u with
      | nil => exact absurd (List.head_eq_of_cons_eq h).symm hc.1
      | cons x u =>
          rw [List.cons_append, List.cons_append, List.cons.injEq] at h
          obtain ⟨t, hu, hd⟩ := ih hc.2 h.2
          refine ⟨t, ?_, hd⟩
          rw [h.1, List.cons_append, List.cons_append, hu]

/-- What follows a text that is shorter by a whole part is the other text's parts. -/
theorem sep_append_shift {s : α} {p₁ p₂ c d r u : List α} (hc : s ∉ c) (hu : u ≠ [])
    (hp : p₂ ++ [s] = p₁ ++ [s] ++ u) (h : c ++ s :: d = u ++ r) :
    ∃ t, p₂ ++ [s] = p₁ ++ s :: (c ++ s :: t) ∧ d = t ++ r := by
  -- `u` ends with the separator, as the text it is the end of does
  obtain ⟨u, x, rfl⟩ := (List.eq_nil_or_concat' u).resolve_left hu
  rw [← List.append_assoc] at hp
  obtain ⟨rfl, hx⟩ := List.append_inj' hp rfl
  cases hx
  rw [List.append_assoc] at h
  obtain ⟨t, ht, hd⟩ := append_sep_through hc h
  refine ⟨t, ?_, hd⟩
  rw [List.append_assoc, ht, List.append_assoc]
  rfl

/-- All ways in which two texts `p s c s d` agree when the separator does not occur in the middle
part. -/
theorem one_sep_eq_iff {s : α} {p₁ p₂ c₁ c₂ d₁ d₂ : List α} (h₁ : s ∉ c₁) (h₂ : s ∉ c₂) :
    p₁ ++ s :: (c₁ ++ s :: d₁) = p₂ ++ s :: (c₂ ++ s :: d₂) ↔
      (p₁ = p₂ ∧ c₁ = c₂ ∧ d₁ = d₂) ∨
      (∃ t, p₂ ++ [s] = p₁ ++ s :: (c₁ ++ s :: t) ∧ d₁ = t ++ (c₂ ++ s :: d₂)) ∨
      ∃ t, p₁ ++ [s] = p₂ ++ s :: (c₂ ++ s :: t) ∧ d₂ = t ++ (c₁ ++ s :: d₁) := by
  have hsplit : ∀ p r : List α, p ++ s :: r = p ++ [s] ++ r := by simp
  constructor
  · intro h
    rw [hsplit p₁, hsplit p₂] at h
    rcases List.append_eq_append_iff.mp h with ⟨u, hp, hu⟩ | ⟨u, hp, hu⟩
    · by_cases hnil : u = []
      · subst hnil
        rw [List.append_nil] at hp
        obtain ⟨rfl, rfl⟩ := append_sep_cancel h₁ h₂ hu
        exact Or.inl ⟨(List.append_cancel_right hp).symm, rfl, rfl⟩
      · exact Or.inr (Or.inl (sep_append_shift h₁ hnil hp hu))
    · by_cases hnil : u = []
      · subst hnil
        rw [List.append_nil] at hp
        obtain ⟨rfl, rfl⟩ := append_sep_cancel h₂ h₁ hu
        exact Or.inl ⟨List.append_cancel_right hp, rfl, rfl⟩
      · exact Or.inr (Or.inr (sep_append_shift h₂ hnil hp hu))
  · rintro (⟨rfl, rfl, rfl⟩ | ⟨t, hp, rfl⟩ | ⟨t, hp, rfl⟩)
    · rfl
    · rw [hsplit p₂, hp]
      simp
    · rw [hsplit p₁, hp]
      simp

end Xylitol
