import Xylitol.Panic

/-!
# Computations that reserve memory

`Vec::with_capacity` reserves room before anything is known about the data that is to fill it. A
metered computation is one that keeps a record of what it asked for; asking for more bytes than an
`isize` counts is a panic. What one asks for is said beside the plain computation it runs along:

    Meters w m x D     m computes x, and on the way to it asks for what D lists

The relation composes along `do` blocks (`Meters.bind`), so what a reader asks for is read off its
text; what that means for a limit on the requests is said once, in `Meters.within_iff`.
-/

namespace Xylitol

/-- `f` on the code's own error. -/
def Fault.map {ε ε' : Type} (f : ε → ε') : Fault ε → Fault ε'
  | .err e => .err (f e)
  | .panic => .panic
  | .spent => .spent

/-- Room for `count` elements of `size` bytes each. -/
structure Request where
  count : Nat
  size : Nat
  deriving DecidableEq, Repr

/-- No more bytes than `isize::MAX`. -/
def Request.Fits (w : PtrWidth) (r : Request) : Prop := r.count * r.size < w.size / 2

instance (w : PtrWidth) (r : Request) : Decidable (r.Fits w) :=
  inferInstanceAs (Decidable (_ < _))

/-- What a computation has asked for, in order, and how it ended. -/
structure Metered (ε α : Type) where
  requests : List Request
  result : Checked ε α

namespace Metered

variable {ε α β : Type}

/-- A computation that asks for nothing. -/
def plain (x : Except ε α) : Metered ε α := ⟨[], Checked.lift x⟩

/-- `Vec::with_capacity(count)`, for elements of `size` bytes. -/
def withCapacity (w : PtrWidth) (count size : Nat) : Metered ε Unit :=
  ⟨[⟨count, size⟩], if (⟨count, size⟩ : Request).Fits w then .ok () else .error .panic⟩

/-- The computation, once these requests have been made. -/
def after (requests : List Request) (m : Metered ε α) : Metered ε α :=
  ⟨requests ++ m.requests, m.result⟩

instance : Monad (Metered ε) where
  pure a := plain (.ok a)
  bind m f :=
    match m.result with
    | .ok a => (f a).after m.requests
    | .error e => ⟨m.requests, .error e⟩

/-- The requests are no larger than `bound`, and none of them is a panic. -/
structure Within (bound : Nat) (m : Metered ε α) : Prop where
  requests : ∀ r ∈ m.requests, r.count ≤ bound
  calm : m.result ≠ .error .panic

/-- `m.map_err(f)`. -/
def mapError {ε' : Type} (f : ε → ε') (m : Metered ε α) : Metered ε' α :=
  ⟨m.requests, m.result.mapError (Fault.map f)⟩

theorem bind_of_ok {m : Metered ε α} {a : α} (h : m.result = .ok a) (f : α → Metered ε β) :
    m >>= f = (f a).after m.requests := by
  show (match m.result with | .ok a => _ | .error e => _) = _
  rw [h]

theorem bind_of_error {m : Metered ε α} {e : Fault ε} (h : m.result = .error e)
    (f : α → Metered ε β) : m >>= f = ⟨m.requests, .error e⟩ := by
  show (match m.result with | .ok a => _ | .error e => _) = _
  rw [h]

end Metered

/-! ## What a computation asks for -/

open Metered

variable {ε α β : Type} {w : PtrWidth}

/-- `m` runs along `x`. Every request is one of `D`; while they all fit, `m` ends as `x` does and has
made every request of `D`; one that does not fit is the end of it. -/
structure Meters (w : PtrWidth) (m : Metered ε α) (x : Except ε α) (D : Request → Prop) : Prop where
  listed : ∀ r ∈ m.requests, D r
  result : (∀ r ∈ m.requests, r.Fits w) → m.result = Checked.lift x
  made : (∀ r ∈ m.requests, r.Fits w) → ∀ r, D r → r ∈ m.requests
  panics : (∃ r ∈ m.requests, ¬ r.Fits w) → m.result = .error .panic

namespace Meters

variable {m : Metered ε α} {x : Except ε α} {D : Request → Prop}

theorem plain (x : Except ε α) : Meters w (plain x) x fun _ => False where
  listed r hr := nomatch hr
  result _ := rfl
  made _ _ h := h.elim
  panics h := by
    obtain ⟨r, hr, -⟩ := h
    cases hr

theorem pure (a : α) : Meters w (pure a : Metered ε α) (.ok a) fun _ => False := plain (.ok a)

theorem withCapacity (count size : Nat) :
    Meters w (withCapacity w count size : Metered ε Unit) (.ok ()) (· = ⟨count, size⟩) where
  listed r hr := List.mem_singleton.mp hr
  result h := if_pos (h _ List.mem_cons_self)
  made _ r hr := List.mem_singleton.mpr hr
  panics h := by
    obtain ⟨r, hr, hfits⟩ := h
    rw [List.mem_singleton.mp hr] at hfits
    exact if_neg hfits

theorem congr {D' : Request → Prop} (h : Meters w m x D) (hD : ∀ r, D r ↔ D' r) :
    Meters w m x D' := by
  obtain rfl : D = D' := funext fun r => propext (hD r)
  exact h

/-- Two steps ask for what the first asks for, and for what the second does when it is come to. -/
theorem bind {f : α → Metered ε β} {y : α → Except ε β} {E : α → Request → Prop}
    (hm : Meters w m x D) (hf : ∀ a, x = .ok a → Meters w (f a) (y a) (E a)) :
    Meters w (m >>= f) (x >>= y) fun r => D r ∨ ∃ a, x = .ok a ∧ E a r := by
  by_cases hfits : ∀ r ∈ m.requests, r.Fits w
  · have hresult := hm.result hfits
    cases x with
    | error e =>
      rw [bind_of_error hresult]
      refine ⟨fun r hr => Or.inl (hm.listed r hr), fun _ => rfl, ?_, ?_⟩
      · rintro - r (hr | ⟨a, ha, -⟩)
        · exact hm.made hfits r hr
        · cases ha
      · rintro ⟨r, hr, hno⟩
        exact absurd (hfits r hr) hno
    | ok a =>
      have ha := hf a rfl
      rw [bind_of_ok hresult]
      have hrest : (∀ r ∈ m.requests ++ (f a).requests, r.Fits w) →
          ∀ r ∈ (f a).requests, r.Fits w := fun h r hr => h r (List.mem_append_right _ hr)
      refine ⟨?_, fun h => ha.result (hrest h), ?_, ?_⟩
      · intro r hr
        rcases List.mem_append.mp hr with hr | hr
        · exact Or.inl (hm.listed r hr)
        · exact Or.inr ⟨a, rfl, ha.listed r hr⟩
      · rintro h r (hr | ⟨b, hb, hr⟩)
        · exact List.mem_append_left _ (hm.made hfits r hr)
        · cases hb
          exact List.mem_append_right _ (ha.made (hrest h) r hr)
      · rintro ⟨r, hr, hno⟩
        rcases List.mem_append.mp hr with hr | hr
        · exact absurd (hfits r hr) hno
        · exact ha.panics ⟨r, hr, hno⟩
  · push Not at hfits
    rw [bind_of_error (hm.panics hfits)]
    refine ⟨fun r hr => Or.inl (hm.listed r hr), ?_, ?_, fun _ => rfl⟩
    · intro h
      obtain ⟨r, hr, hno⟩ := hfits
      exact absurd (h r hr) hno
    · intro h
      obtain ⟨r, hr, hno⟩ := hfits
      exact absurd (h r hr) hno

/-- Room is made, and then one step is taken. -/
theorem withCapacity_bind {count size : Nat} {f : Unit → Metered ε α} (hf : Meters w (f ()) x D) :
    Meters w (Metered.withCapacity w count size >>= f) x fun r => r = ⟨count, size⟩ ∨ D r := by
  have hbind : Meters w (Metered.withCapacity w count size >>= f) x _ :=
    (withCapacity count size).bind fun _ _ => hf
  apply hbind.congr
  intro r
  simp

/-- A step that is known to succeed. -/
theorem ok_bind {a : α} {f : α → Metered ε β} {y : α → Except ε β} (hx : x = .ok a)
    (hf : Meters w (f a) (y a) D) : Meters w (Metered.plain x >>= f) (x >>= y) D := by
  subst hx
  exact hf

/-- A step that is known to fail. -/
theorem error_bind {e : ε} (hx : x = .error e) (f : α → Metered ε β) (y : α → Except ε β) :
    Meters w (Metered.plain x >>= f) (x >>= y) fun _ => False := by
  subst hx
  exact plain (.error e)

/-- A result put in shape. -/
theorem bind_pure (h : Meters w m x D) (f : α → β) :
    Meters w (m >>= fun a => Pure.pure (f a)) (x >>= fun a => Pure.pure (f a)) D := by
  have hbind : Meters w (m >>= fun a => Pure.pure (f a)) (x >>= fun a => Pure.pure (f a)) _ :=
    h.bind fun a _ => pure (f a)
  apply hbind.congr
  intro r
  simp

theorem mapError {ε' : Type} (f : ε → ε') (h : Meters w m x D) :
    Meters w (m.mapError f) (x.mapError f) D where
  listed := h.listed
  result hfits := by
    show m.result.mapError _ = _
    rw [h.result hfits]
    cases x <;> rfl
  made := h.made
  panics hno := by
    show m.result.mapError _ = _
    rw [h.panics hno]
    rfl

/-- It ends in a panic exactly when something that may be asked for does not fit. -/
theorem panics_iff (h : Meters w m x D) :
    m.result = .error .panic ↔ ∃ r, D r ∧ ¬ r.Fits w := by
  by_cases hfits : ∀ r ∈ m.requests, r.Fits w
  · have hcalm : m.result ≠ .error .panic := by
      rw [h.result hfits]
      cases x with
      | error e => simp
      | ok a => simp
    apply iff_of_false hcalm
    rintro ⟨r, hr, hno⟩
    exact hno (hfits r (h.made hfits r hr))
  · push Not at hfits
    apply iff_of_true (h.panics hfits)
    obtain ⟨r, hr, hno⟩ := hfits
    exact ⟨r, h.listed r hr, hno⟩

/-- A limit is kept exactly when everything that may be asked for keeps it, and fits. -/
theorem within_iff (h : Meters w m x D) (bound : Nat) :
    m.Within bound ↔ ∀ r, D r → r.count ≤ bound ∧ r.Fits w := by
  constructor
  · intro hwithin
    have hfits : ∀ r, D r → r.Fits w := by
      by_contra hno
      push Not at hno
      exact hwithin.calm (h.panics_iff.mpr hno)
    intro r hr
    have hmade := h.made (fun r hr => hfits r (h.listed r hr)) r hr
    exact ⟨hwithin.requests r hmade, hfits r hr⟩
  · intro hall
    refine ⟨fun r hr => (hall r (h.listed r hr)).1, ?_⟩
    intro hpanic
    obtain ⟨r, hr, hno⟩ := h.panics_iff.mp hpanic
    exact hno (hall r hr).2

theorem eq_ok (h : Meters w m x D) {a : α} (hm : m.result = .ok a) : x = .ok a := by
  by_cases hfits : ∀ r ∈ m.requests, r.Fits w
  · rw [h.result hfits] at hm
    exact mapError_eq_ok.mp hm
  · push Not at hfits
    rw [h.panics hfits] at hm
    cases hm

end Meters

/-! ## Loops that stop at the first failure -/

/-- A loop over `xs` that goes on past what is `Good` comes to an element with `P`. -/
def ComesTo (Good P : α → Prop) (xs : List α) : Prop :=
  ∃ before x after, xs = before ++ x :: after ∧ (∀ y ∈ before, Good y) ∧ P x

theorem not_comesTo_nil {Good P : α → Prop} : ¬ ComesTo Good P [] := by
  rintro ⟨before, x, after, h, -⟩
  exact List.append_ne_nil_of_right_ne_nil before (List.cons_ne_nil x after) h.symm

theorem comesTo_cons {Good P : α → Prop} {x : α} {xs : List α} :
    ComesTo Good P (x :: xs) ↔ P x ∨ Good x ∧ ComesTo Good P xs := by
  constructor
  · rintro ⟨before, y, after, h, hgood, hy⟩
    cases before with
    | nil =>
      cases h
      exact Or.inl hy
    | cons b before =>
      cases h
      obtain ⟨hb, hgood⟩ := List.forall_mem_cons.mp hgood
      exact Or.inr ⟨hb, before, y, after, rfl, hgood, hy⟩
  · rintro (hx | ⟨hx, before, y, after, rfl, hgood, hy⟩)
    · exact ⟨[], x, xs, rfl, by simp, hx⟩
    · exact ⟨x :: before, y, after, rfl, List.forall_mem_cons.mpr ⟨hx, hgood⟩, hy⟩

end Xylitol
