import Xylitol.Bytes
import Xylitol.Result

/-!
# Readers over a cursor

A reader takes values off a byte buffer at a cursor and may fail. Its specification is one relation:

    Consumes w p xs a     standing in front of `xs`, `p` returns `a` and stops right after `xs`

whatever lies before the cursor or after `xs`. The relation composes along `do` blocks
(`Consumes.bind`), so the specification of a reader is read off its text field by field, and a
layout written as the concatenation of its fields is decoded by the reader that reads them in turn.
-/

namespace Xylitol

/-! ## The cursor -/

structure Cursor where
  buf : Bytes
  pos : Nat

namespace Cursor

def new (buf : Bytes) : Cursor := ⟨buf, 0⟩

def remaining (c : Cursor) : Nat := c.buf.length - c.pos

/-- What lies ahead of the cursor. -/
def rest (c : Cursor) : Bytes := c.buf.drop c.pos

/-- The cursor `n` bytes further on. -/
def skip (c : Cursor) (n : Nat) : Cursor := { c with pos := c.pos + n }

@[simp] theorem buf_skip (c : Cursor) (n : Nat) : (c.skip n).buf = c.buf := rfl

@[simp] theorem pos_skip (c : Cursor) (n : Nat) : (c.skip n).pos = c.pos + n := rfl

@[simp] theorem skip_skip (c : Cursor) (m n : Nat) : (c.skip m).skip n = c.skip (m + n) := by
  simp [skip, Nat.add_assoc]

theorem length_rest_eq (c : Cursor) : c.rest.length = c.remaining := List.length_drop

theorem rest_skip_eq_drop (c : Cursor) (n : Nat) : (c.skip n).rest = c.rest.drop n := by
  simp only [rest, skip, List.drop_drop]

theorem rest_skip {c : Cursor} {xs suf : Bytes} (h : c.rest = xs ++ suf) :
    (c.skip xs.length).rest = suf := by
  rw [rest_skip_eq_drop, h, List.drop_left]

/-- The cursor is inside its buffer, and the buffer fits the address space. -/
structure Ok (w : PtrWidth) (c : Cursor) : Prop where
  pos_le : c.pos ≤ c.buf.length
  fits : c.buf.length < w.size

theorem Ok.length_rest {w : PtrWidth} {c : Cursor} (h : c.Ok w) :
    c.pos + c.rest.length = c.buf.length := by
  have := h.pos_le
  simp only [rest, List.length_drop]
  omega

theorem Ok.skip_of_le {w : PtrWidth} {c : Cursor} {n : Nat} (h : c.Ok w)
    (hn : n ≤ c.rest.length) : (c.skip n).Ok w := by
  refine ⟨?_, h.fits⟩
  have hlen := h.length_rest
  simp only [pos_skip, buf_skip]
  omega

theorem Ok.skip {w : PtrWidth} {c : Cursor} {xs suf : Bytes} (h : c.Ok w)
    (hrest : c.rest = xs ++ suf) : (c.skip xs.length).Ok w := by
  apply h.skip_of_le
  rw [hrest, List.length_append]
  exact Nat.le_add_right _ _

/-- The bytes ahead of a cursor, as a buffer of their own. -/
theorem Ok.new {w : PtrWidth} {c : Cursor} {xs suf : Bytes} (h : c.Ok w)
    (hrest : c.rest = xs ++ suf) : (Cursor.new xs).Ok w := by
  refine ⟨Nat.zero_le _, ?_⟩
  have hlen := h.length_rest
  have hfits := h.fits
  rw [hrest, List.length_append] at hlen
  show xs.length < w.size
  omega

/-- `k` bytes into `xs`, in a buffer of its own and wherever else `xs` stands. -/
theorem Ok.within {w : PtrWidth} {c : Cursor} {xs suf : Bytes} {k : Nat} (h : c.Ok w)
    (hrest : c.rest = xs ++ suf) (hk : k ≤ xs.length) :
    (⟨xs, k⟩ : Cursor).Ok w ∧ (c.skip k).Ok w ∧ (c.skip k).rest = xs.drop k ++ suf := by
  refine ⟨⟨hk, (h.new hrest).fits⟩, ?_, ?_⟩
  · apply h.skip_of_le
    rw [hrest, List.length_append]
    omega
  · rw [rest_skip_eq_drop, hrest, List.drop_append_of_le_length hk]

theorem ok_of_append {w : PtrWidth} {pre suf : Bytes} (h : (pre ++ suf).length < w.size) :
    (⟨pre ++ suf, pre.length⟩ : Cursor).Ok w :=
  ⟨by simp, h⟩

theorem rest_of_append (pre suf : Bytes) : (⟨pre ++ suf, pre.length⟩ : Cursor).rest = suf :=
  List.drop_left

end Cursor

/-! ## Readers -/

/-- A computation that moves a cursor and may fail with an `ε`. -/
abbrev Reader (ε α : Type) := StateT Cursor (Except ε) α

variable {ε α β : Type} {w : PtrWidth}

/-- In front of `xs` the reader returns `a` and stops right after `xs`. -/
def Consumes (w : PtrWidth) (p : Reader ε α) (xs : Bytes) (a : α) : Prop :=
  ∀ (c : Cursor) (suf : Bytes), c.Ok w → c.rest = xs ++ suf →
    p.run c = .ok (a, c.skip xs.length)

theorem Consumes.pure (a : α) : Consumes w (pure a : Reader ε α) [] a := by
  intro c suf _ _
  rfl

theorem Consumes.bind {p : Reader ε α} {f : α → Reader ε β} {xs ys : Bytes} {a : α} {b : β}
    (hp : Consumes w p xs a) (hf : Consumes w (f a) ys b) :
    Consumes w (p >>= f) (xs ++ ys) b := by
  intro c suf hok hrest
  rw [List.append_assoc] at hrest
  have h₁ := hp c (ys ++ suf) hok hrest
  have h₂ := hf (c.skip xs.length) suf (hok.skip hrest) (Cursor.rest_skip hrest)
  rw [StateT.run_bind, h₁, ok_bind, h₂, Cursor.skip_skip, List.length_append]

/-- A reader followed by a pure step consumes what the reader consumes. -/
theorem Consumes.bind_pure {p : Reader ε α} {xs : Bytes} {a : α} (f : α → β)
    (hp : Consumes w p xs a) : Consumes w (p >>= fun a => Pure.pure (f a)) xs (f a) := by
  have h : Consumes w (p >>= fun a => Pure.pure (f a)) (xs ++ []) (f a) :=
    Consumes.bind hp (Consumes.pure (f a))
  rwa [List.append_nil] at h

/-! ## Readers and the buffer -/

/-- The reader moves the cursor and leaves the buffer as it is. -/
def Keeps (p : Reader ε α) : Prop :=
  ∀ (c : Cursor) (a : α) (c' : Cursor), p.run c = .ok (a, c') → c'.buf = c.buf

theorem Keeps.pure (a : α) : Keeps (pure a : Reader ε α) := by
  intro c b c' h
  cases h
  rfl

theorem Keeps.bind {p : Reader ε α} {f : α → Reader ε β} (hp : Keeps p) (hf : ∀ a, Keeps (f a)) :
    Keeps (p >>= f) := by
  intro c b c' h
  obtain ⟨⟨a, c₁⟩, hp', hf'⟩ := bind_eq_ok.mp h
  rw [hf a c₁ b c' hf', hp c a c₁ hp']

/-! ## Readers at the end of their input -/

/-- In front of a strict prefix of `xs`, with nothing behind it, the reader fails. -/
def Starves (w : PtrWidth) (p : Reader ε α) (xs : Bytes) : Prop :=
  ∀ (c : Cursor) (r : Nat), c.Ok w → r < xs.length → c.rest = xs.take r →
    ∃ e, p.run c = .error e

theorem Starves.nil (p : Reader ε α) : Starves w p [] := by
  intro c r _ hr _
  exact absurd hr (Nat.not_lt_zero r)

theorem Starves.bind {p : Reader ε α} {f : α → Reader ε β} {xs ys : Bytes} {a : α}
    (hp : Consumes w p xs a) (hs : Starves w p xs) (hf : Starves w (f a) ys) :
    Starves w (p >>= f) (xs ++ ys) := by
  intro c r hok hr hrest
  by_cases hcut : r < xs.length
  · rw [List.take_append_of_le_length (Nat.le_of_lt hcut)] at hrest
    obtain ⟨e, he⟩ := hs c r hok hcut hrest
    refine ⟨e, ?_⟩
    rw [StateT.run_bind, he, error_bind]
  · have hle : xs.length ≤ r := Nat.le_of_not_lt hcut
    rw [List.take_append, List.take_of_length_le hle] at hrest
    have hlt : r - xs.length < ys.length := by
      rw [List.length_append] at hr
      omega
    obtain ⟨e, he⟩ := hf (c.skip xs.length) (r - xs.length) (hok.skip hrest) hlt
      (Cursor.rest_skip hrest)
    refine ⟨e, ?_⟩
    rw [StateT.run_bind, hp c _ hok hrest, ok_bind, he]

theorem Starves.bind_pure {p : Reader ε α} {xs : Bytes} (f : α → β) (hs : Starves w p xs) :
    Starves w (p >>= fun a => Pure.pure (f a)) xs := by
  intro c r hok hr hrest
  obtain ⟨e, he⟩ := hs c r hok hr hrest
  refine ⟨e, ?_⟩
  rw [StateT.run_bind, he, error_bind]

/-! ## Readers and what stands behind their input -/

section

-- the errors for want of bytes
variable {Short : ε → Prop}

/-- With fewer than `n` bytes ahead, the reader is short of bytes. -/
def Wants (w : PtrWidth) (Short : ε → Prop) (p : Reader ε α) (n : Nat) : Prop :=
  ∀ c : Cursor, c.Ok w → c.rest.length < n → ∃ e, Short e ∧ p.run c = .error e

/-- The reader takes `n` bytes, whichever they are. -/
structure Takes (w : PtrWidth) (Short : ε → Prop) (p : Reader ε α) (n : Nat) : Prop where
  full : ∀ c : Cursor, c.Ok w → n ≤ c.rest.length → ∃ a, p.run c = .ok (a, c.skip n)
  wants : Wants w Short p n

theorem Wants.zero (p : Reader ε α) : Wants w Short p 0 := by
  intro c _ hlt
  exact absurd hlt (Nat.not_lt_zero _)

theorem Takes.bind_wants {p : Reader ε α} {f : α → Reader ε β} {m n : Nat}
    (hp : Takes w Short p m) (hf : ∀ a, Wants w Short (f a) n) :
    Wants w Short (p >>= f) (m + n) := by
  intro c hok hlt
  rw [StateT.run_bind]
  by_cases hm : m ≤ c.rest.length
  · obtain ⟨a, ha⟩ := hp.full c hok hm
    rw [ha, ok_bind]
    apply hf a _ (hok.skip_of_le hm)
    rw [Cursor.rest_skip_eq_drop, List.length_drop]
    omega
  · obtain ⟨e, hshort, he⟩ := hp.wants c hok (Nat.lt_of_not_le hm)
    exact ⟨e, hshort, by rw [he, error_bind]⟩

theorem Takes.pure (a : α) : Takes w Short (pure a : Reader ε α) 0 :=
  ⟨fun _ _ _ => ⟨a, rfl⟩, .zero _⟩

theorem Takes.bind {p : Reader ε α} {f : α → Reader ε β} {m n : Nat} (hp : Takes w Short p m)
    (hf : ∀ a, Takes w Short (f a) n) : Takes w Short (p >>= f) (m + n) := by
  refine ⟨?_, hp.bind_wants fun a => (hf a).wants⟩
  intro c hok hlen
  have hm : m ≤ c.rest.length := by omega
  obtain ⟨a, ha⟩ := hp.full c hok hm
  have hn : n ≤ (c.skip m).rest.length := by
    rw [Cursor.rest_skip_eq_drop, List.length_drop]
    omega
  obtain ⟨b, hb⟩ := (hf a).full _ (hok.skip_of_le hm) hn
  exact ⟨b, by rw [StateT.run_bind, ha, ok_bind, hb, Cursor.skip_skip]⟩

/-- What the reader makes of `xs` is the same wherever `xs` stands and whatever stands behind it,
unless it wants more bytes. -/
structure Stable (w : PtrWidth) (Short : ε → Prop) (p : Reader ε α) : Prop where
  ok : ∀ {c d : Cursor} {xs suf : Bytes} {a : α}, c.Ok w → c.rest = xs ++ suf →
    p.run (Cursor.new xs) = .ok (a, d) →
    ∃ k, k ≤ xs.length ∧ d = ⟨xs, k⟩ ∧ p.run c = .ok (a, c.skip k)
  error : ∀ {c : Cursor} {xs suf : Bytes} {e : ε}, c.Ok w → c.rest = xs ++ suf →
    p.run (Cursor.new xs) = .error e → ¬ Short e → p.run c = .error e
  short : ∀ {c : Cursor} {e : ε}, c.Ok w → p.run (Cursor.new c.rest) = .error e → Short e →
    ∃ e', Short e' ∧ p.run c = .error e'

theorem Stable.pure (a : α) : Stable w Short (pure a : Reader ε α) := by
  constructor
  · rintro c d xs suf b _ _ ⟨⟩
    exact ⟨0, Nat.zero_le _, rfl, rfl⟩
  · rintro c xs suf e _ _ ⟨⟩
  · rintro c e _ ⟨⟩

theorem Stable.throw {e : ε} (h : ¬ Short e) : Stable w Short (throw e : Reader ε α) := by
  constructor
  · rintro c d xs suf b _ _ ⟨⟩
  · rintro c xs suf e _ _ ⟨⟩ _
    rfl
  · rintro c e _ ⟨⟩ hshort
    exact absurd hshort h

/-- A result anywhere is the result on the bytes ahead alone. -/
theorem Stable.of_ok {p : Reader ε α} (h : Stable w Short p) {c d : Cursor} {a : α} (hok : c.Ok w)
    (hrun : p.run c = .ok (a, d)) :
    ∃ k, k ≤ c.rest.length ∧ p.run (Cursor.new c.rest) = .ok (a, ⟨c.rest, k⟩) ∧ d = c.skip k := by
  have hrest : c.rest = c.rest ++ [] := (List.append_nil _).symm
  cases hown : p.run (Cursor.new c.rest) with
  | ok r =>
    obtain ⟨k, hk, hd, hc⟩ := h.ok hok hrest hown
    rw [hc] at hrun
    cases hrun
    exact ⟨k, hk, by rw [← hd], rfl⟩
  | error e =>
    by_cases hshort : Short e
    · obtain ⟨e', -, he'⟩ := h.short hok hown hshort
      rw [he'] at hrun
      cases hrun
    · rw [h.error hok hrest hown hshort] at hrun
      cases hrun

/-- A failure anywhere is a failure on the bytes ahead alone. -/
theorem Stable.of_error {p : Reader ε α} (h : Stable w Short p) {c : Cursor} {e : ε}
    (hok : c.Ok w) (hrun : p.run c = .error e) :
    ∃ e', p.run (Cursor.new c.rest) = .error e' ∧ (Short e' ∧ Short e ∨ e' = e) := by
  have hrest : c.rest = c.rest ++ [] := (List.append_nil _).symm
  cases hown : p.run (Cursor.new c.rest) with
  | ok r =>
    obtain ⟨k, -, -, hc⟩ := h.ok hok hrest hown
    rw [hc] at hrun
    cases hrun
  | error e' =>
    refine ⟨e', rfl, ?_⟩
    by_cases hshort : Short e'
    · obtain ⟨e'', hshort', he''⟩ := h.short hok hown hshort
      rw [hrun] at he''
      cases he''
      exact Or.inl ⟨hshort, hshort'⟩
    · have hsame := h.error hok hrest hown hshort
      rw [hrun] at hsame
      cases hsame
      exact Or.inr rfl

/-- The second reader goes on where the first one has stopped within `xs`. -/
theorem Stable.bind {p : Reader ε α} {f : α → Reader ε β} (hp : Stable w Short p)
    (hf : ∀ a, Stable w Short (f a)) : Stable w Short (p >>= f) := by
  constructor
  · intro c d xs suf b hok hrest h
    obtain ⟨⟨a, d₁⟩, hfirst, hsecond⟩ := bind_eq_ok.mp h
    obtain ⟨k, hk, rfl, hrun⟩ := hp.ok hok hrest hfirst
    obtain ⟨hxs, hskip, hrest'⟩ := hok.within hrest hk
    obtain ⟨k', hk', hown, rfl⟩ := (hf a).of_ok hxs hsecond
    obtain ⟨k'', -, hd, hrun'⟩ := (hf a).ok hskip hrest' hown
    cases hd
    have hle : k' ≤ (xs.drop k).length := hk'
    refine ⟨k + k', ?_, rfl, ?_⟩
    · rw [List.length_drop] at hle
      omega
    · rw [StateT.run_bind, hrun, ok_bind, hrun', Cursor.skip_skip]
  · intro c xs suf e hok hrest h hshort
    rw [StateT.run_bind] at h ⊢
    cases hfirst : p.run (Cursor.new xs) with
    | error e₁ =>
      rw [hfirst] at h
      cases h
      rw [hp.error hok hrest hfirst hshort, error_bind]
    | ok r =>
      obtain ⟨a, d⟩ := r
      obtain ⟨k, hk, rfl, hrun⟩ := hp.ok hok hrest hfirst
      obtain ⟨hxs, hskip, hrest'⟩ := hok.within hrest hk
      rw [hfirst, ok_bind] at h
      obtain ⟨e', hown, ⟨-, hshort'⟩ | rfl⟩ := (hf a).of_error hxs h
      · exact absurd hshort' hshort
      · rw [hrun, ok_bind, (hf a).error hskip hrest' hown hshort]
  · intro c e hok h hshort
    have hrest : c.rest = c.rest ++ [] := (List.append_nil _).symm
    rw [StateT.run_bind] at h ⊢
    cases hfirst : p.run (Cursor.new c.rest) with
    | error e₁ =>
      rw [hfirst] at h
      cases h
      obtain ⟨e', hshort', hrun⟩ := hp.short hok hfirst hshort
      exact ⟨e', hshort', by rw [hrun, error_bind]⟩
    | ok r =>
      obtain ⟨a, d⟩ := r
      obtain ⟨k, hk, rfl, hrun⟩ := hp.ok hok hrest hfirst
      obtain ⟨hxs, hskip, hrest'⟩ := hok.within hrest hk
      rw [hfirst, ok_bind] at h
      obtain ⟨e', hown, he'⟩ := (hf a).of_error hxs h
      have hshort' : Short e' := by
        rcases he' with ⟨hshort', -⟩ | rfl
        · exact hshort'
        · exact hshort
      rw [hrun, ok_bind]
      apply (hf a).short hskip _ hshort'
      rw [hrest', List.append_nil]
      exact hown

end

end Xylitol
