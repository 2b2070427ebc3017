import Xylitol.Reader

/-!
# Computations that may panic

The models elsewhere write `xs.drop n` for a slice and `a - b` for a subtraction: total operations,
where those of the language panic. Here are the operations as the language has them, in an `Except`
whose failures tell three things apart:

    err e    the code returned its own error
    panic    an index, a slice or an arithmetic operation was out of range
    spent    a loop was still running after the rounds it was given

A plain computation is one of these through `lift`, which wraps its errors in `err`. A computation
written with the checked operations that equals a lifted one neither panics nor runs out of rounds.
-/

namespace Xylitol

/-- How a checked computation ends without a value. -/
inductive Fault (ε : Type) where
  | err (e : ε)
  | panic
  | spent
  deriving DecidableEq, Repr

abbrev Checked (ε α : Type) := Except (Fault ε) α

/-- `PtrWidth` as a number of bits. -/
def PtrWidth.bits : PtrWidth → Nat
  | .w32 => 32
  | .w64 => 64

theorem PtrWidth.sixteen_lt_bits (w : PtrWidth) : 16 < w.bits := by
  cases w <;> simp [PtrWidth.bits]

namespace Checked

variable {ε α β : Type} {w : PtrWidth}

/-! ## The operations that can panic -/

/-- `xs[i]`. -/
def index (xs : List α) (i : Nat) : Checked ε α :=
  match xs[i]? with
  | some x => .ok x
  | none => .error .panic

/-- `&xs[start..stop]`. -/
def slice (xs : List α) (start stop : Nat) : Checked ε (List α) :=
  if start ≤ stop ∧ stop ≤ xs.length then .ok ((xs.take stop).drop start) else .error .panic

/-- `&xs[start..]`. -/
def sliceFrom (xs : List α) (start : Nat) : Checked ε (List α) :=
  if start ≤ xs.length then .ok (xs.drop start) else .error .panic

/-- `a - b` on `usize`. -/
def sub (a b : Nat) : Checked ε Nat :=
  if b ≤ a then .ok (a - b) else .error .panic

/-- `a * b` on `usize`. -/
def mul (w : PtrWidth) (a b : Nat) : Checked ε Nat :=
  if a * b < w.size then .ok (a * b) else .error .panic

/-- `a << n` on `usize`: only the shift amount is checked, and bits shifted out are lost. -/
def shl (w : PtrWidth) (a n : Nat) : Checked ε Nat :=
  if n < w.bits then .ok ((a <<< n) % w.size) else .error .panic

theorem slice_of_le {xs : List α} {start stop : Nat} (h₁ : start ≤ stop) (h₂ : stop ≤ xs.length) :
    (slice xs start stop : Checked ε (List α)) = .ok ((xs.take stop).drop start) := by
  simp [slice, h₁, h₂]

theorem sliceFrom_of_le {xs : List α} {start : Nat} (h : start ≤ xs.length) :
    (sliceFrom xs start : Checked ε (List α)) = .ok (xs.drop start) := by
  simp [sliceFrom, h]

theorem sub_of_le {a b : Nat} (h : b ≤ a) : (sub a b : Checked ε Nat) = .ok (a - b) := by
  simp [sub, h]

theorem mul_of_lt {a b : Nat} (h : a * b < w.size) : (mul w a b : Checked ε Nat) = .ok (a * b) := by
  simp [mul, h]

theorem shl_of_lt {a n : Nat} (hn : n < w.bits) (h : a <<< n < w.size) :
    (shl w a n : Checked ε Nat) = .ok (a <<< n) := by
  simp [shl, hn, Nat.mod_eq_of_lt h]

/-! ## Plain computations among them -/

/-- A plain computation: its only failures are errors of its own. -/
def lift (x : Except ε α) : Checked ε α := x.mapError Fault.err

@[simp] theorem lift_ok (a : α) : lift (.ok a : Except ε α) = .ok a := rfl

@[simp] theorem lift_error (e : ε) : lift (.error e : Except ε α) = .error (.err e) := rfl

@[simp] theorem lift_pure (a : α) : lift (pure a : Except ε α) = .ok a := rfl

/-- `Ok` or `Err`, and nothing else. -/
theorem lift_cases (x : Except ε α) :
    (∃ a, lift x = .ok a) ∨ ∃ e, lift x = .error (.err e) := by
  cases x with
  | error e => exact .inr ⟨e, rfl⟩
  | ok a => exact .inl ⟨a, rfl⟩

/-- Two steps are plain if the first is, and the second is on whatever the first returns. -/
theorem lift_bind_of {x : Except ε α} {f : α → Except ε β} {g : α → Checked ε β}
    (h : ∀ a, x = .ok a → g a = lift (f a)) : (lift x >>= g) = lift (x >>= f) := by
  cases x with
  | error e => rfl
  | ok a => exact h a rfl

theorem lift_mapM {f : α → Except ε β} {g : α → Checked ε β} (h : ∀ a, g a = lift (f a))
    (xs : List α) : xs.mapM g = lift (xs.mapM f) := by
  induction xs with
  | nil => rfl
  | cons x xs ih =>
    rw [List.mapM_cons, List.mapM_cons, h x, ih]
    apply lift_bind_of
    intro y _
    apply lift_bind_of
    intro ys _
    rfl

/-- A plain reader. -/
def liftReader (p : Reader ε α) : Reader (Fault ε) α := fun c => lift (p c)

theorem liftReader_run (p : Reader ε α) (c : Cursor) : (liftReader p).run c = lift (p.run c) := rfl

theorem liftReader_bind_of {p : Reader ε α} {f : α → Reader ε β} {g : α → Reader (Fault ε) β}
    (h : ∀ c a c', p.run c = .ok (a, c') → (g a).run c' = (liftReader (f a)).run c') :
    (liftReader p >>= g) = liftReader (p >>= f) := by
  funext c
  exact lift_bind_of fun r hr => h c r.1 r.2 hr

theorem liftReader_bind {p : Reader ε α} {f : α → Reader ε β} {g : α → Reader (Fault ε) β}
    (h : ∀ a, g a = liftReader (f a)) : (liftReader p >>= g) = liftReader (p >>= f) := by
  apply liftReader_bind_of
  intro c a c' _
  rw [h a]

end Checked

end Xylitol
