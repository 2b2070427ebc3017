import Xylitol.Bytes

/-!
# Stores and C strings

A C function sees memory as the bytes from some address on. It stores bytes that fit, and reads what
ends with a zero byte as a string; everything else is undefined:

    write mem p data    data at p, when it fits
    cstr bytes          the bytes before the first zero, when there is one
-/

namespace Xylitol.Memory

variable {mem mem' bytes data s : Bytes} {p q : Nat}

/-- Memory with these bytes at `p`. -/
def stored (mem : Bytes) (p : Nat) (data : Bytes) : Bytes :=
  mem.take p ++ (data ++ mem.drop (p + data.length))

/-- Store these bytes at `p`. -/
def write (mem : Bytes) (p : Nat) (data : Bytes) : Option Bytes :=
  if p + data.length ≤ mem.length then some (stored mem p data) else none

/-- The C string that starts here. -/
def cstr (bytes : Bytes) : Option Bytes :=
  if 0 ∈ bytes then some (bytes.takeWhile (· ≠ 0)) else none

/-! ## Stores -/

theorem write_of_le (h : p + data.length ≤ mem.length) : write mem p data = some (stored mem p data) :=
  if_pos h

theorem length_stored (h : p + data.length ≤ mem.length) :
    (stored mem p data).length = mem.length := by
  simp only [stored, List.length_append, List.length_take, List.length_drop]
  omega

/-- Everything else stays. -/
theorem getElem?_stored_of_outside (h : p + data.length ≤ mem.length)
    (hq : q < p ∨ p + data.length ≤ q) : (stored mem p data)[q]? = mem[q]? := by
  have hlength : (mem.take p).length = p := List.length_take_of_le (by omega)
  rcases hq with hq | hq
  · rw [stored, List.getElem?_append_left (by omega), List.getElem?_take_of_lt hq]
  · rw [stored, List.getElem?_append_right (by omega), hlength,
      List.getElem?_append_right (by omega), List.getElem?_drop]
    congr 1
    omega

/-- From `p` on there is what was stored, and then what was there. -/
theorem drop_stored (h : p + data.length ≤ mem.length) :
    (stored mem p data).drop p = data ++ mem.drop (p + data.length) :=
  List.drop_left' (List.length_take_of_le (by omega))

/-- Two stores next to each other are one. -/
theorem stored_stored {more : Bytes} (h : p + data.length + more.length ≤ mem.length) :
    stored (stored mem p data) (p + data.length) more = stored mem p (data ++ more) := by
  have hlength : (mem.take p).length = p := List.length_take_of_le (by omega)
  have htake : (stored mem p data).take (p + data.length) = mem.take p ++ data := by
    rw [stored, ← List.append_assoc]
    exact List.take_left' (by rw [List.length_append, hlength])
  have hdrop : (stored mem p data).drop (p + data.length + more.length)
      = mem.drop (p + (data ++ more).length) := by
    rw [← List.drop_drop, stored, ← List.append_assoc,
      List.drop_left' (by rw [List.length_append, hlength]), List.drop_drop, List.length_append,
      Nat.add_assoc]
  rw [stored, htake, hdrop, stored, List.append_assoc, List.append_assoc]

/-! ## Strings -/

theorem takeWhile_of_not_mem (h : 0 ∉ s) : s.takeWhile (· ≠ 0) = s := by
  apply List.takeWhile_eq_self_iff.mpr
  intro b hb
  simp only [ne_eq, decide_eq_true_eq]
  rintro rfl
  exact h hb

/-- What is before a zero is read up to its own first zero. -/
theorem takeWhile_append_zero (s rest : Bytes) :
    (s ++ 0 :: rest).takeWhile (· ≠ 0) = s.takeWhile (· ≠ 0) := by
  induction s with
  | nil => rfl
  | cons b s ih => simp only [List.cons_append, List.takeWhile_cons, ih]

theorem cstr_eq_some : cstr bytes = some s ↔ 0 ∉ s ∧ ∃ rest, bytes = s ++ 0 :: rest := by
  constructor
  · intro h
    by_cases hmem : 0 ∈ bytes
    · obtain ⟨before, rest, rfl, hzero⟩ := List.eq_append_cons_of_mem hmem
      rw [cstr, if_pos hmem, takeWhile_append_zero, takeWhile_of_not_mem hzero] at h
      cases h
      exact ⟨hzero, rest, rfl⟩
    · rw [cstr, if_neg hmem] at h
      cases h
  · rintro ⟨hzero, rest, rfl⟩
    rw [cstr, if_pos (by simp), takeWhile_append_zero, takeWhile_of_not_mem hzero]

/-- A string that is stored with a zero after it is read back. -/
theorem cstr_stored (hs : 0 ∉ s) (h : p + (s ++ [0]).length ≤ mem.length) :
    cstr ((stored mem p (s ++ [0])).drop p) = some s := by
  rw [drop_stored h, List.append_assoc]
  exact cstr_eq_some.mpr ⟨hs, _, rfl⟩

/-- A string stays as long as its bytes and its zero do. -/
theorem cstr_congr (h : cstr (mem.drop p) = some s)
    (hsame : ∀ q, p ≤ q → q ≤ p + s.length → mem'[q]? = mem[q]?) : cstr (mem'.drop p) = some s := by
  obtain ⟨hzero, rest, hdrop⟩ := cstr_eq_some.mp h
  have hbefore : (mem.drop p).take (s.length + 1) = s ++ [0] := by
    rw [hdrop, List.append_cons]
    exact List.take_left' (List.length_append ..)
  have htake : (mem'.drop p).take (s.length + 1) = s ++ [0] := by
    rw [← hbefore]
    apply List.ext_getElem?
    intro k
    rw [List.getElem?_take, List.getElem?_take, List.getElem?_drop, List.getElem?_drop]
    split
    · exact hsame (p + k) (by omega) (by omega)
    · rfl
  refine cstr_eq_some.mpr ⟨hzero, (mem'.drop p).drop (s.length + 1), ?_⟩
  calc mem'.drop p = (mem'.drop p).take (s.length + 1) ++ (mem'.drop p).drop (s.length + 1) :=
        (List.take_append_drop ..).symm
    _ = s ++ 0 :: (mem'.drop p).drop (s.length + 1) := by rw [htake, ← List.append_cons]

end Xylitol.Memory
