import Mathlib

/-!
# Byte strings, little-endian words and `usize`

Buffers are lists of bytes. The binary XML reader only ever looks at them through two fixed-width
little-endian words, so those two codecs (and the round trip for each) are all that is needed here.
Lengths and offsets are natural numbers; the one place where the width of `usize` shows is
`checked_add`, modelled with the pointer width as a parameter.
-/

namespace Xylitol

abbrev Bytes := List UInt8

/-! ## Pointer width -/

/-- The width of `usize` on the target. -/
inductive PtrWidth where
  | w32
  | w64
  deriving DecidableEq, Repr

/-- How many values `usize` has. -/
def PtrWidth.size : PtrWidth → Nat
  | .w32 => 2 ^ 32
  | .w64 => 2 ^ 64

theorem PtrWidth.two_pow_32_le_size (w : PtrWidth) : 2 ^ 32 ≤ w.size := by
  cases w <;> simp [PtrWidth.size]

/-- `usize::checked_add`. -/
def checkedAdd (w : PtrWidth) (a b : Nat) : Option Nat :=
  if a + b < w.size then some (a + b) else none

theorem checkedAdd_of_lt {w : PtrWidth} {a b : Nat} (h : a + b < w.size) :
    checkedAdd w a b = some (a + b) := by
  simp [checkedAdd, h]

theorem checkedAdd_eq_some {w : PtrWidth} {a b n : Nat} (h : checkedAdd w a b = some n) :
    n = a + b := by
  unfold checkedAdd at h
  split at h
  · exact (Option.some.inj h).symm
  · cases h

/-! ## Little-endian words -/

/-- `u16::from_le_bytes`. -/
def u16OfLe (b₀ b₁ : UInt8) : UInt16 := UInt16.ofNat (b₀.toNat + 256 * b₁.toNat)

/-- `u32::from_le_bytes`. -/
def u32OfLe (b₀ b₁ b₂ b₃ : UInt8) : UInt32 :=
  UInt32.ofNat (b₀.toNat + 256 * (b₁.toNat + 256 * (b₂.toNat + 256 * b₃.toNat)))

/-- `u16::to_le_bytes`. -/
def le16 (x : UInt16) : Bytes := [UInt8.ofNat x.toNat, UInt8.ofNat (x.toNat / 256)]

/-- `u32::to_le_bytes`. -/
def le32 (x : UInt32) : Bytes :=
  [UInt8.ofNat x.toNat, UInt8.ofNat (x.toNat / 256), UInt8.ofNat (x.toNat / 65536),
    UInt8.ofNat (x.toNat / 16777216)]

@[simp] theorem length_le16 (x : UInt16) : (le16 x).length = 2 := rfl

@[simp] theorem length_le32 (x : UInt32) : (le32 x).length = 4 := rfl

-- the bounds as numbers, so that `omega` can prove them
theorem toNat_ofNat8 {n : Nat} (h : n < 256) : (UInt8.ofNat n).toNat = n :=
  UInt8.toNat_ofNat_of_lt' h

theorem toNat_ofNat16 {n : Nat} (h : n < 2 ^ 16) : (UInt16.ofNat n).toNat = n :=
  UInt16.toNat_ofNat_of_lt' h

theorem toNat_ofNat32 {n : Nat} (h : n < 2 ^ 32) : (UInt32.ofNat n).toNat = n :=
  UInt32.toNat_ofNat_of_lt' h

theorem u16OfLe_le16 (x : UInt16) :
    u16OfLe (UInt8.ofNat x.toNat) (UInt8.ofNat (x.toNat / 256)) = x := by
  have hx : x.toNat < 65536 := x.toNat_lt
  apply UInt16.toNat_inj.mp
  simp only [u16OfLe, UInt16.toNat_ofNat', UInt8.toNat_ofNat']
  omega

theorem u32OfLe_le32 (x : UInt32) :
    u32OfLe (UInt8.ofNat x.toNat) (UInt8.ofNat (x.toNat / 256)) (UInt8.ofNat (x.toNat / 65536))
      (UInt8.ofNat (x.toNat / 16777216)) = x := by
  have hx : x.toNat < 4294967296 := x.toNat_lt
  apply UInt32.toNat_inj.mp
  simp only [u32OfLe, UInt32.toNat_ofNat', UInt8.toNat_ofNat']
  omega

end Xylitol
