import Xylitol.Bytes

/-!
# Lossy UTF-8 and UTF-16 decoding

`String::from_utf8_lossy` and `String::from_utf16_lossy`, the two total decoders the string pool of
a binary XML document goes through. Both replace what they cannot decode by U+FFFD and never fail;
on a valid encoding neither replaces anything, which is the one fact the reader relies on:

    fromUtf8Lossy (utf8Bytes s) = s        fromUtf16Lossy (utf16Units s) = s
-/

namespace Xylitol

/-- U+FFFD, what both decoders put in place of input they cannot decode. -/
def replacementChar : Char := '\uFFFD'

/-! ## UTF-8 -/

/-- The bytes of `s`, as `str::as_bytes` gives them. -/
def utf8Bytes (s : String) : Bytes := s.toList.flatMap String.utf8EncodeChar

theorem utf8Bytes_append (s t : String) : utf8Bytes (s ++ t) = utf8Bytes s ++ utf8Bytes t := by
  rw [utf8Bytes, String.toList_append, List.flatMap_append]
  rfl

/-- Whether `b₁` may follow the lead byte `b₀` of a three- or four-byte sequence. -/
def utf8SecondOk (b₀ b₁ : UInt8) : Bool :=
  if b₀ = 0xE0 then 0xA0 ≤ b₁ && b₁ ≤ 0xBF
  else if b₀ = 0xED then 0x80 ≤ b₁ && b₁ ≤ 0x9F
  else if b₀ = 0xF0 then 0x90 ≤ b₁ && b₁ ≤ 0xBF
  else if b₀ = 0xF4 then 0x80 ≤ b₁ && b₁ ≤ 0x8F
  else 0xE1 ≤ b₀ && b₀ ≤ 0xF3 && 0x80 ≤ b₁ && b₁ ≤ 0xBF

/-- How many bytes one replacement character stands for: the longest prefix of an ill-formed
sequence that some well-formed sequence also starts with, and at least one byte. -/
def utf8InvalidLen : Bytes → Nat
  | b₀ :: b₁ :: rest =>
    if utf8SecondOk b₀ b₁ then
      match rest with
      | b₂ :: _ => if 0xF0 ≤ b₀ && 0x80 ≤ b₂ && b₂ ≤ 0xBF then 3 else 2
      | [] => 2
    else 1
  | _ => 1

theorem utf8InvalidLen_pos (bs : Bytes) : 0 < utf8InvalidLen bs := by
  unfold utf8InvalidLen
  repeat' split
  all_goals omega

/-- The characters of `String::from_utf8_lossy`. -/
def utf8LossyChars (bs : Bytes) : List Char :=
  match bs with
  | [] => []
  | b :: rest =>
    match ByteArray.utf8DecodeChar? (b :: rest).toByteArray 0 with
    | some c => c :: utf8LossyChars ((b :: rest).drop c.utf8Size)
    | none => replacementChar :: utf8LossyChars ((b :: rest).drop (utf8InvalidLen (b :: rest)))
termination_by bs.length
decreasing_by
  · have := c.utf8Size_pos
    simp only [List.length_drop, List.length_cons]; omega
  · have := utf8InvalidLen_pos (b :: rest)
    simp only [List.length_drop, List.length_cons]; omega

/-- `String::from_utf8_lossy`. -/
def fromUtf8Lossy (bs : Bytes) : String := String.ofList (utf8LossyChars bs)

theorem utf8LossyChars_encodeChar_append (c : Char) (rest : Bytes) :
    utf8LossyChars (String.utf8EncodeChar c ++ rest) = c :: utf8LossyChars rest := by
  have hhead : ByteArray.utf8DecodeChar? (String.utf8EncodeChar c ++ rest).toByteArray 0
      = some c := by
    rw [List.toByteArray_append]
    exact ByteArray.utf8DecodeChar?_utf8EncodeChar_append
  cases hbs : String.utf8EncodeChar c ++ rest with
  | nil =>
      exact absurd (List.append_eq_nil_iff.mp hbs).1 String.utf8EncodeChar_ne_nil
  | cons b tl =>
      rw [hbs] at hhead
      rw [utf8LossyChars, hhead]
      have hdrop : (b :: tl).drop c.utf8Size = rest := by
        rw [← hbs]
        exact List.drop_left' (String.length_utf8EncodeChar c)
      simp only [hdrop]

theorem utf8LossyChars_flatMap (cs : List Char) :
    utf8LossyChars (cs.flatMap String.utf8EncodeChar) = cs := by
  induction cs with
  | nil => rw [List.flatMap_nil, utf8LossyChars]
  | cons c cs ih => rw [List.flatMap_cons, utf8LossyChars_encodeChar_append, ih]

/-- Decoding the UTF-8 of a string gives it back. -/
theorem fromUtf8Lossy_utf8Bytes (s : String) : fromUtf8Lossy (utf8Bytes s) = s := by
  rw [fromUtf8Lossy, utf8Bytes, utf8LossyChars_flatMap, String.ofList_toList]

theorem utf8Bytes_inj {s t : String} : utf8Bytes s = utf8Bytes t ↔ s = t :=
  (Function.LeftInverse.injective fromUtf8Lossy_utf8Bytes).eq_iff

/-! ## UTF-16 -/

/-- The UTF-16 code units of one character: one unit in the basic plane, a surrogate pair above. -/
def utf16EncodeChar (c : Char) : List UInt16 :=
  if c.toNat < 0x10000 then [UInt16.ofNat c.toNat]
  else
    [UInt16.ofNat (0xD800 + (c.toNat - 0x10000) / 0x400),
      UInt16.ofNat (0xDC00 + (c.toNat - 0x10000) % 0x400)]

/-- The UTF-16 code units of `s`, as `str::encode_utf16` gives them. -/
def utf16Units (s : String) : List UInt16 := s.toList.flatMap utf16EncodeChar

/-- The characters of `String::from_utf16_lossy`: a surrogate that has no partner becomes one
replacement character, and the unit after it is decoded on its own. -/
def utf16LossyChars : List UInt16 → List Char
  | [] => []
  | [u] =>
    if u < 0xD800 || 0xDFFF < u then [Char.ofNat u.toNat] else [replacementChar]
  | u :: v :: rest =>
    if u < 0xD800 || 0xDFFF < u then Char.ofNat u.toNat :: utf16LossyChars (v :: rest)
    else if u < 0xDC00 && 0xDC00 ≤ v && v ≤ 0xDFFF then
      Char.ofNat (0x10000 + (u.toNat - 0xD800) * 0x400 + (v.toNat - 0xDC00))
        :: utf16LossyChars rest
    else replacementChar :: utf16LossyChars (v :: rest)

/-- `String::from_utf16_lossy`. -/
def fromUtf16Lossy (units : List UInt16) : String := String.ofList (utf16LossyChars units)

/-- A character is never a surrogate and never above U+10FFFF. -/
theorem char_toNat_range (c : Char) :
    c.toNat < 0xD800 ∨ (0xDFFF < c.toNat ∧ c.toNat < 0x110000) := by
  exact c.valid

theorem utf16LossyChars_encodeChar_append (c : Char) (rest : List UInt16) :
    utf16LossyChars (utf16EncodeChar c ++ rest) = c :: utf16LossyChars rest := by
  have hc := char_toNat_range c
  unfold utf16EncodeChar
  split
  · rename_i hlt
    -- one unit, outside the surrogate range because `c` is a character
    have hu : (UInt16.ofNat c.toNat).toNat = c.toNat := toNat_ofNat16 (by omega)
    have hout : ((UInt16.ofNat c.toNat) < 0xD800 || 0xDFFF < UInt16.ofNat c.toNat) = true := by
      simp only [Bool.or_eq_true, decide_eq_true_eq, UInt16.lt_iff_toNat_lt, hu]
      rcases hc with h | ⟨h, -⟩
      · exact Or.inl h
      · exact Or.inr h
    cases rest with
    | nil => simp [utf16LossyChars, hout, hu, Char.ofNat_toNat]
    | cons v rest => simp [utf16LossyChars, hout, hu, Char.ofNat_toNat]
  · rename_i hge
    -- a surrogate pair, which the arithmetic puts back together
    have hu : (UInt16.ofNat (0xD800 + (c.toNat - 0x10000) / 0x400)).toNat
        = 0xD800 + (c.toNat - 0x10000) / 0x400 := toNat_ofNat16 (by omega)
    have hv : (UInt16.ofNat (0xDC00 + (c.toNat - 0x10000) % 0x400)).toNat
        = 0xDC00 + (c.toNat - 0x10000) % 0x400 := toNat_ofNat16 (by omega)
    simp only [List.cons_append, List.nil_append, utf16LossyChars]
    rw [if_neg, if_pos]
    · rw [hu, hv]
      have hsum : 0x10000 + (0xD800 + (c.toNat - 0x10000) / 0x400 - 0xD800) * 0x400
          + (0xDC00 + (c.toNat - 0x10000) % 0x400 - 0xDC00) = c.toNat := by omega
      rw [hsum, Char.ofNat_toNat]
    · simp only [Bool.and_eq_true, decide_eq_true_eq, UInt16.lt_iff_toNat_lt,
        UInt16.le_iff_toNat_le, hu, hv]
      refine ⟨⟨?_, ?_⟩, ?_⟩
      · show 0xD800 + (c.toNat - 0x10000) / 0x400 < 0xDC00
        omega
      · show 0xDC00 ≤ 0xDC00 + (c.toNat - 0x10000) % 0x400
        omega
      · show 0xDC00 + (c.toNat - 0x10000) % 0x400 ≤ 0xDFFF
        omega
    · simp only [Bool.or_eq_true, decide_eq_true_eq, UInt16.lt_iff_toNat_lt, hu, not_or]
      refine ⟨?_, ?_⟩
      · show ¬ 0xD800 + (c.toNat - 0x10000) / 0x400 < 0xD800
        omega
      · show ¬ 0xDFFF < 0xD800 + (c.toNat - 0x10000) / 0x400
        omega

theorem utf16LossyChars_flatMap (cs : List Char) :
    utf16LossyChars (cs.flatMap utf16EncodeChar) = cs := by
  induction cs with
  | nil => rfl
  | cons c cs ih => rw [List.flatMap_cons, utf16LossyChars_encodeChar_append, ih]

/-- Decoding the UTF-16 of a string gives it back. -/
theorem fromUtf16Lossy_utf16Units (s : String) : fromUtf16Lossy (utf16Units s) = s := by
  rw [fromUtf16Lossy, utf16Units, utf16LossyChars_flatMap, String.ofList_toList]

end Xylitol
