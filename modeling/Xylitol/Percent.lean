import Xylitol.Bytes

/-!
# Percent-encoding

Every byte that is not unreserved is written as `%` and two hexadecimal digits. Decoding gives the
bytes back, and an encoded text has none of the characters that separate the parts of a URL.
-/

namespace Xylitol.Percent

/-- Letters, digits and `-_.~`, which are written as they are. -/
def unreserved (b : UInt8) : Bool :=
  let n := b.toNat
  (0x30 ≤ n && n ≤ 0x39) || (0x41 ≤ n && n ≤ 0x5A) || (0x61 ≤ n && n ≤ 0x7A)
    || n == 0x2D || n == 0x5F || n == 0x2E || n == 0x7E

/-- A hexadecimal digit, as a capital letter from ten on. -/
def hexDigit (n : Nat) : Char := (Nat.digitChar n).toUpper

def encodeByte (b : UInt8) : List Char :=
  if unreserved b then [Char.ofNat b.toNat]
  else ['%', hexDigit (b.toNat / 16), hexDigit (b.toNat % 16)]

def encode (bytes : Bytes) : List Char := bytes.flatMap encodeByte

/-- The value of a hexadecimal digit of either case. -/
def hexValue (c : Char) : Option Nat :=
  let n := c.toNat
  if 0x30 ≤ n ∧ n ≤ 0x39 then some (n - 0x30)
  else if 0x41 ≤ n ∧ n ≤ 0x46 then some (n - 0x37)
  else if 0x61 ≤ n ∧ n ≤ 0x66 then some (n - 0x57)
  else none

/-- A `%` that two digits follow stands for a byte, everything else for itself. -/
def decode : List Char → Bytes
  | [] => []
  | c :: a :: b :: cs =>
    if c = '%' then
      match hexValue a, hexValue b with
      | some x, some y => UInt8.ofNat (16 * x + y) :: decode cs
      | _, _ => String.utf8EncodeChar c ++ decode (a :: b :: cs)
    else String.utf8EncodeChar c ++ decode (a :: b :: cs)
  | c :: cs => String.utf8EncodeChar c ++ decode cs

/-! ### Decoding what was encoded -/

theorem decode_cons {c : Char} (hc : c ≠ '%') (cs : List Char) :
    decode (c :: cs) = String.utf8EncodeChar c ++ decode cs := by
  match cs with
  | [] => rfl
  | [_] => rfl
  | _ :: _ :: _ => rw [decode, if_neg hc]

/-- A text without `%` stands for itself. -/
theorem decode_of_notMem {cs : List Char} (h : '%' ∉ cs) :
    decode cs = cs.flatMap String.utf8EncodeChar := by
  induction cs with
  | nil => rfl
  | cons c cs ih =>
    rw [List.mem_cons, not_or] at h
    rw [decode_cons (Ne.symm h.1), List.flatMap_cons, ih h.2]

theorem hexValue_hexDigit {n : Nat} (hn : n < 16) : hexValue (hexDigit n) = some n := by
  have hall : ∀ n < 16, hexValue (hexDigit n) = some n := by decide
  exact hall n hn

theorem decode_escape (b : UInt8) (cs : List Char) :
    decode ('%' :: hexDigit (b.toNat / 16) :: hexDigit (b.toNat % 16) :: cs) = b :: decode cs := by
  have hlt : b.toNat < 256 := b.toNat_lt
  rw [decode, if_pos rfl, hexValue_hexDigit (by omega), hexValue_hexDigit (by omega)]
  show UInt8.ofNat (16 * (b.toNat / 16) + b.toNat % 16) :: decode cs = _
  rw [Nat.div_add_mod, UInt8.ofNat_toNat]

/-- An unreserved byte is the code of a character of its own. -/
theorem unreserved_spec {b : UInt8} (h : unreserved b = true) :
    (Char.ofNat b.toNat).toNat = b.toNat ∧ Char.ofNat b.toNat ≠ '%' ∧
      String.utf8EncodeChar (Char.ofNat b.toNat) = [b] := by
  have hlt : b.toNat < 128 := by
    simp only [unreserved] at h
    grind
  have hvalid : b.toNat.isValidChar := Or.inl (by omega)
  have hnat : (Char.ofNat b.toNat).toNat = b.toNat := by
    rw [Char.ofNat, dif_pos hvalid]
    rfl
  refine ⟨hnat, ?_, ?_⟩
  · intro hc
    rw [hc] at hnat
    rw [unreserved, ← hnat] at h
    exact absurd h (by decide)
  · have hval : (Char.ofNat b.toNat).val.toNat = b.toNat := hnat
    unfold String.utf8EncodeChar
    dsimp only
    rw [hval, if_pos (by omega)]
    exact congrArg (fun x => [x]) UInt8.ofNat_toNat

theorem decode_encodeByte (b : UInt8) (cs : List Char) :
    decode (encodeByte b ++ cs) = b :: decode cs := by
  rw [encodeByte]
  split
  · next h =>
      obtain ⟨-, hne, hutf⟩ := unreserved_spec h
      rw [List.singleton_append, decode_cons hne, hutf]
      rfl
  · exact decode_escape b cs

theorem decode_encode_append (bytes : Bytes) (cs : List Char) :
    decode (encode bytes ++ cs) = bytes ++ decode cs := by
  induction bytes with
  | nil => rfl
  | cons b bytes ih =>
    rw [encode, List.flatMap_cons, List.append_assoc, decode_encodeByte]
    exact congrArg (b :: ·) ih

theorem decode_encode (bytes : Bytes) : decode (encode bytes) = bytes := by
  have h := decode_encode_append bytes []
  rwa [List.append_nil, show decode [] = [] from rfl, List.append_nil] at h

/-! ### The characters of an encoded text -/

/-- What an encoded text is made of. -/
def plain (c : Char) : Bool := unreserved (UInt8.ofNat c.toNat) || c == '%'

theorem plain_of_mem_encode {bytes : Bytes} {c : Char} (h : c ∈ encode bytes) : plain c = true := by
  obtain ⟨b, -, hc⟩ := List.mem_flatMap.mp h
  rw [encodeByte] at hc
  split at hc
  · next hb =>
      rw [List.mem_singleton.mp hc, plain, (unreserved_spec hb).1, UInt8.ofNat_toNat, hb]
      rfl
  · have hdigit : ∀ n < 16, plain (hexDigit n) = true := by decide
    have hlt : b.toNat < 256 := b.toNat_lt
    rcases List.mem_cons.mp hc with rfl | hc
    · rfl
    · rcases List.mem_cons.mp hc with rfl | hc
      · exact hdigit _ (by omega)
      · rw [List.mem_singleton.mp hc]
        exact hdigit _ (by omega)

end Xylitol.Percent
