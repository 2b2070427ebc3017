import Xylitol.Bytes
import Xylitol.Segments

/-!
# Text, as `str` has it

The string functions the readers of packages use, on the characters of a string. Each follows the
documented behaviour of the `str` method it is named after; patterns are never empty here.
-/

namespace Xylitol.Text

/-- `s.starts_with(pat)`. -/
def startsWith (s pat : String) : Bool := pat.toList.isPrefixOf s.toList

/-- `s.ends_with(pat)`. -/
def endsWith (s pat : String) : Bool := pat.toList.isSuffixOf s.toList

/-- `s.contains(pat)`. -/
def contains (s pat : String) : Bool := decide (pat.toList <:+: s.toList)

/-- `s.strip_prefix(pat)`. -/
def stripPrefix (s pat : String) : Option String :=
  if startsWith s pat then some (String.ofList (s.toList.drop pat.toList.length)) else none

/-- `s.split_once(c)`: around the first `c`. -/
def splitOnce (s : String) (c : Char) : Option (String × String) :=
  match s.toList.span (· ≠ c) with
  | (before, _ :: after) => some (String.ofList before, String.ofList after)
  | (_, []) => none

/-- The characters before and after the first occurrence of `pat`. -/
def splitChars (pat : List Char) : List Char → Option (List Char × List Char)
  | [] => none
  | c :: cs =>
    if pat.isPrefixOf (c :: cs) then some ([], (c :: cs).drop pat.length)
    else (splitChars pat cs).map fun (before, after) => (c :: before, after)

/-- `s.split_once(pat)`: around the first `pat`. -/
def splitOnceAt (s pat : String) : Option (String × String) :=
  (splitChars pat.toList s.toList).map fun (before, after) =>
    (String.ofList before, String.ofList after)

/-- The characters before and after the last occurrence of `pat`. -/
def rsplitChars (pat : List Char) : List Char → Option (List Char × List Char)
  | [] => none
  | c :: cs =>
    match rsplitChars pat cs with
    | some (before, after) => some (c :: before, after)
    | none =>
      if pat.isPrefixOf (c :: cs) then some ([], (c :: cs).drop pat.length) else none

/-- `s.rsplit_once(pat)`. -/
def rsplitOnce (s pat : String) : Option (String × String) :=
  (rsplitChars pat.toList s.toList).map fun (before, after) =>
    (String.ofList before, String.ofList after)

/-- Takes `pat` off the front as often as it is there, at most `n` times. -/
def trimStartChars (pat : List Char) : Nat → List Char → List Char
  | 0, cs => cs
  | n + 1, cs => if pat.isPrefixOf cs then trimStartChars pat n (cs.drop pat.length) else cs

/-- `s.trim_end_matches(pat)`. -/
def trimEndMatches (s pat : String) : String :=
  String.ofList (trimStartChars pat.toList.reverse s.toList.length s.toList.reverse).reverse

/-- `char::is_whitespace`: the Unicode property `White_Space`. -/
def isWhitespace (c : Char) : Bool :=
  let n := c.toNat
  (0x9 ≤ n && n ≤ 0xD) || n == 0x20 || n == 0x85 || n == 0xA0 || n == 0x1680
    || (0x2000 ≤ n && n ≤ 0x200A) || n == 0x2028 || n == 0x2029 || n == 0x202F || n == 0x205F
    || n == 0x3000

/-- `s.trim()`. -/
def trim (s : String) : String :=
  String.ofList ((s.toList.dropWhile isWhitespace).reverse.dropWhile isWhitespace).reverse

/-- `s.trim_matches(p)`. -/
def trimMatches (p : Char → Bool) (s : String) : String := String.ofList (strip p s.toList)

/-- `s.to_ascii_lowercase()`. -/
def toAsciiLowercase (s : String) : String := String.ofList (s.toList.map Char.toLower)

/-- `s.to_ascii_uppercase()`. -/
def toAsciiUppercase (s : String) : String := String.ofList (s.toList.map Char.toUpper)

/-- `a.eq_ignore_ascii_case(b)`. -/
def eqIgnoreAsciiCase (a b : String) : Bool := toAsciiLowercase a == toAsciiLowercase b

/-- `s.replace(a, b)` for two characters. -/
def replaceChar (s : String) (a b : Char) : String :=
  String.ofList (s.toList.map fun c => if c = a then b else c)

/-- `s.parse::<u64>()`: digits, perhaps after a plus sign. -/
def parseU64 (s : String) : Option Nat :=
  let digits := match s.toList with
    | '+' :: cs => cs
    | cs => cs
  if digits ≠ [] ∧ digits.all Char.isDigit then
    let n := Nat.ofDigitChars 10 digits 0
    if n < 2 ^ 64 then some n else none
  else none

/-- `s.parse::<usize>()`, where a `usize` has 64 bits. -/
def parseUsize (s : String) : Option Nat := parseU64 s

/-- The numbers an `i64` holds. -/
def isI64 (x : Int) : Bool := -2 ^ 63 ≤ x && x < 2 ^ 63

/-- Whether there is a minus sign, and what follows the sign. -/
def signed : List Char → Bool × List Char
  | '-' :: cs => (true, cs)
  | '+' :: cs => (false, cs)
  | cs => (false, cs)

/-- `s.parse::<i64>()`: digits, perhaps after a sign. -/
def parseI64 (s : String) : Option Int :=
  let (negative, digits) := signed s.toList
  if digits ≠ [] ∧ digits.all Char.isDigit then
    let n : Int := Nat.ofDigitChars 10 digits 0
    (some (if negative then -n else n)).filter isI64
  else none

/-- `s.split(c)`. -/
def split (s : String) (c : Char) : List String := (s.toList.splitOn c).map String.ofList

/-- `{:>n}`. -/
def padLeft (n : Nat) (s : String) : String := String.ofList (s.toList.leftpad n ' ')

/-- `{:<n}`. -/
def padRight (n : Nat) (s : String) : String := String.ofList (s.toList.rightpad n ' ')

/-- `{:02x}`. -/
def hexByte (b : UInt8) : List Char := [Nat.digitChar (b.toNat / 16), Nat.digitChar (b.toNat % 16)]

/-- The lower-case hexadecimal digits of a digest. -/
def hex (bytes : Bytes) : String := String.ofList (bytes.flatMap hexByte)

/-- A number is shown in digits, perhaps with a sign. -/
theorem isDigit_or_dash_of_mem_repr {x : Int} {c : Char} (h : c ∈ x.repr.toList) :
    c.isDigit ∨ c = '-' := by
  have hnat : ∀ n : Nat, c ∈ n.repr.toList → c.isDigit := by
    intro n hc
    rw [Nat.toList_repr] at hc
    exact Nat.isDigit_of_mem_toDigits (by decide) (by decide) hc
  cases x with
  | ofNat n => exact Or.inl (hnat n h)
  | negSucc n =>
      have hmem : c ∈ ("-" ++ n.succ.repr).toList := h
      rw [String.toList_append, List.mem_append] at hmem
      rcases hmem with hc | hc
      · exact Or.inr (List.mem_singleton.mp hc)
      · exact Or.inl (hnat _ hc)

theorem all_isDigit_toDigits (n : Nat) :
    Nat.toDigits 10 n ≠ [] ∧ (Nat.toDigits 10 n).all Char.isDigit :=
  ⟨Nat.toDigits_ne_nil, List.all_eq_true.mpr fun _ hc =>
    Nat.isDigit_of_mem_toDigits (by decide) (by decide) hc⟩

/-- `s` spells `n` in decimal digits, perhaps after a plus sign. -/
def Numeral (s : String) (n : Nat) : Prop :=
  ∃ digits : List Char, (s.toList = digits ∨ s.toList = '+' :: digits) ∧ digits ≠ [] ∧
    digits.all Char.isDigit ∧ n = Nat.ofDigitChars 10 digits 0

theorem parseU64_eq_some {s : String} {n : Nat} :
    parseU64 s = some n ↔ Numeral s n ∧ n < 2 ^ 64 := by
  obtain ⟨digits, hdigits⟩ : ∃ digits : List Char,
      (match s.toList with | '+' :: cs => cs | cs => cs) = digits := ⟨_, rfl⟩
  have hparse : parseU64 s = if digits ≠ [] ∧ digits.all Char.isDigit then
      (if Nat.ofDigitChars 10 digits 0 < 2 ^ 64 then some (Nat.ofDigitChars 10 digits 0) else none)
      else none := by
    rw [← hdigits]
    rfl
  have hspell : s.toList = digits ∨ s.toList = '+' :: digits := by
    split at hdigits
    · next hs => exact Or.inr (hdigits ▸ hs)
    · exact Or.inl hdigits
  -- a sign is no digit, so no other digits spell the same text
  have honly : ∀ ds : List Char, ds.all Char.isDigit → s.toList = ds ∨ s.toList = '+' :: ds →
      ds = digits := by
    intro ds hall hs
    rcases hs with hs | hs
    · rw [hs] at hdigits
      split at hdigits
      · exact absurd (List.all_eq_true.mp hall '+' List.mem_cons_self) (by decide)
      · exact hdigits
    · rw [hs] at hdigits
      exact hdigits
  rw [hparse]
  constructor
  · intro h
    by_cases hcond : digits ≠ [] ∧ digits.all Char.isDigit
    · rw [if_pos hcond] at h
      by_cases hlt : Nat.ofDigitChars 10 digits 0 < 2 ^ 64
      · rw [if_pos hlt] at h
        cases h
        exact ⟨⟨digits, hspell, hcond.1, hcond.2, rfl⟩, hlt⟩
      · rw [if_neg hlt] at h
        cases h
    · rw [if_neg hcond] at h
      cases h
  · rintro ⟨⟨ds, hs, hne, hall, rfl⟩, hlt⟩
    obtain rfl := honly ds hall hs
    rw [if_pos ⟨hne, hall⟩, if_pos hlt]

/-- A number of 64 bits is read from the text it is shown as. -/
theorem parseU64_repr {n : Nat} (hn : n < 2 ^ 64) : parseU64 n.repr = some n := by
  obtain ⟨hne, hall⟩ := all_isDigit_toDigits n
  exact parseU64_eq_some.mpr ⟨⟨Nat.toDigits 10 n, Or.inl Nat.toList_repr, hne, hall,
    Nat.ofDigitChars_ten_toDigits.symm⟩, hn⟩

/-- The trimmed parts of a text are those of the trimmed text. -/
theorem map_trim_split_trim {c : Char} (hc : isWhitespace c = false) (s : String) :
    (split (trim s) c).map trim = (split s c).map trim := by
  have htrim : trim ∘ String.ofList = String.ofList ∘ strip isWhitespace := by
    funext cs
    show String.ofList (strip isWhitespace (String.ofList cs).toList) = _
    rw [String.toList_ofList]
    rfl
  have hs : (trim s).toList = strip isWhitespace s.toList := String.toList_ofList
  rw [split, split, List.map_map, List.map_map, htrim, ← List.map_map, ← List.map_map, hs,
    map_strip_splitOn_strip hc]

theorem stripPrefix_eq_some {s pat rest : String} :
    stripPrefix s pat = some rest ↔ s = pat ++ rest := by
  rw [stripPrefix, startsWith]
  constructor
  · intro h
    split at h
    · next hpat =>
        obtain ⟨cs, hcs⟩ := List.isPrefixOf_iff_prefix.mp hpat
        cases h
        rw [← String.toList_inj, String.toList_append, String.toList_ofList, ← hcs,
          List.drop_left]
    · cases h
  · rintro rfl
    have hpat : pat.toList.isPrefixOf (pat ++ rest).toList := by
      rw [List.isPrefixOf_iff_prefix, String.toList_append]
      exact List.prefix_append _ _
    rw [if_pos hpat, String.toList_append, List.drop_left, String.ofList_toList]

theorem splitOnce_eq_some {s before after : String} {c : Char} :
    splitOnce s c = some (before, after) ↔
      s.toList = before.toList ++ c :: after.toList ∧ c ∉ before.toList := by
  rw [splitOnce, List.span_eq_takeWhile_dropWhile]
  constructor
  · intro h
    split at h
    · next front c' rest hspan =>
        obtain ⟨hfront, hrest⟩ := Prod.mk.inj hspan
        cases h
        have hc : c' = c := by
          have hhead := List.head?_dropWhile_not (· ≠ c) s.toList
          rw [hrest] at hhead
          simpa using hhead
        rw [String.toList_ofList, String.toList_ofList, ← hc, ← hrest, ← hfront]
        exact ⟨(List.takeWhile_append_dropWhile ..).symm,
          fun hmem => by simpa [hc] using List.mem_takeWhile_imp hmem⟩
    · cases h
  · rintro ⟨hs, hc⟩
    have hall : ∀ x ∈ before.toList, decide (x ≠ c) = true := by
      intro x hx
      exact decide_eq_true fun hxc => hc (hxc ▸ hx)
    rw [hs, List.takeWhile_append_of_pos hall, List.dropWhile_append_of_pos hall,
      List.takeWhile_cons_of_neg (by simp), List.dropWhile_cons_of_neg (by simp), List.append_nil]
    simp only [String.ofList_toList]

/-- A capital and its small letter are 32 apart. -/
theorem toNat_toLower {c : Char} (hup : 'A'.val ≤ c.val ∧ c.val ≤ 'Z'.val) :
    65 ≤ c.toNat ∧ c.toNat ≤ 90 ∧ c.toLower.toNat = c.toNat + 32 := by
  have hlo : 65 ≤ c.toNat := UInt32.le_iff_toNat_le.mp hup.1
  have hhi : c.toNat ≤ 90 := UInt32.le_iff_toNat_le.mp hup.2
  refine ⟨hlo, hhi, ?_⟩
  rw [Char.toLower, dif_pos hup]
  show (c.val + 32).toNat = c.val.toNat + 32
  rw [UInt32.toNat_add]
  show (c.toNat + 32) % 2 ^ 32 = c.toNat + 32
  omega

theorem toLower_of_not {c : Char} (hup : ¬ ('A'.val ≤ c.val ∧ c.val ≤ 'Z'.val)) : c.toLower = c := by
  rw [Char.toLower, dif_neg hup]

/-- Neither a capital nor its small letter is white space; other characters stay as they are. -/
theorem isWhitespace_toLower (c : Char) : isWhitespace c.toLower = isWhitespace c := by
  by_cases hup : 'A'.val ≤ c.val ∧ c.val ≤ 'Z'.val
  · obtain ⟨hlo, hhi, hlower⟩ := toNat_toLower hup
    simp only [isWhitespace, hlower]
    grind
  · rw [toLower_of_not hup]

theorem toLower_toLower (c : Char) : c.toLower.toLower = c.toLower := by
  by_cases hup : 'A'.val ≤ c.val ∧ c.val ≤ 'Z'.val
  · obtain ⟨hlo, hhi, hlower⟩ := toNat_toLower hup
    apply toLower_of_not
    intro h
    have hhi' : c.toLower.toNat ≤ 90 := UInt32.le_iff_toNat_le.mp h.2
    omega
  · rw [toLower_of_not hup, toLower_of_not hup]

theorem toAsciiLowercase_idem (s : String) :
    toAsciiLowercase (toAsciiLowercase s) = toAsciiLowercase s := by
  rw [toAsciiLowercase, toAsciiLowercase, String.toList_ofList, List.map_map,
    show Char.toLower ∘ Char.toLower = Char.toLower from funext toLower_toLower]

theorem toAsciiLowercase_trim (s : String) :
    toAsciiLowercase (trim s) = trim (toAsciiLowercase s) := by
  show String.ofList ((String.ofList (strip isWhitespace s.toList)).toList.map Char.toLower)
    = String.ofList (strip isWhitespace (String.ofList (s.toList.map Char.toLower)).toList)
  rw [String.toList_ofList, String.toList_ofList, strip_map,
    show isWhitespace ∘ Char.toLower = isWhitespace from funext isWhitespace_toLower]

theorem trim_eq (s : String) : trim s = String.ofList (strip isWhitespace s.toList) := rfl

/-- Trimmed text has nothing to trim. -/
theorem trim_trim (s : String) : trim (trim s) = trim s := by
  rw [trim_eq, trim_eq, String.toList_ofList, strip_strip]

/-- Texts that differ in case only still do so when they are trimmed. -/
theorem eqIgnoreAsciiCase_trim {a b : String} (h : eqIgnoreAsciiCase a b) :
    eqIgnoreAsciiCase (trim a) (trim b) := by
  rw [eqIgnoreAsciiCase, beq_iff_eq] at h ⊢
  rw [toAsciiLowercase_trim, toAsciiLowercase_trim, h]

theorem isI64_of_parseI64 {s : String} {x : Int} (h : parseI64 s = some x) : isI64 x := by
  rw [parseI64] at h
  split at h
  split at h
  · exact (Option.filter_eq_some_iff.mp h).2
  · cases h

/-- A number of 64 bits is read from the text it is shown as. -/
theorem parseI64_repr {x : Int} (hx : isI64 x) : parseI64 x.repr = some x := by
  have hread : ∀ (negative : Bool) (n : Nat), signed x.repr.toList = (negative, Nat.toDigits 10 n) →
      (if negative then -(n : Int) else n) = x → parseI64 x.repr = some x := by
    intro negative n hsigned hn
    rw [parseI64, hsigned]
    show (if _ then _ else _) = _
    rw [if_pos (all_isDigit_toDigits n)]
    show (some (if negative then -_ else _)).filter isI64 = _
    rw [Nat.ofDigitChars_ten_toDigits, hn]
    exact Option.filter_some_pos hx
  cases x with
  | ofNat n =>
    have hs : (Int.ofNat n).repr.toList = Nat.toDigits 10 n := Nat.toList_repr
    have hsign : ∀ c ∈ Nat.toDigits 10 n, c ≠ '-' ∧ c ≠ '+' := by
      intro c hc
      have hdigit := List.all_eq_true.mp (all_isDigit_toDigits n).2 c hc
      constructor <;> rintro rfl <;> exact absurd hdigit (by decide)
    apply hread false n _ rfl
    rw [hs, signed.eq_def]
    split
    · next hcs => exact absurd rfl (hsign '-' (hcs ▸ List.mem_cons_self)).1
    · next hcs => exact absurd rfl (hsign '+' (hcs ▸ List.mem_cons_self)).2
    · rfl
  | negSucc n =>
    have hs : (Int.negSucc n).repr.toList = '-' :: Nat.toDigits 10 (n + 1) := by
      show ("-" ++ (n + 1).repr).toList = _
      rw [String.toList_append, Nat.toList_repr]
      rfl
    apply hread true (n + 1) _ rfl
    rw [hs, signed]

/-- A text is cut at `pat` where `pat` does not begin any earlier. -/
theorem splitChars_append {pat : List Char} (hpat : pat ≠ []) {before : List Char}
    (hfirst : ¬ pat <:+: before ++ pat.dropLast) (after : List Char) :
    splitChars pat (before ++ pat ++ after) = some (before, after) := by
  induction before with
  | nil =>
    cases pat with
    | nil => exact absurd rfl hpat
    | cons c pat =>
      rw [List.nil_append, List.cons_append, splitChars, if_pos]
      · simp
      · rw [List.isPrefixOf_iff_prefix, ← List.cons_append]
        exact List.prefix_append _ _
  | cons c before ih =>
    have hlen : pat.length ≤ (c :: before ++ pat.dropLast).length := by
      rw [List.length_append, List.length_cons, List.length_dropLast]
      omega
    have hno : ¬ pat.isPrefixOf (c :: (before ++ pat ++ after)) = true := by
      rw [List.isPrefixOf_iff_prefix]
      intro hprefix
      apply hfirst
      have hlong : c :: before ++ pat.dropLast <+: c :: (before ++ pat ++ after) := by
        rw [List.cons_append, List.cons_prefix_cons, List.append_assoc]
        exact ⟨rfl, List.prefix_append_right_inj before |>.mpr
          ((List.dropLast_prefix pat).trans (List.prefix_append pat after))⟩
      exact (List.prefix_of_prefix_length_le hprefix hlong hlen).isInfix
    rw [List.cons_append, List.cons_append, splitChars, if_neg hno, ih]
    · rfl
    · intro h
      exact hfirst (h.trans (List.suffix_cons c _).isInfix)

example : splitOnce "x86_64/libfoo.so" '/' = some ("x86_64", "libfoo.so") := by decide

example : rsplitOnce "config.split.config.arm64_v8a.apk" "config."
    = some ("config.split.", "arm64_v8a.apk") := by decide

example : trimEndMatches "x86.apk.apk" ".apk" = "x86" := by decide

end Xylitol.Text
