import Xylitol.Apkpure.Model
import Xylitol.Result

/-!
# Narrowing a list of downloadable files down to the one to fetch

An app usually has several files for one release. `choose` filters on what the user asked for and
then either has exactly one answer, or asks, or fails. `Selects` says which variant that is without
going through the code, and `choose_eq_ok_iff` that the two agree.
-/

namespace Xylitol.Cli

open Apkpure

/-- What the text of a message needs from elsewhere: a size is shown with floating point, and
`{:?}` quotes a text after the Unicode tables. -/
structure Fmt where
  humanSize : Nat → String
  debug : String → String

/-- Whoever is at the other end: whether the question could be flushed out, and the line read for
it, which is empty at the end of the input. -/
structure Session where
  flush : Except String Unit
  readLine : Except String String

/-- Restrictions the user placed on the choice. -/
structure Filters where
  versionCode : Option Int := none
  arch : Option String := none
  kind : Option FileKind := none
  /-- A 1-based index into the unfiltered list. -/
  pick : Option UInt64 := none
  /-- Take the first remaining candidate rather than prompting or failing. -/
  assumeYes : Bool := false
  /-- Whether there is a user on the other end who can be asked. -/
  interactive : Bool := false

/-- Match an ABI request against a variant. A variant with no ABI listed carries no native code. -/
def matchesArch (variant : Variant) (want : String) : Bool :=
  let want := Text.trim want
  match variant.arch.map Text.trim with
  | some given =>
    Text.eqIgnoreAsciiCase given want
      -- multi-ABI builds are listed comma-separated
      || (Text.split given ',').any fun part => Text.eqIgnoreAsciiCase (Text.trim part) want
  | none => Text.eqIgnoreAsciiCase want "universal"

/-- The candidates left after filtering, in the order they were given. -/
def apply (all : List Variant) (filters : Filters) : List Variant :=
  ((all.filter fun v => filters.versionCode.all fun c => v.versionCode == c).filter
    fun v => filters.kind.all fun k => v.kind == k).filter
    fun v => match filters.arch with
      | none => true
      | some want => matchesArch v want

/-- The rows of the table with the number each one shows. -/
def numbered (variants : List Variant) : List (Nat × Variant) :=
  variants.zipIdx.map fun (v, i) => (i + 1, v)

def renderRow (fmt : Fmt) (number : Nat) (v : Variant) : String :=
  let size := (v.size.map fmt.humanSize).getD "?"
  let detail := v.minAndroid.toList ++ v.published.toList
    ++ (if v.sha1.isSome then ["checksum published"] else [])
  "  " ++ Text.padLeft 2 (toString number) ++ ". " ++ Text.padRight 14 v.versionName ++ " "
    ++ Text.padRight 10 (toString v.versionCode) ++ " " ++ toString v.kind ++ " "
    ++ Text.padLeft 10 size ++ "  " ++ v.descriptor ++ "\n"
    ++ (if detail.isEmpty then "" else "      " ++ " · ".intercalate detail ++ "\n")

def renderRows (fmt : Fmt) (variants : List Variant) : String :=
  String.join ((numbered variants).map fun (number, v) => renderRow fmt number v)

/-- The numbered table used both for listing and for prompting. -/
def renderTable (fmt : Fmt) (variants : List Variant) : String := renderRows fmt variants

/-- `n.wrapping_sub(1)`. -/
def wrappingPred (n : UInt64) : Nat := (n - 1).toNat

/-- The question put to the user about the candidates `first :: rest`. -/
def prompt (fmt : Fmt) (session : Session) (first : Variant) (rest : List Variant) :
    Except String Variant := do
  session.flush
  let line ← session.readLine
  let line := Text.trim line
  if line = "" then
    return first
  match Text.parseUsize line with
  | none => throw (fmt.debug line ++ " is not a number")
  | some n =>
    match (first :: rest)[wrappingPred (UInt64.ofNat n)]? with
    | some v => return v
    | none => throw (toString n ++ " is out of range: pick 1 to "
        ++ toString (first :: rest).length)

/-- What a choice that was left open says. -/
def ambiguous (fmt : Fmt) (candidates : List Variant) : String :=
  toString candidates.length ++ " files match; narrow it with --pick, --arch, --version-code or "
    ++ "--kind, or pass --yes to take the first:\n" ++ renderRows fmt candidates

/-- Apply `filters` and return the single file to download. -/
def choose (fmt : Fmt) (session : Session) (all : List Variant) (filters : Filters) :
    Except String Variant :=
  match filters.pick with
  | some pick =>
    match all[wrappingPred pick]? with
    | some v => .ok v
    | none => .error ("--pick " ++ toString pick ++ " is out of range: there are "
        ++ toString all.length ++ " file(s)")
  | none =>
    match apply all filters with
    | [] => .error ("no file matches that selection. Available:\n" ++ renderTable fmt all)
    | [only] => .ok only
    | first :: rest =>
      -- an explicit yes is the only way to have one picked for you
      if filters.assumeYes then .ok first
      else if filters.interactive then prompt fmt session first rest
      else .error (ambiguous fmt (first :: rest))

/-! ### What is asked for

Stated on the fields of a variant as they are published, before any trimming. -/

/-- Two names of an architecture that differ in surrounding space and ASCII case only. -/
def SameArch (a b : String) : Prop := Text.eqIgnoreAsciiCase (Text.trim a) (Text.trim b)

theorem SameArch.symm {a b : String} (h : SameArch a b) : SameArch b a := by
  rw [SameArch, Text.eqIgnoreAsciiCase, beq_iff_eq] at h ⊢
  exact h.symm

/-- The published field is the name asked for, or lists it between its commas; no field at all is
`universal`. -/
def Offers : Option String → String → Prop
  | some field, want => SameArch field want ∨ ∃ part ∈ Text.split field ',', SameArch part want
  | none, want => SameArch want "universal"

/-- Every restriction that was made admits the variant. -/
structure Filters.Admits (filters : Filters) (v : Variant) : Prop where
  versionCode : ∀ c, filters.versionCode = some c → v.versionCode = c
  kind : ∀ k, filters.kind = some k → v.kind = k
  arch : ∀ want, filters.arch = some want → Offers v.arch want

theorem matchesArch_iff {v : Variant} {want : String} :
    matchesArch v want ↔ Offers v.arch want := by
  cases harch : v.arch with
  | none =>
    simp only [matchesArch, harch, Option.map_none, Offers, SameArch]
    rw [show Text.trim "universal" = "universal" by decide]
  | some field =>
    -- the code trims the field before it is cut at the commas
    have hparts := Text.map_trim_split_trim (show Text.isWhitespace ',' = false by decide) field
    have hany : ∀ s : String,
        ((Text.split s ',').any fun part => Text.eqIgnoreAsciiCase (Text.trim part) (Text.trim want))
          = ((Text.split s ',').map Text.trim).any (Text.eqIgnoreAsciiCase · (Text.trim want)) := by
      intro s
      rw [List.any_map]
      rfl
    simp only [matchesArch, harch, Option.map_some, Offers, SameArch, Bool.or_eq_true]
    rw [hany, hparts, ← hany, List.any_eq_true]

instance (o : Option String) (want : String) : Decidable (Offers o want) :=
  match o with
  | some field =>
    inferInstanceAs (Decidable ((Text.eqIgnoreAsciiCase (Text.trim field) (Text.trim want) = true) ∨
      ∃ part ∈ Text.split field ',',
        Text.eqIgnoreAsciiCase (Text.trim part) (Text.trim want) = true))
  | none => inferInstanceAs (Decidable (Text.eqIgnoreAsciiCase _ _ = true))

theorem Filters.admits_iff {filters : Filters} {v : Variant} : filters.Admits v ↔
    (filters.versionCode.all fun c => v.versionCode == c) ∧
    (filters.kind.all fun k => v.kind == k) ∧
    (filters.arch.all fun want => decide (Offers v.arch want)) := by
  simp only [Option.all_eq_true, beq_iff_eq, decide_eq_true_eq]
  exact ⟨fun ⟨hcode, hkind, harch⟩ => ⟨hcode, hkind, harch⟩,
    fun ⟨hcode, hkind, harch⟩ => ⟨hcode, hkind, harch⟩⟩

instance (filters : Filters) (v : Variant) : Decidable (filters.Admits v) :=
  decidable_of_iff' _ Filters.admits_iff

/-- The variants that match, in order. -/
def candidates (all : List Variant) (filters : Filters) : List Variant :=
  all.filter fun v => decide (filters.Admits v)

theorem apply_eq_candidates (all : List Variant) (filters : Filters) :
    apply all filters = candidates all filters := by
  rw [apply, candidates, List.filter_filter, List.filter_filter]
  apply List.filter_congr
  intro v _
  rw [Bool.eq_iff_iff, decide_eq_true_iff, Filters.admits_iff, Bool.and_eq_true, Bool.and_eq_true]
  cases filters.arch with
  | none => simp [and_comm]
  | some want => simp [matchesArch_iff, and_comm]

/-- `v` is the `n`-th of `variants`, counted from one. -/
def Nth (variants : List Variant) (n : Nat) (v : Variant) : Prop :=
  1 ≤ n ∧ variants[n - 1]? = some v

/-- The user was reached and typed `line`. -/
def Session.Typed (session : Session) (line : String) : Prop :=
  session.flush = .ok () ∧ ∃ raw, session.readLine = .ok raw ∧ Text.trim raw = line

/-- The ways in which a variant may be selected. Where none of them applies, nothing is. -/
inductive Selects (session : Session) (all : List Variant) (filters : Filters) : Variant → Prop
  | picked {n v} : filters.pick = some n → Nth all n.toNat v → Selects session all filters v
  | only {v} : filters.pick = none → candidates all filters = [v] → Selects session all filters v
  | assumed {v w rest} : filters.pick = none → candidates all filters = v :: w :: rest →
      filters.assumeYes → Selects session all filters v
  | entered {v w rest} : filters.pick = none → candidates all filters = v :: w :: rest →
      filters.assumeYes = false → filters.interactive → session.Typed "" →
      Selects session all filters v
  | typed {first second rest line n v} : filters.pick = none →
      candidates all filters = first :: second :: rest →
      filters.assumeYes = false → filters.interactive → session.Typed line → Text.Numeral line n →
      Nth (first :: second :: rest) n v → Selects session all filters v

/-! ### The code selects that -/

/-- Counting from one, with zero wrapped around to a position no list has. -/
theorem getElem?_wrappingPred {variants : List Variant} (hlen : variants.length < 2 ^ 64)
    {n : UInt64} {v : Variant} :
    variants[wrappingPred n]? = some v ↔ Nth variants n.toNat v := by
  by_cases hn : n.toNat = 0
  · have hzero : n = 0 := UInt64.toNat_inj.mp hn
    have hout : variants.length ≤ wrappingPred n := by
      rw [hzero]
      show variants.length ≤ 2 ^ 64 - 1
      omega
    rw [List.getElem?_eq_none hout]
    simp [Nth, hn]
  · have hle : (1 : UInt64) ≤ n := by
      rw [UInt64.le_iff_toNat_le]
      show 1 ≤ n.toNat
      omega
    have hpred : wrappingPred n = n.toNat - 1 := by
      rw [wrappingPred, UInt64.toNat_sub_of_le _ _ hle]
      rfl
    rw [hpred, Nth]
    exact ⟨fun h => ⟨by omega, h⟩, fun h => h.2⟩

/-- A number that is one of the table's is read as that number. -/
theorem numeral_and_nth_iff {variants : List Variant} (hlen : variants.length < 2 ^ 64)
    {line : String} {n : Nat} {v : Variant} : Text.Numeral line n ∧ Nth variants n v ↔
      Text.parseUsize line = some n ∧ variants[wrappingPred (UInt64.ofNat n)]? = some v := by
  constructor
  · rintro ⟨hnum, hnth⟩
    have hlt : n - 1 < variants.length := (List.getElem?_eq_some_iff.mp hnth.2).1
    have hn64 : n < 2 ^ 64 := by omega
    have hn : (UInt64.ofNat n).toNat = n := UInt64.toNat_ofNat_of_lt' hn64
    exact ⟨Text.parseU64_eq_some.mpr ⟨hnum, hn64⟩,
      (getElem?_wrappingPred hlen).mpr (by rwa [hn])⟩
  · rintro ⟨hparse, hget⟩
    obtain ⟨hnum, hlt⟩ := Text.parseU64_eq_some.mp hparse
    have hn : (UInt64.ofNat n).toNat = n := UInt64.toNat_ofNat_of_lt' hlt
    have hnth := (getElem?_wrappingPred hlen).mp hget
    rw [hn] at hnth
    exact ⟨hnum, hnth⟩

theorem prompt_eq_ok (fmt : Fmt) {session : Session} {first : Variant} {rest : List Variant}
    (hlen : (first :: rest).length < 2 ^ 64) {v : Variant} :
    prompt fmt session first rest = .ok v ↔ session.Typed "" ∧ v = first ∨
      ∃ line n, session.Typed line ∧ Text.Numeral line n ∧ Nth (first :: rest) n v := by
  simp only [numeral_and_nth_iff hlen]
  rw [prompt]
  cases hflush : session.flush with
  | error e => simp [Session.Typed, hflush]
  | ok u =>
    cases hread : session.readLine with
    | error e => simp [Session.Typed, hread]
    | ok raw =>
      have htyped : ∀ line, session.Typed line ↔ Text.trim raw = line := by
        intro line
        simp [Session.Typed, hflush, hread]
      simp only [ok_bind, htyped, exists_and_left, exists_eq_left']
      by_cases hblank : Text.trim raw = ""
      · have hnone : Text.parseUsize "" = none := by decide
        simp [hblank, hnone, pure, Except.pure, eq_comm]
      · simp only [hblank, if_false, false_and, false_or]
        cases Text.parseUsize (Text.trim raw) with
        | none => simp [throw, throwThe, MonadExceptOf.throw]
        | some n =>
          cases hget : (first :: rest)[wrappingPred (UInt64.ofNat n)]? with
          | none => simp [hget, throw, throwThe, MonadExceptOf.throw]
          | some w => simp [hget, pure, Except.pure]

section

variable {session : Session} {all : List Variant} {filters : Filters} {v : Variant}

theorem selects_picked {n : UInt64} (hpick : filters.pick = some n) :
    Selects session all filters v ↔ Nth all n.toNat v := by
  constructor
  · intro h
    cases h with
    | picked hn hnth =>
      rw [hpick] at hn
      cases hn
      exact hnth
    | _ => grind
  · intro hnth
    exact .picked hpick hnth

/-- An explicit position bypasses every other filter. -/
theorem choose_picked_eq_ok (fmt : Fmt) (hlen : all.length < 2 ^ 64) {n : UInt64}
    (hpick : filters.pick = some n) :
    choose fmt session all filters = .ok v ↔ Nth all n.toNat v := by
  rw [← getElem?_wrappingPred hlen]
  simp only [choose, hpick]
  cases all[wrappingPred n]? with
  | none => simp
  | some w => simp

theorem not_selects_nil (hpick : filters.pick = none) (hcand : candidates all filters = []) :
    ¬ Selects session all filters v := by
  intro h
  cases h with
  | _ => grind

theorem selects_singleton {w : Variant} (hpick : filters.pick = none)
    (hcand : candidates all filters = [w]) : Selects session all filters v ↔ w = v := by
  constructor
  · intro h
    cases h with
    | _ => grind
  · rintro rfl
    exact .only hpick hcand

theorem selects_many {first second : Variant} {rest : List Variant} (hpick : filters.pick = none)
    (hcand : candidates all filters = first :: second :: rest) :
    Selects session all filters v ↔ (filters.assumeYes ∧ v = first) ∨
      (filters.assumeYes = false ∧ filters.interactive ∧ (session.Typed "" ∧ v = first ∨
        ∃ line n, session.Typed line ∧ Text.Numeral line n ∧
          Nth (first :: second :: rest) n v)) := by
  constructor
  · intro h
    cases h with
    | assumed _ hc hyes => exact Or.inl ⟨hyes, by grind⟩
    | entered _ hc hyes hint ht => exact Or.inr ⟨hyes, hint, Or.inl ⟨ht, by grind⟩⟩
    | typed _ hc hyes hint ht hnum hnth =>
      exact Or.inr ⟨hyes, hint, Or.inr ⟨_, _, ht, hnum, by grind⟩⟩
    | _ => grind
  · rintro (⟨hyes, rfl⟩ | ⟨hyes, hint, ⟨ht, rfl⟩ | ⟨line, n, ht, hnum, hnth⟩⟩)
    · exact .assumed hpick hcand hyes
    · exact .entered hpick hcand hyes hint ht
    · exact .typed hpick hcand hyes hint ht hnum hnth

end

/-- The code returns a variant exactly in the cases `Selects` lists, and fails in every other. A
slice never has more elements than a `usize` counts. -/
theorem choose_eq_ok_iff (fmt : Fmt) (session : Session) (all : List Variant) (filters : Filters)
    (hlen : all.length < 2 ^ 64) (v : Variant) :
    choose fmt session all filters = .ok v ↔ Selects session all filters v := by
  cases hpick : filters.pick with
  | some n => rw [selects_picked hpick, choose_picked_eq_ok fmt hlen hpick]
  | none =>
    have hle : (candidates all filters).length < 2 ^ 64 :=
      lt_of_le_of_lt (List.length_filter_le _ _) hlen
    simp only [choose, hpick, apply_eq_candidates]
    cases hcand : candidates all filters with
    | nil => simp [not_selects_nil hpick hcand]
    | cons first rest =>
      cases rest with
      | nil => simp [selects_singleton hpick hcand]
      | cons second rest =>
        rw [hcand] at hle
        rw [selects_many hpick hcand, ← prompt_eq_ok fmt hle]
        cases filters.assumeYes with
        | true =>
          simp only [if_true, Except.ok.injEq, true_and, Bool.true_eq_false, false_and, or_false]
          exact eq_comm
        | false =>
          cases filters.interactive with
          | true => simp
          | false => simp

/-! ### A release with three files -/

/-- Sizes below a kilobyte, and texts with nothing to escape. -/
def plainFmt : Fmt where
  humanSize n := toString n ++ " B"
  debug s := "\"" ++ s ++ "\""

def sampleVariant (code : Int) (arch : Option String) (kind : FileKind) : Variant where
  package := "com.example"
  versionName := "1.0"
  versionCode := code
  kind := kind
  size := some 512
  published := none
  arch := arch
  dpi := none
  minAndroid := none
  sha1 := none
  signature := none
  uploader := none
  downloadUrl := "https://d.apkpure.com/b/APK/com.example?versionCode=" ++ toString code

def sample : List Variant :=
  [sampleVariant 3 (some "arm64-v8a") .apk, sampleVariant 3 (some "x86, armeabi-v7a") .apk,
    sampleVariant 2 none .xapk]

def typedTwo : Session where
  flush := .ok ()
  readLine := .ok " +2\n"

/-- The second of the two files of the third release, asked for by its number. -/
theorem choose_eq_ok_iff_sample :
    Selects typedTwo sample { versionCode := some 3, interactive := true }
      (sampleVariant 3 (some "x86, armeabi-v7a") .apk) :=
  (choose_eq_ok_iff plainFmt typedTwo sample { versionCode := some 3, interactive := true }
    (by decide) _).mp (by decide)

example : renderRows plainFmt [sampleVariant 2 none .xapk]
    = "   1. 1.0            2          XAPK      512 B  universal · XAPK\n" := by decide

end Xylitol.Cli
