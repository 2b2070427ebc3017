import Xylitol.Cli.Select

/-!
# Choosing which file to download, in the window

`fill` lists the files under two drop-downs, one for the architecture and one for the format. The
command line narrows the same list with `Cli.apply`; `rebuild_files_iff` says when both keep the
same files.
-/

namespace Xylitol.Gui

open Apkpure

def anyArch : String := "Any architecture"

/-- The ABI of a machine of the given architecture, in Android's naming. -/
def hostAbi (arch : String) : String :=
  if arch = "x86_64" then "x86_64"
  else if arch = "x86" then "x86"
  else if arch = "aarch64" then "arm64-v8a"
  else if arch = "arm" then "armeabi-v7a"
  else "universal"

/-- The field as it is listed; a missing one is listed as `universal`. -/
def archName (v : Variant) : String := v.arch.getD "universal"

/-- The entries of the architecture drop-down: each name once, where it first appears. -/
def architectures (variants : List Variant) : List String :=
  variants.foldl (fun names v =>
    if names.contains (archName v) then names else names ++ [archName v]) [anyArch]

/-- The entry selected at first: the architecture this machine runs, when that is on offer. -/
def initialArch (variants : List Variant) (arch : String) : Nat :=
  ((architectures variants).idxOf? (hostAbi arch)).getD 0

/-- What is selected in the architecture drop-down; `none` lists every one. -/
def wantedArch (variants : List Variant) (selected : Nat) : Option String :=
  (architectures variants)[selected]?.filter (· ≠ anyArch)

/-- What is selected among "Any format", "APK only" and "XAPK only". -/
def wantedKind : Nat → Option FileKind
  | 1 => some .apk
  | 2 => some .xapk
  | _ => none

def matching (variants : List Variant) (arch : Option String) (kind : Option FileKind) :
    List Variant :=
  (variants.filter fun v => match arch with
    | none => true
    | some want => Text.eqIgnoreAsciiCase (archName v) want).filter
    fun v => kind.all fun k => v.kind == k

/-- The rows of one release. -/
structure Group where
  title : String
  description : String
  rows : List Variant
  deriving DecidableEq, Repr

/-- What the page shows under the drop-downs. -/
inductive Listing where
  | empty (title description : String)
  | groups (groups : List Group)
  deriving DecidableEq, Repr

/-- The files a listing has a row for, from top to bottom. -/
def Listing.files : Listing → List Variant
  | empty _ _ => []
  | groups gs => gs.flatMap Group.rows

section

-- how a text is escaped for a label
variable (markup : String → String)

def newGroup (v : Variant) : Group where
  title := markup v.versionName ++ " (" ++ toString v.versionCode ++ ")"
  description := v.published.getD ""
  rows := [v]

/-- One group per release: `current` is the release of the last group, `done` the groups so far with
the last one first. -/
def grouped : Option Int → List Group → List Variant → List Group
  | _, done, [] => done.reverse
  | current, done, v :: vs =>
    if current ≠ some v.versionCode then
      grouped (some v.versionCode) (newGroup markup v :: done) vs
    else match done with
      | group :: done => grouped current ({ group with rows := group.rows ++ [v] } :: done) vs
      | [] => grouped current [] vs

/-- What a change of either drop-down puts on the page. -/
def rebuild (variants : List Variant) (archSelected kindSelected : Nat) : Listing :=
  let files := matching variants (wantedArch variants archSelected) (wantedKind kindSelected)
  if files.isEmpty then
    .empty "No matching files" "Widen the filter to see the other builds of this app."
  else .groups (grouped markup none [] files)

/-- Once there is a group for the current release, no row is lost. -/
theorem flatMap_rows_grouped {current : Option Int} {done : List Group} {vs : List Variant}
    (h : current = none ∨ done ≠ []) :
    (grouped markup current done vs).flatMap Group.rows
      = done.reverse.flatMap Group.rows ++ vs := by
  induction vs generalizing current done with
  | nil => simp [grouped]
  | cons v vs ih =>
    simp only [grouped]
    split
    · rw [ih (Or.inr (List.cons_ne_nil _ _))]
      simp [newGroup]
    · next hcurrent =>
        cases done with
        | nil => grind
        | cons group done =>
          rw [ih (Or.inr (List.cons_ne_nil _ _))]
          simp

theorem files_rebuild (variants : List Variant) (archSelected kindSelected : Nat) :
    (rebuild markup variants archSelected kindSelected).files
      = matching variants (wantedArch variants archSelected) (wantedKind kindSelected) := by
  rw [rebuild]
  split
  · next hempty => exact (List.isEmpty_iff.mp hempty).symm
  · show (grouped markup none [] _).flatMap Group.rows = _
    rw [flatMap_rows_grouped markup (Or.inl rfl)]
    rfl

end

/-! ### The entries on offer -/

/-- The names collected by the loop: those before it in front, then the new ones. -/
theorem foldl_architectures (variants : List Variant) (names : List String) :
    names <+: variants.foldl (fun names v =>
      if names.contains (archName v) then names else names ++ [archName v]) names ∧
    ∀ name, name ∈ variants.foldl (fun names v =>
      if names.contains (archName v) then names else names ++ [archName v]) names ↔
      name ∈ names ∨ ∃ v ∈ variants, archName v = name := by
  induction variants generalizing names with
  | nil => simp
  | cons v vs ih =>
    rw [List.foldl_cons]
    obtain ⟨hfront, hmem⟩ := ih (if names.contains (archName v) then names
      else names ++ [archName v])
    constructor
    · apply List.IsPrefix.trans ?_ hfront
      split
      · exact List.prefix_rfl
      · exact List.prefix_append _ _
    · intro name
      rw [hmem]
      grind

theorem mem_architectures {variants : List Variant} {name : String} :
    name ∈ architectures variants ↔ name = anyArch ∨ ∃ v ∈ variants, archName v = name := by
  rw [architectures, (foldl_architectures variants _).2, List.mem_singleton]

theorem architectures_zero (variants : List Variant) :
    (architectures variants)[0]? = some anyArch := by
  obtain ⟨names, hnames⟩ := (foldl_architectures variants [anyArch]).1
  rw [architectures, ← hnames]
  rfl

/-- The page opens on the machine's own architecture when that is on offer, else on every one. -/
theorem getElem?_initialArch (variants : List Variant) (arch : String) :
    (architectures variants)[initialArch variants arch]?
      = some (if hostAbi arch ∈ architectures variants then hostAbi arch else anyArch) := by
  rw [initialArch]
  cases hfind : (architectures variants).idxOf? (hostAbi arch) with
  | none =>
    rw [if_neg (List.idxOf?_eq_none_iff.mp hfind)]
    exact architectures_zero variants
  | some i =>
    obtain ⟨hi, hget, -⟩ := List.idxOf?_eq_some_iff.mp hfind
    have hname : (architectures variants)[i] = hostAbi arch := hget
    rw [if_pos (hname ▸ List.getElem_mem hi)]
    exact List.getElem?_eq_some_iff.mpr ⟨hi, hname⟩

/-! ### The two front-ends -/

/-- A file that offers the architecture `want` and whose published field does not read `want`: the
two differ in surrounding space, or the field lists `want` among others. -/
inductive Hidden (want : String) (v : Variant) : Prop
  | padded : Cli.SameArch (archName v) want →
      ¬ Text.eqIgnoreAsciiCase (archName v) want → Hidden want v
  | listed {field part} : v.arch = some field → part ∈ Text.split field ',' →
      Cli.SameArch part want → ¬ Text.eqIgnoreAsciiCase field want → Hidden want v

theorem offers_iff {want : String} {v : Variant} : Cli.Offers v.arch want ↔
    Text.eqIgnoreAsciiCase (archName v) want ∨ Hidden want v := by
  by_cases hname : Text.eqIgnoreAsciiCase (archName v) want
  · -- what reads `want` offers it
    refine iff_of_true ?_ (Or.inl hname)
    have hsame : Cli.SameArch (archName v) want := Text.eqIgnoreAsciiCase_trim hname
    cases harch : v.arch with
    | none =>
      rw [archName, harch] at hsame
      exact Cli.SameArch.symm hsame
    | some field =>
      rw [archName, harch] at hsame
      exact Or.inl hsame
  · rw [or_iff_right hname]
    cases harch : v.arch with
    | none =>
      have huniversal : archName v = "universal" := by rw [archName, harch]; rfl
      constructor
      · intro h
        exact .padded (huniversal ▸ Cli.SameArch.symm h) hname
      · intro h
        cases h with
        | padded hsame _ => exact Cli.SameArch.symm (huniversal ▸ hsame)
        | listed hfield => simp [harch] at hfield
    | some field =>
      have hfieldName : archName v = field := by rw [archName, harch]; rfl
      constructor
      · rintro (hsame | ⟨part, hpart, hsame⟩)
        · exact .padded (hfieldName ▸ hsame) hname
        · exact .listed harch hpart hsame (hfieldName ▸ hname)
      · intro h
        cases h with
        | padded hsame _ => exact Or.inl (hfieldName ▸ hsame)
        | listed hfield hpart hsame _ =>
          rw [harch] at hfield
          cases hfield
          exact Or.inr ⟨_, hpart, hsame⟩

theorem not_hidden_of_eqIgnoreAsciiCase {want : String} {v : Variant}
    (h : Text.eqIgnoreAsciiCase (archName v) want) : ¬ Hidden want v := by
  intro hidden
  cases hidden with
  | padded _ hne => exact hne h
  | listed hfield _ _ hne =>
    rw [archName, hfield] at h
    exact hne h

/-- Under an entry of the drop-down and a format, the window lists the files the command line keeps
exactly when no file of the format is hidden. -/
theorem rebuild_files_iff (markup : String → String) (variants : List Variant)
    (archSelected kindSelected : Nat) (want : String)
    (hwant : (architectures variants)[archSelected]? = some want) (hany : want ≠ anyArch) :
    (rebuild markup variants archSelected kindSelected).files
        = Cli.apply variants { arch := some want, kind := wantedKind kindSelected } ↔
      ∀ v ∈ variants, (∀ k, wantedKind kindSelected = some k → v.kind = k) → ¬ Hidden want v := by
  have hselected : wantedArch variants archSelected = some want := by
    simp [wantedArch, hwant, hany]
  -- what the window asks of a file, and what the command line does
  have hgui : ∀ v, (((wantedKind kindSelected).all fun k => v.kind == k) &&
      Text.eqIgnoreAsciiCase (archName v) want) ↔
      (∀ k, wantedKind kindSelected = some k → v.kind = k) ∧
        Text.eqIgnoreAsciiCase (archName v) want := by
    intro v
    simp [Option.all_eq_true]
  have hcli : ∀ v, decide
      (Cli.Filters.Admits { arch := some want, kind := wantedKind kindSelected } v) ↔
      (∀ k, wantedKind kindSelected = some k → v.kind = k) ∧
        (Text.eqIgnoreAsciiCase (archName v) want ∨ Hidden want v) := by
    intro v
    rw [decide_eq_true_iff, ← offers_iff]
    constructor
    · intro h
      exact ⟨h.kind, h.arch want rfl⟩
    · rintro ⟨hkind, hoffers⟩
      refine ⟨?_, hkind, ?_⟩
      · rintro c ⟨⟩
      · rintro w ⟨⟩
        exact hoffers
  rw [files_rebuild, Cli.apply_eq_candidates, hselected, matching, Cli.candidates,
    List.filter_filter, filter_eq_filter_iff]
  apply forall₂_congr
  intro v _
  rw [hgui, hcli]
  constructor
  · intro h hkind hidden
    exact not_hidden_of_eqIgnoreAsciiCase (h.mpr ⟨hkind, Or.inr hidden⟩).2 hidden
  · intro h
    constructor
    · rintro ⟨hkind, hname⟩
      exact ⟨hkind, Or.inl hname⟩
    · rintro ⟨hkind, hname | hidden⟩
      · exact ⟨hkind, hname⟩
      · exact absurd hidden (h hkind)

/-- In the sample nothing is hidden under `arm64-v8a`. -/
theorem rebuild_files_iff_sample :
    (rebuild id Cli.sample 1 0).files
        = Cli.apply Cli.sample { arch := some "arm64-v8a", kind := wantedKind 0 } ∧
      ¬ ∃ v ∈ Cli.sample, (∀ k, wantedKind 0 = some k → v.kind = k) ∧ Hidden "arm64-v8a" v := by
  have hsame : (rebuild id Cli.sample 1 0).files
      = Cli.apply Cli.sample { arch := some "arm64-v8a", kind := wantedKind 0 } := by decide
  refine ⟨hsame, ?_⟩
  rintro ⟨v, hmem, hkind, hidden⟩
  exact (rebuild_files_iff id Cli.sample 1 0 "arm64-v8a" (by decide) (by decide)).mp hsame
    v hmem hkind hidden

/-- A build for both ARM ABIs beside one for the newer alone. -/
def bothArm : List Variant :=
  [Cli.sampleVariant 3 (some "arm64-v8a") .apk,
    Cli.sampleVariant 3 (some "armeabi-v7a, arm64-v8a") .apk]

/-- Under `arm64-v8a` the window leaves out the build that lists it second. -/
theorem rebuild_files_bothArm :
    (architectures bothArm)[1]? = some "arm64-v8a" ∧
      (rebuild id bothArm 1 0).files
        ≠ Cli.apply bothArm { arch := some "arm64-v8a", kind := wantedKind 0 } := by
  decide

end Xylitol.Gui
