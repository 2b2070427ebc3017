import Xylitol.Apkpure.Ranking
import Xylitol.Cli.Select

/-!
# The file taken without asking

With `--yes` the first file that matches is taken, and what comes first is up to the order in which
the client returned the files. `Best` says on the page itself which file that is.
-/

namespace Xylitol.Cli

open Apkpure

variable {page : List Variant} {filters : Filters} {v : Variant}

/-- `v` matches, no file of the page that matches is newer, none as new is wider, and none as new and
as wide is before it on the page. -/
structure Best (filters : Filters) (page : List Variant) (v : Variant) : Prop where
  admits : filters.Admits v
  newest : ∀ u ∈ page, filters.Admits u → u.versionCode ≤ v.versionCode
  widest : ∀ u ∈ page, filters.Admits u → u.versionCode = v.versionCode →
    archRank v.arch ≤ archRank u.arch
  first : ∃ before after, page = before ++ v :: after ∧ ∀ u ∈ before, filters.Admits u →
    u.versionCode = v.versionCode → archRank u.arch ≠ archRank v.arch

/-- Filtering a page that was sorted, or sorting a page that was filtered. -/
theorem candidates_variants (page : List Variant) (filters : Filters) :
    candidates (Client.variants page) filters
      = (candidates page filters).insertionSort Variant.Leads :=
  filter_insertionSort (fun v => decide (filters.Admits v)) page

/-- Without a question there is no difference between one candidate and several. -/
theorem choose_unattended_eq_ok_iff (fmt : Fmt) (session : Session) {all : List Variant}
    (hpick : filters.pick = none) (hyes : filters.assumeYes) :
    choose fmt session all filters = .ok v ↔ (candidates all filters).head? = some v := by
  simp only [choose, hpick, apply_eq_candidates]
  cases candidates all filters with
  | nil => simp
  | cons first rest =>
    cases rest with
    | nil => simp
    | cons second rest => simp [hyes]

theorem firstLeast_candidates_iff :
    FirstLeast Variant.Leads v (candidates page filters) ↔ Best filters page v := by
  rw [candidates, firstLeast_filter]
  simp only [decide_eq_true_eq, Variant.leads_iff]
  constructor
  · rintro ⟨hv, before, after, rfl, hbefore, hafter⟩
    have hle : ∀ u ∈ before ++ v :: after, filters.Admits u → v.Leads u := by
      intro u hu hadm
      rw [Variant.leads_iff]
      rcases List.mem_append.mp hu with hu | hu
      · have := hbefore u hu hadm
        omega
      · rcases List.mem_cons.mp hu with rfl | hu
        · omega
        · exact hafter u hu hadm
    simp only [Variant.leads_iff] at hle
    refine ⟨hv, ?_, ?_, before, after, rfl, ?_⟩
    · intro u hu hadm
      have := hle u hu hadm
      omega
    · intro u hu hadm hcode
      have := hle u hu hadm
      omega
    · intro u hu hadm hcode
      have := hbefore u hu hadm
      omega
  · rintro ⟨hv, hnewest, hwidest, before, after, rfl, hfirst⟩
    refine ⟨hv, before, after, rfl, ?_, ?_⟩
    · intro u hu hadm
      have hmem : u ∈ before ++ v :: after := List.mem_append_left _ hu
      have hcode := hnewest u hmem hadm
      have hrank := hwidest u hmem hadm
      have hne := hfirst u hu hadm
      omega
    · intro u hu hadm
      have hmem : u ∈ before ++ v :: after :=
        List.mem_append_right _ (List.mem_cons_of_mem _ hu)
      have hcode := hnewest u hmem hadm
      have hrank := hwidest u hmem hadm
      omega

/-- The file that is taken is the best of the page, and no other is. -/
theorem choose_variants_eq_ok_iff (fmt : Fmt) (session : Session) (hpick : filters.pick = none)
    (hyes : filters.assumeYes) :
    choose fmt session (Client.variants page) filters = .ok v ↔ Best filters page v := by
  rw [choose_unattended_eq_ok_iff fmt session hpick hyes, candidates_variants, head?_insertionSort,
    firstLeast_candidates_iff]

/-- Where anything matches, the newest and widest of what matches is taken, and sorting leaves the
page with the files it had. -/
theorem unattended_takes_best (fmt : Fmt) (session : Session) (page : List Variant)
    (filters : Filters) (hpick : filters.pick = none) (hyes : filters.assumeYes) :
    (Client.variants page).Perm page ∧ ((∃ u ∈ page, filters.Admits u) →
      ∃ v, choose fmt session (Client.variants page) filters = .ok v ∧ Best filters page v) := by
  refine ⟨Client.variants_perm page, ?_⟩
  rintro ⟨u, hu, hadm⟩
  have hmem : u ∈ candidates (Client.variants page) filters :=
    List.mem_filter.mpr ⟨(Client.variants_perm page).mem_iff.mpr hu, decide_eq_true hadm⟩
  obtain ⟨v, hv⟩ : ∃ v, (candidates (Client.variants page) filters).head? = some v :=
    Option.isSome_iff_exists.mp (List.isSome_head?.mpr (List.ne_nil_of_mem hmem))
  have hchoose := (choose_unattended_eq_ok_iff fmt session hpick hyes).mpr hv
  exact ⟨v, hchoose, (choose_variants_eq_ok_iff fmt session hpick hyes).mp hchoose⟩

/-- Four files of two releases, the one that fits last on the page. -/
def samplePage : List Variant :=
  [sampleVariant 2 none .xapk, sampleVariant 3 (some "x86") .xapk,
    sampleVariant 3 (some "arm64-v8a, armeabi-v7a") .apk,
    sampleVariant 3 (some " universal ") .xapk]

theorem unattended_takes_best_sample : (Client.variants samplePage).Perm samplePage ∧
    ∃ v, choose plainFmt typedTwo (Client.variants samplePage) { assumeYes := true } = .ok v ∧
      Best { assumeYes := true } samplePage v := by
  have h := unattended_takes_best plainFmt typedTwo samplePage { assumeYes := true } rfl rfl
  exact ⟨h.1, h.2 ⟨sampleVariant 2 none .xapk, by decide, by decide⟩⟩

example : choose plainFmt typedTwo (Client.variants samplePage) { assumeYes := true }
    = .ok (sampleVariant 3 (some " universal ") .xapk) := by decide

end Xylitol.Cli
