import Xylitol.Cli.Select

/-!
# The number shown and the number to pick

A choice left open prints the candidates, numbered among themselves; `--pick` counts in the list
that was given. The two numberings agree exactly when the filters keep a front segment of the list.
-/

namespace Xylitol.Cli

open Apkpure

theorem mem_numbered {variants : List Variant} {row : Nat × Variant} :
    row ∈ numbered variants ↔ ∃ i, row.1 = i + 1 ∧ variants[i]? = some row.2 := by
  simp only [numbered, List.mem_map, Prod.exists, List.mk_mem_zipIdx_iff_getElem?]
  constructor
  · rintro ⟨v, i, hget, rfl⟩
    exact ⟨i, rfl, hget⟩
  · rintro ⟨i, hi, hget⟩
    exact ⟨row.2, i, hget, by rw [← hi]⟩

/-- The filters with an explicit position besides. -/
def Filters.at (filters : Filters) (i : Nat) : Filters :=
  { filters with pick := some (UInt64.ofNat i) }

theorem choose_at_eq_ok (fmt : Fmt) (session : Session) {all : List Variant} (filters : Filters)
    (hlen : all.length < 2 ^ 64) {i : Nat} (hi : i < all.length) {v : Variant} :
    choose fmt session all (filters.at (i + 1)) = .ok v ↔ all[i]? = some v := by
  have hlt : i + 1 < 2 ^ 64 := by omega
  have hn : (UInt64.ofNat (i + 1)).toNat = i + 1 := UInt64.toNat_ofNat_of_lt' hlt
  rw [choose_picked_eq_ok fmt hlen rfl, hn, Nth]
  simp

/-- Where the choice is left open, the rows printed are numbered as `--pick` counts exactly when no
variant that the filters reject stands before one that they keep. -/
theorem choose_row_iff (fmt : Fmt) (session : Session) (all : List Variant) (filters : Filters)
    (hlen : all.length < 2 ^ 64) (hpick : filters.pick = none) (hyes : filters.assumeYes = false)
    (hint : filters.interactive = false) (hmany : 2 ≤ (apply all filters).length) :
    choose fmt session all filters = .error (ambiguous fmt (apply all filters)) ∧
    ((∀ row ∈ numbered (apply all filters),
        choose fmt session all (filters.at row.1) = .ok row.2) ↔
      KeepsFront (fun v => decide (filters.Admits v)) all) := by
  have herror : choose fmt session all filters = .error (ambiguous fmt (apply all filters)) := by
    simp only [choose, hpick]
    cases hcand : apply all filters with
    | nil => simp [hcand] at hmany
    | cons first rest =>
      cases rest with
      | nil => simp [hcand] at hmany
      | cons second rest => simp [hyes, hint]
  refine ⟨herror, ?_⟩
  rw [← getElem?_filter_iff, apply_eq_candidates]
  show _ ↔ ∀ (i : Nat) (v : Variant), (candidates all filters)[i]? = some v → all[i]? = some v
  have hbound : ∀ {i : Nat} {v : Variant}, (candidates all filters)[i]? = some v →
      i < all.length := by
    intro i v hget
    exact lt_of_lt_of_le (List.getElem?_eq_some_iff.mp hget).1 (List.length_filter_le _ _)
  constructor
  · intro h i v hget
    have hrow := h (i + 1, v) (mem_numbered.mpr ⟨i, rfl, hget⟩)
    exact (choose_at_eq_ok fmt session filters hlen (hbound hget)).mp hrow
  · intro h row hrow
    obtain ⟨i, hi, hget⟩ := mem_numbered.mp hrow
    rw [hi]
    exact (choose_at_eq_ok fmt session filters hlen (hbound hget)).mpr (h i row.2 hget)

/-- The two files of the third release do come first. -/
theorem choose_row_iff_sample :
    choose plainFmt typedTwo sample (Filters.at { versionCode := some 3 } 2) =
      .ok (sampleVariant 3 (some "x86, armeabi-v7a") .apk) := by
  have hrows := (choose_row_iff plainFmt typedTwo sample { versionCode := some 3 }
    (by decide) rfl rfl rfl (by decide)).2.mpr (by
      rw [KeepsFront]
      decide)
  exact hrows (2, sampleVariant 3 (some "x86, armeabi-v7a") .apk)
    (by rw [apply_eq_candidates]; decide)

/-- A fourth release in front of the sample. -/
def shifted : List Variant := sampleVariant 4 (some "arm64-v8a") .apk :: sample

/-- The numbers are off by one then: the first row shows a file of the third release, and picking
the first takes the one of the fourth. -/
theorem choose_row_shifted :
    choose plainFmt typedTwo shifted { versionCode := some 3 }
        = .error (ambiguous plainFmt (apply shifted { versionCode := some 3 })) ∧
      ¬ ∀ row ∈ numbered (apply shifted { versionCode := some 3 }),
        choose plainFmt typedTwo shifted (Filters.at { versionCode := some 3 } row.1)
          = .ok row.2 := by
  constructor
  · decide +kernel
  · intro h
    have hfirst := h (1, sampleVariant 3 (some "arm64-v8a") .apk) (by decide)
    exact absurd hfirst (by decide)

end Xylitol.Cli
