import Xylitol.Decimals
import Xylitol.Sorted
import Xylitol.Library.Model

/-!
# Newest first

`entries` sorts by the text of the time stamps. A stamp has every field in as many digits as it takes,
so stamps are in order as long as the seconds differ; the fraction of a second is written without the
zeros at its end, and the letter behind it follows every digit and the point:

    12:00:00Z      stands behind     12:00:00.5Z
    12:00:00.5Z    stands behind     12:00:00.52Z
-/

namespace Xylitol.Library

open Apk (PackageInfo)

/-! ## Time stamps -/

/-- How many days a month has. -/
def daysIn (year month : Nat) : Nat :=
  if month = 2 then
    if year % 4 = 0 ∧ (year % 100 ≠ 0 ∨ year % 400 = 0) then 29 else 28
  else if month = 4 ∨ month = 6 ∨ month = 9 ∨ month = 11 then 30
  else 31

/-- What `OffsetDateTime::now_utc` returns, for the years that have four digits. -/
structure Instant where
  year : Nat
  month : Nat
  day : Nat
  hour : Nat
  minute : Nat
  second : Nat
  nanosecond : Nat
  year_lt : year < 10000
  month_mem : 1 ≤ month ∧ month ≤ 12
  day_mem : 1 ≤ day ∧ day ≤ daysIn year month
  hour_lt : hour < 24
  minute_lt : minute < 60
  second_lt : second < 60
  nanosecond_lt : nanosecond < 10 ^ 9

namespace Instant

/-- The calendar and the clock, down to the second. -/
def clock (t : Instant) : List Nat := [t.year, t.month, t.day, t.hour, t.minute, t.second]

/-- Time goes on from second to second, and within one from nanosecond to nanosecond. -/
instance : LT Instant where
  lt t u := t.clock < u.clock ∨ t.clock = u.clock ∧ t.nanosecond < u.nanosecond

/-- The fraction of a second, without trailing zeros and left out when it is zero, and the offset. -/
def subsecond (t : Instant) : List Char :=
  if t.nanosecond = 0 then ['Z'] else '.' :: (fraction 9 t.nanosecond ++ ['Z'])

/-- `format(&Rfc3339)`. -/
def rfc3339 (t : Instant) : String :=
  String.ofList (decimal 4 t.year ++ '-' :: (decimal 2 t.month ++ '-' :: (decimal 2 t.day
    ++ 'T' :: (decimal 2 t.hour ++ ':' :: (decimal 2 t.minute ++ ':' :: (decimal 2 t.second
    ++ t.subsecond))))))

variable {t u : Instant}

theorem day_lt (t : Instant) : t.day < 10 ^ 2 := by
  have hle : t.day ≤ daysIn t.year t.month := t.day_mem.2
  have hmonth : daysIn t.year t.month ≤ 31 := by
    unfold daysIn
    repeat' split
    all_goals omega
  omega

/-- Stamps are ordered as the seconds are, and within a second as the fractions are written. -/
theorem rfc3339_lt_iff : t.rfc3339 < u.rfc3339 ↔
    t.clock < u.clock ∨ t.clock = u.clock ∧ t.subsecond < u.subsecond := by
  have htwo : ∀ {n}, n < 60 → n < 10 ^ 2 := fun hn => by omega
  have hhour : ∀ v : Instant, v.hour < 10 ^ 2 := fun v => htwo (v.hour_lt.trans (by decide))
  have hmonth : ∀ v : Instant, v.month < 10 ^ 2 := fun v => htwo (by have := v.month_mem; omega)
  -- field by field, each with the same character behind it
  rw [String.lt_iff, rfc3339, rfc3339, String.toList_ofList, String.toList_ofList,
    decimal_append_lt t.year_lt u.year_lt, List.cons_lt_cons_self,
    decimal_append_lt (hmonth t) (hmonth u), List.cons_lt_cons_self,
    decimal_append_lt t.day_lt u.day_lt, List.cons_lt_cons_self,
    decimal_append_lt (hhour t) (hhour u), List.cons_lt_cons_self,
    decimal_append_lt (htwo t.minute_lt) (htwo u.minute_lt), List.cons_lt_cons_self,
    decimal_append_lt (htwo t.second_lt) (htwo u.second_lt)]
  simp only [clock, List.cons_lt_cons_iff, List.cons.injEq, List.lt_irrefl, and_false, or_false,
    and_true]
  tauto

theorem digitChar_lt_letter (d : Nat) (hd : d < 10) : Nat.digitChar d < 'Z' := by
  have hz : Nat.digitChar d < 'Z' ↔ (Nat.digitChar d).toNat < 'Z'.toNat := UInt32.lt_iff_toNat_lt
  rw [hz, Nat.toNat_digitChar_of_lt_ten hd]
  show 48 + d < 90
  omega

/-- Within a second, a later stamp is the larger text unless the earlier fraction is the later one cut
off behind some digit. -/
theorem subsecond_lt_iff (h : t.nanosecond < u.nanosecond) : t.subsecond < u.subsecond ↔
    ¬ ∃ j ≤ 9, t.nanosecond = cut j u.nanosecond := by
  have hne : u.nanosecond ≠ 0 := by omega
  by_cases hzero : t.nanosecond = 0
  · have hcut : ∃ j ≤ 9, t.nanosecond = cut j u.nanosecond :=
      ⟨9, le_rfl, by rw [hzero, cut_of_lt u.nanosecond_lt]⟩
    rw [subsecond, subsecond, if_pos hzero, if_neg hne, List.cons_lt_cons_iff]
    refine iff_of_false ?_ (not_not_intro hcut)
    rintro (hlt | ⟨heq, -⟩)
    · exact absurd hlt (by decide)
    · exact absurd heq (by decide)
  · rw [subsecond, subsecond, if_neg hzero, if_neg hne, List.cons_lt_cons_self,
      fraction_append_lt_iff digitChar_lt_letter h u.nanosecond_lt]

theorem nanosecond_of_subsecond_eq (h : t.subsecond = u.subsecond) :
    t.nanosecond = u.nanosecond := by
  unfold subsecond at h
  split at h
  · next ht =>
    split at h
    · next hu => rw [ht, hu]
    · exact absurd (List.cons.inj h).1 (by decide)
  · split at h
    · exact absurd (List.cons.inj h).1 (by decide)
    · exact fraction_inj t.nanosecond_lt u.nanosecond_lt
        (List.append_cancel_right (List.cons.inj h).2)

theorem rfc3339_ne (h : t < u) : t.rfc3339 ≠ u.rfc3339 := by
  intro heq
  have hlt : ¬ t.rfc3339 < u.rfc3339 := heq.not_lt
  have hgt : ¬ u.rfc3339 < t.rfc3339 := heq.symm.not_lt
  rw [rfc3339_lt_iff, not_or, not_and] at hlt hgt
  rcases h with hclock | ⟨hclock, hnano⟩
  · exact hlt.1 hclock
  · rcases lt_trichotomy t.subsecond u.subsecond with hsub | hsub | hsub
    · exact hlt.2 hclock hsub
    · exact hnano.ne (nanosecond_of_subsecond_eq hsub)
    · exact hgt.2 hclock.symm hsub

/-- Of two instants the later has the larger stamp, unless the earlier is the later one cut off behind
some digit of its fraction. -/
theorem rfc3339_lt_iff_of_lt (h : t < u) : t.rfc3339 < u.rfc3339 ↔
    ¬ (t.clock = u.clock ∧ ∃ j ≤ 9, t.nanosecond = cut j u.nanosecond) := by
  rw [rfc3339_lt_iff]
  rcases h with hclock | ⟨hclock, hnano⟩
  · simp [hclock, hclock.ne]
  · simp [hclock, subsecond_lt_iff hnano]

end Instant

/-! ## The list -/

/-- `a` goes in front of `b`: its stamp is not the smaller. -/
def Entry.Newer (a b : Entry) : Prop := b.added ≤ a.added

instance : DecidableRel Entry.Newer := fun a b => inferInstanceAs (Decidable (b.added ≤ a.added))

instance : Std.Total Entry.Newer := ⟨fun a b => le_total b.added a.added⟩

instance : IsTrans Entry Entry.Newer := ⟨fun _ _ _ hab hbc => le_trans hbc hab⟩

/-- Entries, newest addition first. -/
def entries (index : Index) : List Entry := (index.toList.map Prod.snd).insertionSort Entry.Newer

theorem mem_entries {index : Index} {k : String} {e : Entry} (h : index[k]? = some e) :
    e ∈ entries index := by
  rw [entries, List.mem_insertionSort, List.mem_map]
  exact ⟨(k, e), Std.ExtTreeMap.mem_toList_iff_getElem?_eq_some.mpr h, rfl⟩

theorem getElem?_filter_eq_some {index : Index} {keep : String → Entry → Bool} {k : String}
    {e : Entry} : (index.filter keep)[k]? = some e ↔ index[k]? = some e ∧ keep k e := by
  rw [Std.ExtTreeMap.getElem?_filter, Option.pfilter_eq_some_iff]
  simp

theorem erase_eq_filter (index : Index) (key : String) :
    index.erase key = index.filter fun k _ => k ≠ key := by
  apply Std.ExtTreeMap.ext_getElem?
  intro k
  apply Option.ext
  intro e
  rw [getElem?_filter_eq_some, Std.ExtTreeMap.getElem?_erase]
  simp only [compare_eq_iff_eq]
  by_cases h : key = k
  · simp [h]
  · simp [h, Ne.symm h]

theorem filter_filter (index : Index) (keep keep' : String → Entry → Bool) :
    (index.filter keep).filter keep' = index.filter fun k e => keep k e && keep' k e := by
  apply Std.ExtTreeMap.ext_getElem?
  intro k
  apply Option.ext
  intro e
  simp only [getElem?_filter_eq_some, Bool.and_eq_true, and_assoc]

/-- What is listed of a part of the index is the part of the list, in the same order. -/
theorem entries_filter {index : Index} {keep : String → Entry → Bool} {p : Entry → Bool}
    (h : ∀ (k : String) (e : Entry), index[k]? = some e → keep k e = p e) :
    entries (index.filter keep) = (entries index).filter p := by
  rw [entries, entries, filter_insertionSort, Std.ExtTreeMap.toList_filter, List.filter_map]
  congr 2
  apply List.filter_congr
  rintro ⟨k, e⟩ hmem
  exact h k e (Std.ExtTreeMap.mem_toList_iff_getElem?_eq_some.mp hmem)

/-- Of two entries with different stamps the one with the larger stands first. -/
theorem before_entries_iff {index : Index} {k l : String} {e f : Entry} (he : index[k]? = some e)
    (hf : index[l]? = some f) (hne : e.added ≠ f.added) :
    Before (entries index) f e ↔ e.added < f.added := by
  have hsorted : (entries index).Pairwise Entry.Newer := List.pairwise_insertionSort _ _
  have hboth : ¬ (f.Newer e ∧ e.Newer f) := fun h => hne (le_antisymm h.1 h.2)
  rw [before_iff hsorted (mem_entries hf) (mem_entries he) (Std.Total.total f e) hboth,
    Entry.Newer, lt_iff_le_and_ne, and_iff_left hne]

/-- The entry added later stands first, unless the earlier instant is the later one cut off behind some
digit of its fraction. -/
theorem newest_first_iff {index : Index} {k l : String} {e f : Entry} {t u : Instant}
    (he : index[k]? = some e) (hf : index[l]? = some f) (ht : e.added = t.rfc3339)
    (hu : f.added = u.rfc3339) (htu : t < u) : Before (entries index) f e ↔
      ¬ (t.clock = u.clock ∧ ∃ j ≤ 9, t.nanosecond = cut j u.nanosecond) := by
  have hne : e.added ≠ f.added := by
    rw [ht, hu]
    exact Instant.rfc3339_ne htu
  rw [before_entries_iff he hf hne, ht, hu, Instant.rfc3339_lt_iff_of_lt htu]

/-! ## Two additions within a second -/

/-- Some noon, and `nanosecond` more. -/
def noon (nanosecond : Nat) (h : nanosecond < 10 ^ 9) : Instant where
  year := 2025
  month := 2
  day := 28
  hour := 12
  minute := 0
  second := 0
  nanosecond := nanosecond
  year_lt := by decide
  month_mem := by decide
  day_mem := by decide
  hour_lt := by decide
  minute_lt := by decide
  second_lt := by decide
  nanosecond_lt := h

example : (noon 0 (by decide)).rfc3339 = "2025-02-28T12:00:00Z" := by decide

example : (noon 520000000 (by decide)).rfc3339 = "2025-02-28T12:00:00.52Z" := by decide

def addedAt (info : PackageInfo) (t : Instant) : Entry :=
  ⟨utf8Bytes "/d/app", info, none, t.rfc3339, false⟩

/-- The index after an app was added at `t` and a bundle of it at `u`. -/
def twoAdditions (t u : Instant) : Index :=
  ((∅ : Index).insert (key baseInfo) (addedAt baseInfo t)).insert (key armInfo) (addedAt armInfo u)

theorem getElem?_twoAdditions (t u : Instant) :
    (twoAdditions t u)[key baseInfo]? = some (addedAt baseInfo t) ∧
      (twoAdditions t u)[key armInfo]? = some (addedAt armInfo u) := by
  have hkeys : ¬ compare (key armInfo) (key baseInfo) = .eq := by
    rw [compare_eq_iff_eq]
    decide
  constructor
  · rw [twoAdditions, Std.ExtTreeMap.getElem?_insert, if_neg hkeys,
      Std.ExtTreeMap.getElem?_insert_self]
  · rw [twoAdditions, Std.ExtTreeMap.getElem?_insert_self]

/-- The second addition a quarter of a second after the first. -/
theorem newest_first_iff_quarter :
    Before (entries (twoAdditions (noon 250000000 (by decide)) (noon 500000000 (by decide))))
      (addedAt armInfo (noon 500000000 (by decide)))
      (addedAt baseInfo (noon 250000000 (by decide))) := by
  obtain ⟨hbase, harm⟩ :=
    getElem?_twoAdditions (noon 250000000 (by decide)) (noon 500000000 (by decide))
  exact (newest_first_iff hbase harm rfl rfl (Or.inr ⟨rfl, by decide⟩)).mpr (by decide)

/-- The second addition half a second after the first, which was made on the second. -/
theorem older_entry_first :
    noon 0 (by decide) < noon 500000000 (by decide) ∧
    ¬ Before (entries (twoAdditions (noon 0 (by decide)) (noon 500000000 (by decide))))
      (addedAt armInfo (noon 500000000 (by decide))) (addedAt baseInfo (noon 0 (by decide))) := by
  refine ⟨Or.inr ⟨rfl, by decide⟩, ?_⟩
  obtain ⟨hbase, harm⟩ := getElem?_twoAdditions (noon 0 (by decide)) (noon 500000000 (by decide))
  rw [before_entries_iff hbase harm (by decide)]
  decide

end Xylitol.Library
