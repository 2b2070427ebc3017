import Xylitol.Apkpure.Model
import Xylitol.Sorted

/-!
# The order of the files of an app

`Client::variants` puts the files of a download page in order before anyone sees them: the newest
build first, then the widest architecture. The sort is stable, so files that neither key tells apart
stay in the order of the page.
-/

namespace Xylitol.Apkpure

/-- Order ABIs so that the most broadly compatible build sorts first. -/
def archRank (arch : Option String) : Nat :=
  match arch.map Text.trim with
  | none => 0
  | some a =>
    if a = "" then 0
    else if Text.eqIgnoreAsciiCase a "universal" then 0
    else if Text.contains a "," then 1
    else if a = "arm64-v8a" then 2
    else if a = "armeabi-v7a" then 3
    else if a = "x86_64" then 4
    else if a = "x86" then 5
    else 6

/-- The comparison `Client::variants` sorts by. -/
def Variant.cmp (a b : Variant) : Ordering :=
  (compare b.versionCode a.versionCode).then (compare (archRank a.arch) (archRank b.arch))

/-- `a` goes in front of `b` when it comes first on the page. -/
def Variant.Leads (a b : Variant) : Prop := (a.cmp b).isLE

instance : DecidableRel Variant.Leads := fun a b =>
  inferInstanceAs (Decidable ((a.cmp b).isLE = true))

/-- The files of the page `parsed`, as `Client::variants` returns them. -/
def Client.variants (parsed : List Variant) : List Variant := parsed.insertionSort Variant.Leads

theorem Variant.leads_iff {a b : Variant} : a.Leads b ↔ b.versionCode < a.versionCode ∨
    a.versionCode = b.versionCode ∧ archRank a.arch ≤ archRank b.arch := by
  rw [Leads, cmp, Ordering.isLE_then_iff_or, compare_lt_iff_lt, compare_eq_iff_eq, Nat.isLE_compare,
    @eq_comm _ b.versionCode]

instance : Std.Total Variant.Leads := by
  constructor
  intro a b
  rw [Variant.leads_iff, Variant.leads_iff]
  omega

instance : IsTrans Variant Variant.Leads := by
  constructor
  intro a b c hab hbc
  rw [Variant.leads_iff] at hab hbc ⊢
  omega

/-- Nothing is lost and nothing is there twice. -/
theorem Client.variants_perm (parsed : List Variant) : (Client.variants parsed).Perm parsed :=
  List.perm_insertionSort Variant.Leads parsed

/-- Newest build first, then widest architecture. -/
theorem Client.variants_pairwise (parsed : List Variant) :
    (Client.variants parsed).Pairwise Variant.Leads :=
  List.pairwise_insertionSort Variant.Leads parsed

end Xylitol.Apkpure
