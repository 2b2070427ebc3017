import Xylitol.Result

/-!
# Maps filled from lists of entries

A sorted map that is filled entry by entry holds, under each key, the last entry the list has there:

    (ofList entries)[k]? = lastUnder k entries

and reads off in the order of its keys, so that two maps whose keys correspond in order have
corresponding lists (`toList_eq_map`).
-/

namespace Xylitol

open Std (ExtTreeMap)

variable {κ κ' β : Type}

/-! ## The last entry under a key -/

section Last

variable [DecidableEq κ]

/-- What the last entry of `entries` with the key `k` holds. -/
def lastUnder (k : κ) (entries : List (κ × β)) : Option β :=
  entries.findSomeRev? fun e => if e.1 = k then some e.2 else none

@[simp] theorem lastUnder_nil (k : κ) : lastUnder k ([] : List (κ × β)) = none := rfl

theorem lastUnder_cons (k : κ) (e : κ × β) (entries : List (κ × β)) :
    lastUnder k (e :: entries)
      = (lastUnder k entries).or (if e.1 = k then some e.2 else none) := by
  simp [lastUnder, List.findSomeRev?_eq_findSome?_reverse, List.findSome?_append]

theorem mem_of_lastUnder {k : κ} {v : β} {entries : List (κ × β)}
    (h : lastUnder k entries = some v) : (k, v) ∈ entries := by
  induction entries with
  | nil => cases h
  | cons e entries ih =>
      rw [lastUnder_cons] at h
      cases hlast : lastUnder k entries with
      | some v' =>
          rw [hlast, Option.some_or] at h
          cases h
          exact List.mem_cons_of_mem _ (ih hlast)
      | none =>
          rw [hlast, Option.none_or] at h
          split at h
          · next hk =>
              cases h
              subst hk
              exact List.mem_cons_self
          · cases h

/-- A key that has an entry has a last one. -/
theorem exists_lastUnder {k : κ} {v : β} {entries : List (κ × β)} (h : (k, v) ∈ entries) :
    ∃ v', lastUnder k entries = some v' := by
  induction entries with
  | nil => cases h
  | cons e entries ih =>
      rw [lastUnder_cons]
      cases hlast : lastUnder k entries with
      | some v' => exact ⟨v', rfl⟩
      | none =>
          rcases List.mem_cons.mp h with rfl | h
          · exact ⟨v, by simp⟩
          · obtain ⟨v', hv'⟩ := ih h
            rw [hlast] at hv'
            cases hv'

/-- Where all entries under a key agree, the last one is as good as any. -/
theorem lastUnder_of_agree {k : κ} {v : β} {entries : List (κ × β)} (h : (k, v) ∈ entries)
    (hagree : ∀ v', (k, v') ∈ entries → v' = v) : lastUnder k entries = some v := by
  obtain ⟨v', hv'⟩ := exists_lastUnder h
  rw [hv', hagree v' (mem_of_lastUnder hv')]

theorem lastUnder_map [DecidableEq κ'] {f : κ → κ'} (hinj : ∀ a b, f a = f b ↔ a = b) (k : κ)
    (entries : List (κ × β)) :
    lastUnder (f k) (entries.map fun e => (f e.1, e.2)) = lastUnder k entries := by
  induction entries with
  | nil => rfl
  | cons e entries ih =>
      rw [List.map_cons, lastUnder_cons, lastUnder_cons, ih]
      simp only [hinj]

/-! ## Maps -/

variable [Ord κ] [Std.TransOrd κ] [Std.LawfulEqOrd κ]

theorem getElem?_ofList (entries : List (κ × β)) (k : κ) :
    (ExtTreeMap.ofList entries)[k]? = lastUnder k entries := by
  rw [ExtTreeMap.ofList_eq_insertMany_empty, ExtTreeMap.getElem?_insertMany_list,
    ExtTreeMap.getElem?_empty, Option.or_none]
  simp only [lastUnder, Std.compare_eq_iff_eq]

end Last

/-! ## Order -/

variable [Ord κ] [Std.TransOrd κ]

/-- Lists in strict order of their keys are equal when they have the same entries. -/
theorem eq_of_ordered {l l' : List (κ × β)} (h : l.Pairwise fun a b => compare a.1 b.1 = .lt)
    (h' : l'.Pairwise fun a b => compare a.1 b.1 = .lt) (hmem : ∀ e, e ∈ l ↔ e ∈ l') : l = l' := by
  have hnodup : ∀ {l : List (κ × β)}, (l.Pairwise fun a b => compare a.1 b.1 = .lt) → l.Nodup := by
    intro l h
    apply h.imp
    intro a b hlt hab
    rw [hab, Std.compare_self] at hlt
    cases hlt
  apply List.Perm.eq_of_pairwise _ h h'
  · exact (List.perm_ext_iff_of_nodup (hnodup h) (hnodup h')).mpr hmem
  · intro a b _ _ hab hba
    rw [Std.OrientedOrd.eq_swap, hba] at hab
    cases hab

/-- Two maps whose keys correspond by `f`, which keeps their order, read off correspondingly. -/
theorem toList_eq_map [Std.LawfulEqOrd κ] [Ord κ'] [Std.TransOrd κ'] [Std.LawfulEqOrd κ'] {f : κ → κ'}
    {m : ExtTreeMap κ β} {m' : ExtTreeMap κ' β}
    (hord : ∀ a b, compare (f a) (f b) = compare a b)
    (hmem : ∀ k' v, m'[k']? = some v ↔ ∃ k, m[k]? = some v ∧ f k = k') :
    m'.toList = m.toList.map fun e => (f e.1, e.2) := by
  apply eq_of_ordered ExtTreeMap.ordered_keys_toList
  · rw [List.pairwise_map]
    apply ExtTreeMap.ordered_keys_toList.imp
    intro a b hlt
    rw [hord, hlt]
  · intro (k', v)
    rw [ExtTreeMap.mem_toList_iff_getElem?_eq_some, hmem, List.mem_map]
    constructor
    · intro ⟨k, hk, hf⟩
      exact ⟨(k, v), ExtTreeMap.mem_toList_iff_getElem?_eq_some.mpr hk, by rw [hf]⟩
    · intro ⟨e, he, hfe⟩
      cases hfe
      exact ⟨e.1, ExtTreeMap.mem_toList_iff_getElem?_eq_some.mp he, rfl⟩

/-- Keys mapped in order give the list mapped likewise. -/
theorem toList_ofList_map [DecidableEq κ] [DecidableEq κ'] [Std.LawfulEqOrd κ] [Ord κ']
    [Std.TransOrd κ'] [Std.LawfulEqOrd κ'] {f : κ → κ'}
    (hord : ∀ a b, compare (f a) (f b) = compare a b) (entries : List (κ × β)) :
    (ExtTreeMap.ofList (entries.map fun e => (f e.1, e.2))).toList
      = (ExtTreeMap.ofList entries).toList.map fun e => (f e.1, e.2) := by
  have hinj : ∀ a b, f a = f b ↔ a = b := by
    intro a b
    rw [← Std.compare_eq_iff_eq, hord, Std.compare_eq_iff_eq]
  apply toList_eq_map hord
  intro k' v
  rw [getElem?_ofList]
  constructor
  · intro hlast
    obtain ⟨e, -, he⟩ := List.mem_map.mp (mem_of_lastUnder hlast)
    cases he
    rw [lastUnder_map hinj] at hlast
    exact ⟨e.1, by rw [getElem?_ofList, hlast], rfl⟩
  · intro ⟨k, hk, hf⟩
    rw [← hf, lastUnder_map hinj, ← getElem?_ofList, hk]

/-! ## Strings under a common prefix -/

theorem append_lt_append_iff (p a b : List Char) : p ++ a < p ++ b ↔ a < b := by
  induction p with
  | nil => rfl
  | cons c p ih =>
    rw [List.cons_append, List.cons_append, List.cons_lt_cons_iff]
    simp [ih]

theorem compare_append (p a b : String) : compare (p ++ a) (p ++ b) = compare a b := by
  have hlt : p ++ a < p ++ b ↔ a < b := by
    rw [String.lt_iff_toList_lt, String.toList_append, String.toList_append, append_lt_append_iff,
      String.lt_iff_toList_lt]
  have heq : p ++ a = p ++ b ↔ a = b := by
    rw [← String.toList_inj, String.toList_append, String.toList_append, List.append_right_inj,
      String.toList_inj]
  show compareOfLessAndEq _ _ = compareOfLessAndEq _ _
  simp only [compareOfLessAndEq, hlt, heq]

end Xylitol
