import Xylitol.Library.Key

/-!
# What holds of every library

Memory, index file and package files are changed by different parties: a handle edits its map and
writes it back whole, and files come and go by themselves. What holds of every handle, in every run
that starts without an index file, is said in `Intact`:

    memory       every entry is under its own key, so a removal takes out one entry
    index file   what a call has saved reads back as the map it left in memory
    files        opening gives the recorded entries whose file is there
-/

namespace Xylitol.Library

variable {H J : Type} [DecidableEq H] {json : SerdeJson J} {env : Apk.Env}

/-- The index the file holds; a file that is not there or cannot be parsed holds the empty one. -/
def recorded (json : SerdeJson J) (world : World J) : Index :=
  (world.index.bind json.fromSlice).getD ∅

/-- The call changed the map and said so. -/
def Effective (result : Except Error Reply) : Prop :=
  (∃ entry, result = .ok (.added entry)) ∨ result = .ok (.removed true)

/-- What can be relied on of a handle of the library and of the files it works on. -/
structure Intact (json : SerdeJson J) (env : Apk.Env) (s : System H J) (h : H)
    (index : Index) : Prop where
  /-- Every stored key is the key of its entry. -/
  keys : ∀ (k : String) (e : Entry), index[k]? = some e → k = e.key
  /-- A listed entry is found under its key, and removing that removes it and nothing else. -/
  removes : ∀ e, Listed index e → ∀ faults deleteFile after,
    s.outcome json env h faults (.remove e.key deleteFile) = some after →
      (∀ found, after.result = .ok (.removed found) → found = true) ∧
        ∀ e', Listed after.index e' ↔ Listed index e' ∧ e' ≠ e
  /-- After a call that changed something, the file decodes to what is in memory. -/
  saves : ∀ faults call after, s.outcome json env h faults call = some after →
    Effective after.result → ∃ j, after.world.index = some j ∧ json.fromSlice j = some after.index
  /-- Opening again gives the recorded entries, as they were, of which the file is there. -/
  reopens : ∀ faults index', openAt json faults s.world = .ok index' → ∀ (k : String) (e : Entry),
    index'[k]? = some e ↔ (recorded json s.world)[k]? = some e ∧ (s.world.files e.path).isSome

/-! ## The parts -/

/-- Among keyed entries, erasing the key of one takes out that one. -/
theorem Keyed.listed_erase_iff {index : Index} (h : Keyed index) {e e' : Entry}
    (hlisted : Listed index e) : Listed (index.erase e.key) e' ↔ Listed index e' ∧ e' ≠ e := by
  have hold := h.listed_iff.mp hlisted
  rw [(keyed_erase h e.key).listed_iff, h.listed_iff, Std.ExtTreeMap.getElem?_erase]
  split
  · next heq =>
      -- an entry under the same key is the same entry
      have hkey : e.key = e'.key := compare_eq_iff_eq.mp heq
      refine iff_of_false (by simp) ?_
      intro ⟨hmem, hne⟩
      rw [← hkey, hold] at hmem
      exact hne (Option.some.inj hmem).symm
  · next hne =>
      refine ⟨fun hmem => ⟨hmem, ?_⟩, And.left⟩
      rintro rfl
      exact hne (compare_eq_iff_eq.mpr rfl)

/-- A removal under the key of a listed entry erases that key, whatever becomes of the save. -/
theorem remove_listed (json : SerdeJson J) {index : Index} (h : Keyed index) {e : Entry}
    (hlisted : Listed index e) (faults : Faults) (world : World J) (deleteFile : Bool) :
    let after := remove json faults index world e.key deleteFile
    after.index = index.erase e.key ∧ after.result ≠ .ok (.removed false) := by
  have hold := h.listed_iff.mp hlisted
  rcases remove_cases json faults index world e.key deleteFile with
    ⟨hnone, -⟩ | ⟨entry, -, ⟨j, -, hrun⟩ | ⟨err, hrun⟩⟩
  · rw [hold] at hnone
    cases hnone
  · rw [hrun]
    exact ⟨rfl, by simp⟩
  · rw [hrun]
    exact ⟨rfl, by simp⟩

theorem getElem?_openAt {faults : Faults} {world : World J} {index : Index}
    (h : openAt json faults world = .ok index) (k : String) (e : Entry) :
    index[k]? = some e ↔ (recorded json world)[k]? = some e ∧ (world.files e.path).isSome := by
  unfold openAt at h
  split at h
  · cases h
  · cases h
    rw [Std.ExtTreeMap.getElem?_filter]
    simp [recorded]

theorem utf8_openAt {faults : Faults} {world : World J} {index : Index}
    (h : openAt json faults world = .ok index) (hrecorded : Utf8 (recorded json world)) :
    Utf8 index := by
  intro k e he
  exact hrecorded k e ((getElem?_openAt h k e).mp he).1

theorem not_effective_error (e : Error) : ¬ Effective (.error e) := by
  simp [Effective]

theorem not_effective_notFound : ¬ Effective (.ok (.removed false)) := by
  simp [Effective]

/-- A call that changed something has saved the map it left. -/
theorem Call.run_effective {faults : Faults} {index : Index} {world : World J} {call : Call}
    (h : Effective (call.run json env faults index world).result) :
    ∃ j, (call.run json env faults index world).world.index = some j ∧
      json.fromSlice j = some (call.run json env faults index world).index := by
  cases call with
  | add path source verified now =>
      rw [Call.run] at h ⊢
      rcases add_cases json env faults index world path source verified now with
        ⟨e, -, hrun⟩ | ⟨entry, -, ⟨j, hj, hrun⟩ | ⟨e, hrun⟩⟩
      all_goals rw [hrun] at h ⊢
      · exact absurd h (not_effective_error e)
      · exact ⟨j, rfl, json.fromSlice_toVecPretty _ _ hj⟩
      · exact absurd h (not_effective_error e)
  | remove key deleteFile =>
      rw [Call.run] at h ⊢
      rcases remove_cases json faults index world key deleteFile with
        ⟨-, hrun⟩ | ⟨entry, -, ⟨j, hj, hrun⟩ | ⟨e, hrun⟩⟩
      all_goals rw [hrun] at h ⊢
      · exact absurd h not_effective_notFound
      · exact ⟨j, rfl, json.fromSlice_toVecPretty _ _ hj⟩
      · exact absurd h (not_effective_error e)

/-! ## Every handle of every run -/

/-- Whatever was added, removed, opened and deleted behind the program's back, the library is
intact. -/
theorem run_intact {start : System H J} {steps : List (Step H)} {h : H} {index : Index}
    (hfresh : start.Fresh) (hindex : (start.run json env steps).handles h = some index) :
    Intact json env (start.run json env steps) h index := by
  have hkeyed : Keyed index := (run_keyed (hfresh.keyed json) steps).memory h index hindex
  refine ⟨hkeyed, ?_, ?_, ?_⟩
  · intro e hlisted faults deleteFile after hafter
    rw [System.outcome, hindex, Option.map_some, Option.some.injEq] at hafter
    subst hafter
    have hremove := remove_listed json hkeyed hlisted faults (start.run json env steps).world
      deleteFile
    obtain ⟨hmap, hfound⟩ := hremove
    refine ⟨?_, ?_⟩
    · intro found hresult
      cases found with
      | true => rfl
      | false => exact absurd hresult hfound
    · intro e'
      rw [← hkeyed.listed_erase_iff hlisted, ← hmap]
      rfl
  · intro faults call after hafter heffective
    rw [System.outcome, hindex, Option.map_some, Option.some.injEq] at hafter
    subst hafter
    exact Call.run_effective heffective
  · intro faults index' hopen k e
    exact getElem?_openAt hopen k e

/-- Both packages are added, the APK is taken out and added again, and another handle is opened. -/
def takenOutAndBack : List (Step Bool) :=
  [.open true .none, .call true .none addApk, .call true .none addBundle,
    .call true .none (.remove apkEntry.key false), .call true .none addApk, .open false .none]

/-- Both entries are listed, and each can be removed without the other. -/
theorem run_intact_reopened : ∃ index,
    (noHandles.run plainJson smallEnv takenOutAndBack).handles false = some index ∧
    Listed index apkEntry ∧ Listed index bundleEntry ∧
    Intact plainJson smallEnv (noHandles.run plainJson smallEnv takenOutAndBack) false index := by
  have hapk : ((noHandles.run plainJson smallEnv takenOutAndBack).handles false).bind
      (fun index => index[apkEntry.key]?) = some apkEntry := by decide +kernel
  have hbundle : ((noHandles.run plainJson smallEnv takenOutAndBack).handles false).bind
      (fun index => index[bundleEntry.key]?) = some bundleEntry := by decide +kernel
  obtain ⟨index, hindex, hentry⟩ := Option.bind_eq_some_iff.mp hapk
  rw [hindex] at hbundle
  have hfresh : noHandles.Fresh := ⟨fun _ => rfl, rfl⟩
  exact ⟨index, hindex, ⟨_, hentry⟩, ⟨_, hbundle⟩, run_intact hfresh hindex⟩

end Xylitol.Library
