import Xylitol.Library.Model

/-!
# What a failed call leaves behind

A call changes the map in memory, and for `remove` the package file, before it saves. When the save
fails nothing is put back:

    add      inspect ── insert ── save ✗      the new entry stays in memory
    remove   erase ── delete file ── save ✗   the entry, and perhaps its file, stays gone

`failed_call_restored_iff` says when a failed call nevertheless leaves everything as it was: only for
an `add` whose file could not be inspected, or whose entry was already there.
-/

namespace Xylitol.Library

variable {J : Type} {json : SerdeJson J}

/-- Everything is as it was before the call, and a later `add` of any file succeeds if it would have
succeeded without the call. -/
structure Restored (json : SerdeJson J) (env : Apk.Env) (index : Index) (world : World J)
    (after : Outcome J) : Prop where
  memory : after.index = index
  indexFile : after.world.index = world.index
  files : after.world.files = world.files
  later : ∀ faults path source verified now,
    (add json env faults index world path source verified now).result.isOk →
    (add json env faults after.index after.world path source verified now).result.isOk

/-- The call is an `add` that either cannot inspect its file or finds the very entry it builds
recorded under its key. -/
def ChangesNothing (env : Apk.Env) (index : Index) (world : World J) : Call → Prop
  | .add path source verified now => ∀ entry,
      newEntry env world path source verified now = .ok entry → index[entry.key]? = some entry
  | .remove _ _ => False

theorem restored_self (env : Apk.Env) (index : Index) (world : World J)
    (result : Except Error Reply) :
    Restored json env index world ⟨result, index, world⟩ :=
  ⟨rfl, rfl, rfl, fun _ _ _ _ _ h => h⟩

/-- Inserting what is there already changes nothing. -/
theorem insert_eq_self_iff {index : Index} {entry : Entry} :
    index.insert entry.key entry = index ↔ index[entry.key]? = some entry := by
  constructor
  · intro h
    rw [← h]
    exact Std.ExtTreeMap.getElem?_insert_self
  · intro h
    apply Std.ExtTreeMap.ext_getElem?
    intro k
    rw [Std.ExtTreeMap.getElem?_insert]
    split
    · next hk => rw [← compare_eq_iff_eq.mp hk, h]
    · rfl

theorem erase_ne_self {index : Index} {k : String} {entry : Entry} (h : index[k]? = some entry) :
    index.erase k ≠ index := by
  intro heq
  have hnone : (index.erase k)[k]? = none := Std.ExtTreeMap.getElem?_erase_self
  rw [heq, h] at hnone
  cases hnone

/-- A failed call leaves everything as it was exactly when it had nothing to change. -/
theorem failed_call_restored_iff {env : Apk.Env} {faults : Faults} {index : Index}
    {world : World J} {call : Call} {e : Error}
    (h : (call.run json env faults index world).result = .error e) :
    Restored json env index world (call.run json env faults index world) ↔
      ChangesNothing env index world call := by
  cases call with
  | add path source verified now =>
      rcases add_cases json env faults index world path source verified now with
        ⟨e', hentry, hrun⟩ | ⟨entry, hentry, ⟨j, -, hrun⟩ | ⟨e', hrun⟩⟩
      · constructor
        · intro _ entry hok
          rw [hentry] at hok
          cases hok
        · intro _
          rw [Call.run, hrun]
          exact restored_self env index world _
      · rw [Call.run, hrun] at h
        cases h
      · -- the entry stays in memory, which is as before only if it was there
        have hiff : ChangesNothing env index world (.add path source verified now) ↔
            index[entry.key]? = some entry := by
          constructor
          · intro hnothing
            exact hnothing entry hentry
          · intro hself entry' hentry'
            rw [hentry] at hentry'
            cases hentry'
            exact hself
        rw [hiff, ← insert_eq_self_iff, Call.run, hrun]
        constructor
        · intro hrestored
          exact hrestored.memory
        · intro hself
          rw [hself]
          exact restored_self env index world _
  | remove k deleteFile =>
      rcases remove_cases json faults index world k deleteFile with
        ⟨-, hrun⟩ | ⟨entry, hentry, ⟨j, -, hrun⟩ | ⟨e', hrun⟩⟩
      · rw [Call.run, hrun] at h
        cases h
      · rw [Call.run, hrun] at h
        cases h
      · -- the entry was there and is gone
        rw [Call.run, hrun]
        constructor
        · intro hrestored
          exact absurd hrestored.memory (erase_ne_self hentry)
        · exact fun hfalse => hfalse.elim

/-! ## A poisoned handle -/

def badPath : Path := [0xFF]
def goodPath : Path := utf8Bytes "/packages/bundle.xapk"

/-- An APK at a path that is not text, a bundle at one that is, and no index. -/
def twoFiles : World Index where
  index := none
  files p := if p = badPath then some baseApk else if p = goodPath then some armBundle else none

/-- Another APK, and a library that has the bundle in it. -/
def apkFile : Path := utf8Bytes "/packages/a.apk"

def bundleListed : Index :=
  (∅ : Index).insert (key armInfo) ⟨goodPath, armInfo, none, "", false⟩

def bundleOnFile : World Index where
  index := some bundleListed
  files p := if p = apkFile then some baseApk else if p = goodPath then some armBundle else none

/-- The disk is full. -/
def writeFails : Faults := { Faults.none with writeTmp := true }

/-- The APK cannot be saved, and is in memory all the same; the bundle that is listed cannot be saved
again either, and everything is as it was. -/
theorem failed_call_restored_iff_unsaved :
    let run := Call.run plainJson smallEnv writeFails bundleListed bundleOnFile
    let added := run (.add apkFile none false "t")
    let again := run (.add goodPath none false "")
    added.result = .error .write ∧ ¬ Restored plainJson smallEnv bundleListed bundleOnFile added ∧
    again.result = .error .write ∧ Restored plainJson smallEnv bundleListed bundleOnFile again := by
  intro run added again
  have hadded : added.result = .error .write := by decide +kernel
  have hagain : again.result = .error .write := by decide +kernel
  have hapk : bundleOnFile.files apkFile = some baseApk := by simp [bundleOnFile]
  have hbundle : bundleOnFile.files goodPath = some armBundle := by
    simp [bundleOnFile, goodPath, apkFile, utf8Bytes_inj]
  refine ⟨hadded, ?_, hagain, ?_⟩
  · rw [failed_call_restored_iff hadded]
    intro hnothing
    have hlisted := hnothing _ (newEntry_of_inspect hapk inspect_baseApk none false "t")
    have hnone : bundleListed[key baseInfo]? = none := by decide +kernel
    cases hnone.symm.trans hlisted
  · rw [failed_call_restored_iff hagain]
    intro entry hentry
    rw [newEntry_of_inspect hbundle inspect_armBundle none false ""] at hentry
    cases hentry
    exact Std.ExtTreeMap.getElem?_insert_self

def badEntry : Entry := ⟨badPath, baseInfo, none, "", false⟩
def goodEntry : Entry := ⟨goodPath, armInfo, none, "", false⟩

theorem twoFiles_badPath : twoFiles.files badPath = some baseApk := by
  simp [twoFiles]

theorem twoFiles_goodPath : twoFiles.files goodPath = some armBundle := by
  have hne : goodPath ≠ badPath := by decide
  simp [twoFiles, hne]

theorem not_utf8_of_badEntry {index : Index} (h : index[badEntry.key]? = some badEntry) :
    ¬ Utf8 index := by
  intro hutf8
  have hbad : ¬ badPath.isUtf8 := by decide +kernel
  exact hbad (hutf8 badEntry.key badEntry h)

theorem add_badPath : add plainJson smallEnv .none ∅ twoFiles badPath none false ""
    = ⟨.error .serialize, (∅ : Index).insert badEntry.key badEntry, twoFiles⟩ :=
  add_of_not_utf8 plainJson twoFiles_badPath inspect_baseApk badEntry rfl
    (not_utf8_of_badEntry Std.ExtTreeMap.getElem?_insert_self)

theorem add_goodPath : (add plainJson smallEnv .none ∅ twoFiles goodPath none false "").result
    = .ok (.added goodEntry) := by
  have hpath : goodPath.isUtf8 := Path.isUtf8_utf8Bytes _
  rw [add_plainJson utf8_empty hpath twoFiles_goodPath inspect_armBundle goodEntry rfl]

/-- The bad entry keeps the good one from being saved. -/
theorem add_goodPath_poisoned : (add plainJson smallEnv .none
    ((∅ : Index).insert badEntry.key badEntry) twoFiles goodPath none false "").result
      = .error .serialize := by
  have hkeys : goodEntry.key ≠ badEntry.key := by decide
  have hstays : (((∅ : Index).insert badEntry.key badEntry).insert goodEntry.key goodEntry)[
      badEntry.key]? = some badEntry := by
    rw [Std.ExtTreeMap.getElem?_insert, if_neg (by simpa using hkeys)]
    exact Std.ExtTreeMap.getElem?_insert_self
  rw [add_of_not_utf8 plainJson twoFiles_goodPath inspect_armBundle goodEntry rfl
    (not_utf8_of_badEntry hstays)]

/-- Adding the APK at the bad path fails and stays in memory; the bundle, which could have been added
before, no longer can. -/
theorem poisoned_handle :
    ∃ after, after = Call.run plainJson smallEnv .none ∅ twoFiles (.add badPath none false "") ∧
      after.result = .error .serialize ∧ after.index[("a.b@-1#base" : String)]?.isSome ∧
      (add plainJson smallEnv .none ∅ twoFiles goodPath none false "").result.isOk ∧
      (add plainJson smallEnv .none after.index after.world goodPath none false "").result
        = .error .serialize ∧
      ¬ Restored plainJson smallEnv ∅ twoFiles after := by
  rw [Call.run, add_badPath]
  refine ⟨_, rfl, rfl, ?_, ?_, add_goodPath_poisoned, ?_⟩
  · have hkey : badEntry.key = "a.b@-1#base" := by decide
    rw [← hkey, Std.ExtTreeMap.getElem?_insert_self]
    rfl
  · rw [add_goodPath]
    rfl
  · intro hrestored
    have hlater := hrestored.later .none goodPath none false ""
    rw [add_goodPath, add_goodPath_poisoned] at hlater
    exact absurd (hlater rfl) (by decide)

end Xylitol.Library
