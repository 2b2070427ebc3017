import Xylitol.Library.Model

/-!
# Several handles on one index

Front-ends open the same index file and keep their handles: the window for as long as it runs, a
command for one call. Every handle writes back the whole map it holds, so what one handle recorded
survives only as long as no handle that has not seen it saves:

    A: open ─ add x ─────────          B: open ───────────── add y ──▶ index = { y }

There is no lock and no re-reading anywhere. `lost_update` is the picture above; `entry_survives` is
what does hold, for any number of handles: an entry stays in the index file as long as every save
since it was added is by a handle that has it, because it added it or was opened after, and that does
not remove or replace it.
-/

namespace Xylitol.Library

open Apkpure (Variant)

variable {H J : Type} [DecidableEq H] {json : SerdeJson J}

/-- The handles that are open, and the files. -/
structure System (H J : Type) where
  handles : H → Option Index
  world : World J

/-- One atomic step. `outside` is the rest of the world changing package files. -/
inductive Step (H : Type) where
  | open (h : H) (faults : Faults)
  | call (h : H) (faults : Faults) (call : Call)
  | outside (files : Path → Option Bytes)

namespace System

/-- What a call by the handle `h` comes to; a handle that is not open makes no calls. -/
def outcome (json : SerdeJson J) (env : Apk.Env) (s : System H J) (h : H) (faults : Faults)
    (call : Call) : Option (Outcome J) :=
  (s.handles h).map fun index => call.run json env faults index s.world

def step (json : SerdeJson J) (env : Apk.Env) (s : System H J) : Step H → System H J
  | .open h faults =>
    match openAt json faults s.world with
    | .ok index => { s with handles := Function.update s.handles h (some index) }
    | .error _ => s
  | .call h faults call =>
    match s.outcome json env h faults call with
    | some after => ⟨Function.update s.handles h (some after.index), after.world⟩
    | none => s
  | .outside files => { s with world := { s.world with files := files } }

def run (json : SerdeJson J) (env : Apk.Env) (s : System H J) (steps : List (Step H)) :
    System H J :=
  steps.foldl (step json env) s

variable {env : Apk.Env} {s : System H J} {h : H} {faults : Faults}

theorem step_open_ok {index : Index} (hopen : openAt json faults s.world = .ok index) :
    s.step json env (.open h faults)
      = { s with handles := Function.update s.handles h (some index) } := by
  simp only [step, hopen]

theorem step_open_error {e : Error} (hopen : openAt json faults s.world = .error e) :
    s.step json env (.open h faults) = s := by
  simp only [step, hopen]

theorem step_call_some {call : Call} {after : Outcome J}
    (hcall : s.outcome json env h faults call = some after) :
    s.step json env (.call h faults call)
      = ⟨Function.update s.handles h (some after.index), after.world⟩ := by
  simp only [step, hcall]

/-- A handle that is open makes its call. -/
theorem step_call_open {call : Call} {index : Index} (hopen : s.handles h = some index) :
    s.step json env (.call h faults call)
      = ⟨Function.update s.handles h (some (call.run json env faults index s.world).index),
          (call.run json env faults index s.world).world⟩ := by
  rw [step_call_some]
  rw [outcome, hopen, Option.map_some]

theorem step_call_none {call : Call} (hcall : s.outcome json env h faults call = none) :
    s.step json env (.call h faults call) = s := by
  simp only [step, hcall]

@[simp] theorem run_nil (s : System H J) : s.run json env [] = s := rfl

@[simp] theorem run_cons (s : System H J) (st : Step H) (steps : List (Step H)) :
    s.run json env (st :: steps) = (s.step json env st).run json env steps := rfl

@[simp] theorem run_append (s : System H J) (steps rest : List (Step H)) :
    s.run json env (steps ++ rest) = (s.run json env steps).run json env rest :=
  List.foldl_append

end System

/-- The index file holds the entry under its key. -/
def OnDisk (json : SerdeJson J) (world : World J) (entry : Entry) : Prop :=
  ∃ j index, world.index = some j ∧ json.fromSlice j = some index ∧
    index[entry.key]? = some entry

/-! ## Which steps are careful with an entry -/

/-- The call is neither a removal under the key nor an `add` that puts anything under it. -/
def Call.Spares (env : Apk.Env) (world : World J) (key : String) : Call → Prop
  | .add path source verified now => ∀ entry,
      newEntry env world path source verified now = .ok entry → entry.key ≠ key
  | .remove k _ => k ≠ key

/-- The call neither removes what is under the key of the entry nor puts another entry there. -/
def Call.Leaves (env : Apk.Env) (world : World J) (entry : Entry) : Call → Prop
  | .add path source verified now => ∀ new,
      newEntry env world path source verified now = .ok new → new.key = entry.key → new = entry
  | .remove k _ => k ≠ entry.key

/-- The step writes the index file. -/
def Saves (json : SerdeJson J) (env : Apk.Env) (s : System H J) : Step H → Prop
  | .call h faults call => ∃ after, s.outcome json env h faults call = some after ∧
      after.result.isOk ∧ after.result ≠ .ok (.removed false)
  | _ => False

/-- The handles known to have the entry, after a step: one that is opened has it if the file is there,
one that removes or replaces it does not, also when that is not saved. -/
def seenAfter (json : SerdeJson J) (env : Apk.Env) (entry : Entry) (s : System H J)
    (seen : H → Prop) : Step H → H → Prop
  | .open h faults => fun h' =>
      if h' = h ∧ (openAt json faults s.world).isOk then (s.world.files entry.path).isSome = true
      else seen h'
  | .call h _ call => fun h' => seen h' ∧ (h' = h → call.Leaves env s.world entry)
  | .outside _ => seen

/-- Whoever saves in the run has the entry and neither removes nor replaces it. `seen` are the handles
that have it now; what is not saved is no matter. -/
def Careful (json : SerdeJson J) (env : Apk.Env) (entry : Entry) :
    (H → Prop) → System H J → List (Step H) → Prop
  | _, _, [] => True
  | seen, s, st :: rest =>
    (match st with
      | .call h _ call => Saves json env s st → seen h ∧ call.Leaves env s.world entry
      | .open _ _ | .outside _ => True) ∧
    Careful json env entry (seenAfter json env entry s seen st) (s.step json env st) rest

/-! ## An entry survives careful steps -/

/-- The entry is in the index file and in the memory of every handle that has seen it. -/
structure Recorded (json : SerdeJson J) (entry : Entry) (seen : H → Prop) (s : System H J) :
    Prop where
  onDisk : OnDisk json s.world entry
  inMemory : ∀ h, seen h → ∃ index, s.handles h = some index ∧ index[entry.key]? = some entry

/-- An edit by a call that spares a key leaves the map as it is there. -/
theorem Call.Edits.spares {env : Apk.Env} {faults : Faults} {index index' : Index}
    {world world' : World J} {call : Call} {reply : Reply} {key : String}
    (h : call.Edits env faults index world index' world' reply)
    (hspares : call.Spares env world key) : index'[key]? = index[key]? := by
  cases h with
  | add hnew =>
      rw [Std.ExtTreeMap.getElem?_insert, if_neg]
      intro heq
      exact hspares _ hnew (compare_eq_iff_eq.mp heq)
  | remove hold =>
      rw [Std.ExtTreeMap.getElem?_erase, if_neg]
      intro heq
      exact hspares (compare_eq_iff_eq.mp heq)

/-- A call that spares the key leaves the entry. -/
theorem Call.Spares.leaves {env : Apk.Env} {world : World J} {call : Call} {entry : Entry}
    (h : call.Spares env world entry.key) : call.Leaves env world entry := by
  cases call with
  | add path source verified now =>
      intro new hnew hkey
      exact absurd hkey (h new hnew)
  | remove k deleteFile => exact h

/-- An edit by a call that leaves the entry. -/
theorem Call.Edits.leaves {env : Apk.Env} {faults : Faults} {index index' : Index}
    {world world' : World J} {call : Call} {reply : Reply} {entry : Entry}
    (h : call.Edits env faults index world index' world' reply)
    (hleaves : call.Leaves env world entry) (hentry : index[entry.key]? = some entry) :
    index'[entry.key]? = some entry := by
  cases h with
  | @add path source verified now new hnew =>
      rw [Std.ExtTreeMap.getElem?_insert]
      split
      · next heq => rw [hleaves new hnew (compare_eq_iff_eq.mp heq)]
      · exact hentry
  | remove hold =>
      rw [Std.ExtTreeMap.getElem?_erase, if_neg]
      · exact hentry
      · intro heq
        exact hleaves (compare_eq_iff_eq.mp heq)

/-- A handle that has the entry has it after a call that leaves it. -/
theorem Call.run_leaves {env : Apk.Env} {faults : Faults} {index : Index} {world : World J}
    {call : Call} {entry : Entry} (hleaves : call.Leaves env world entry)
    (hentry : index[entry.key]? = some entry) :
    (call.run json env faults index world).index[entry.key]? = some entry := by
  rcases call.run_cases json env faults index world with
    ⟨r, hrun⟩ | ⟨index', world', reply, hedit, ⟨j, -, hrun⟩ | ⟨e, hrun⟩⟩
  all_goals rw [hrun]
  · exact hentry
  · exact hedit.leaves hleaves hentry
  · exact hedit.leaves hleaves hentry

/-- A call that spares a key leaves the handle's memory as it is there. -/
theorem Call.run_spares {env : Apk.Env} {faults : Faults} {index : Index} {world : World J}
    {call : Call} {key : String} (hspares : call.Spares env world key) :
    (call.run json env faults index world).index[key]? = index[key]? := by
  rcases call.run_cases json env faults index world with
    ⟨r, hrun⟩ | ⟨index', world', reply, hedit, ⟨j, -, hrun⟩ | ⟨e, hrun⟩⟩
  all_goals rw [hrun]
  · exact hedit.spares hspares
  · exact hedit.spares hspares

/-- A call either saves exactly the map it leaves in memory or leaves the index file alone. -/
theorem Call.run_index (json : SerdeJson J) (env : Apk.Env) (faults : Faults) (index : Index)
    (world : World J) (call : Call) :
    let after := call.run json env faults index world
    (after.world.index = world.index) ∨
      (after.result.isOk ∧ after.result ≠ .ok (.removed false) ∧
        ∃ j, after.world.index = some j ∧ json.toVecPretty after.index = some j) := by
  rcases call.run_cases json env faults index world with
    ⟨r, hrun⟩ | ⟨index', world', reply, hedit, ⟨j, hj, hrun⟩ | ⟨e, hrun⟩⟩
  all_goals rw [hrun]
  · exact Or.inl rfl
  · refine Or.inr ⟨rfl, ?_, j, rfl, hj⟩
    cases hedit with
    | add hnew => simp
    | remove hold => simp
  · exact Or.inl hedit.index_eq

/-- Opening a handle while the entry's file is there gives a map that has the entry. -/
theorem openAt_of_onDisk {faults : Faults} {world : World J} {entry : Entry} {index : Index}
    (hdisk : OnDisk json world entry) (hfile : (world.files entry.path).isSome)
    (h : openAt json faults world = .ok index) : index[entry.key]? = some entry := by
  obtain ⟨j, saved, hj, hparse, hentry⟩ := hdisk
  unfold openAt at h
  split at h
  · cases h
  · cases h
    rw [hj, Option.bind_some, hparse, Option.getD_some, Std.ExtTreeMap.getElem?_filter]
    simp [hentry, hfile]

/-- Opening a handle on a recorded entry. -/
theorem open_recorded {env : Apk.Env} {entry : Entry} {seen : H → Prop} {s : System H J} {h : H}
    {faults : Faults} (hrec : Recorded json entry seen s) :
    Recorded json entry (seenAfter json env entry s seen (.open h faults))
      (s.step json env (.open h faults)) := by
  cases hopen : openAt json faults s.world with
  | error e =>
      rw [System.step_open_error hopen]
      refine ⟨hrec.onDisk, ?_⟩
      intro h' hseen
      have hfailed : ¬ (h' = h ∧ (openAt json faults s.world).isOk) := by
        rintro ⟨-, hok⟩
        rw [hopen] at hok
        cases hok
      simp only [seenAfter, if_neg hfailed] at hseen
      exact hrec.inMemory h' hseen
  | ok index =>
      rw [System.step_open_ok hopen]
      refine ⟨hrec.onDisk, ?_⟩
      intro h' hseen
      by_cases hh : h' = h
      · have hopened : h' = h ∧ (openAt json faults s.world).isOk := by
          rw [hopen]
          exact ⟨hh, rfl⟩
        simp only [seenAfter, if_pos hopened] at hseen
        rw [hh]
        exact ⟨index, Function.update_self .., openAt_of_onDisk hrec.onDisk hseen hopen⟩
      · simp only [seenAfter, if_neg fun h => hh (And.left h)] at hseen
        obtain ⟨index', hindex', hentry⟩ := hrec.inMemory h' hseen
        exact ⟨index', (Function.update_of_ne hh _ _).trans hindex', hentry⟩

/-- A call that, if it saves, is by a handle that has the entry and leaves it. -/
theorem call_recorded {env : Apk.Env} {entry : Entry} {seen : H → Prop} {s : System H J} {h : H}
    {faults : Faults} {call : Call} (hrec : Recorded json entry seen s)
    (hsave : Saves json env s (.call h faults call) → seen h ∧ call.Leaves env s.world entry) :
    Recorded json entry (seenAfter json env entry s seen (.call h faults call))
      (s.step json env (.call h faults call)) := by
  cases houtcome : s.outcome json env h faults call with
  | none =>
      rw [System.step_call_none houtcome]
      exact ⟨hrec.onDisk, fun h' hseen => hrec.inMemory h' hseen.1⟩
  | some after =>
      rw [System.step_call_some houtcome]
      obtain ⟨index, hindex, rfl⟩ := Option.map_eq_some_iff.mp houtcome
      have hown : seen h → call.Leaves env s.world entry →
          (call.run json env faults index s.world).index[entry.key]? = some entry := by
        intro hseen hleaves
        obtain ⟨index', hindex', hentry⟩ := hrec.inMemory h hseen
        rw [hindex] at hindex'
        cases hindex'
        exact call.run_leaves hleaves hentry
      refine ⟨?_, ?_⟩
      · -- a call that saves is by a handle that has the entry, and saves what the handle has
        rcases call.run_index json env faults index s.world with hsame | ⟨hok, hne, j, hj, hsaved⟩
        · obtain ⟨j, saved, hj, hparse, hentry⟩ := hrec.onDisk
          exact ⟨j, saved, hsame.trans hj, hparse, hentry⟩
        · obtain ⟨hseen, hleaves⟩ := hsave ⟨_, houtcome, hok, hne⟩
          exact ⟨j, _, hj, json.fromSlice_toVecPretty _ _ hsaved, hown hseen hleaves⟩
      · rintro h' ⟨hseen, hleaves⟩
        by_cases hh : h' = h
        · subst hh
          exact ⟨_, Function.update_self .., hown hseen (hleaves rfl)⟩
        · obtain ⟨index', hindex', hentry⟩ := hrec.inMemory h' hseen
          exact ⟨index', (Function.update_of_ne hh _ _).trans hindex', hentry⟩

/-- One careful step keeps the entry recorded. -/
theorem step_recorded {env : Apk.Env} {entry : Entry} {seen : H → Prop} {s : System H J}
    {st : Step H} {rest : List (Step H)} (hrec : Recorded json entry seen s)
    (hcareful : Careful json env entry seen s (st :: rest)) :
    Recorded json entry (seenAfter json env entry s seen st) (s.step json env st) := by
  cases st with
  | «open» h faults => exact open_recorded hrec
  | call h faults call => exact call_recorded hrec hcareful.1
  | outside files => exact ⟨hrec.onDisk, hrec.inMemory⟩

/-- Careful steps keep the entry in the index file. -/
theorem run_recorded {env : Apk.Env} {entry : Entry} {seen : H → Prop} {s : System H J}
    {steps : List (Step H)} (hrec : Recorded json entry seen s)
    (hcareful : Careful json env entry seen s steps) :
    OnDisk json (s.run json env steps).world entry := by
  induction steps generalizing seen s with
  | nil => exact hrec.onDisk
  | cons st rest ih => exact ih (step_recorded hrec hcareful) hcareful.2

/-- An entry whose `add` succeeded is in the index file for as long as every step is careful with it,
the adding handle being the first to have seen it. -/
theorem entry_survives {env : Apk.Env} {s : System H J} {h : H} {faults : Faults} {path : Path}
    {source : Option Variant} {verified : Bool} {now : String} {after : Outcome J} {entry : Entry}
    {steps : List (Step H)}
    (hadd : s.outcome json env h faults (.add path source verified now) = some after)
    (hok : after.result = .ok (.added entry))
    (hcareful : Careful json env entry (· = h)
      (s.step json env (.call h faults (.add path source verified now))) steps) :
    OnDisk json ((s.step json env (.call h faults (.add path source verified now))).run
      json env steps).world entry := by
  refine run_recorded ?_ hcareful
  rw [System.step_call_some hadd]
  obtain ⟨index, hindex, rfl⟩ := Option.map_eq_some_iff.mp hadd
  rcases add_cases json env faults index s.world path source verified now with
    ⟨e, -, hrun⟩ | ⟨new, hnew, ⟨j, hj, hrun⟩ | ⟨e, hrun⟩⟩
  all_goals rw [Call.run, hrun] at hok
  · cases hok
  · cases hok
    refine ⟨⟨j, _, ?_, json.fromSlice_toVecPretty _ _ hj, Std.ExtTreeMap.getElem?_insert_self⟩, ?_⟩
    · rw [Call.run, hrun]
    · rintro h' rfl
      refine ⟨_, Function.update_self .., ?_⟩
      rw [Call.run, hrun]
      exact Std.ExtTreeMap.getElem?_insert_self
  · cases hok

/-- A handle that opens the library again right before its call is careful with every entry the call
spares, while the file is there. -/
theorem careful_reopen {env : Apk.Env} {entry : Entry} (seen : H → Prop) {s : System H J} {h : H}
    {faults faults' : Faults} {call : Call} (hfile : (s.world.files entry.path).isSome)
    (hopen : (openAt json faults s.world).isOk) (hspares : call.Spares env s.world entry.key) :
    Careful json env entry seen s [.open h faults, .call h faults' call] := by
  refine ⟨trivial, fun _ => ⟨?_, Call.Spares.leaves ?_⟩, trivial⟩
  · simp only [seenAfter, hopen, and_self, if_true]
    exact hfile
  · cases hindex : openAt json faults s.world with
    | error e =>
        rw [System.step_open_error hindex]
        exact hspares
    | ok index =>
        rw [System.step_open_ok hindex]
        exact hspares

/-! ## Two front-ends -/

def apkPath : Path := utf8Bytes "/p/a.apk"
def bundlePath : Path := utf8Bytes "/p/b.xapk"

/-- An APK and a bundle on disk, no index, and no handle open. -/
def noHandles : System Bool Index where
  handles _ := none
  world := {
    index := none
    files := fun p =>
      if p = apkPath then some baseApk else if p = bundlePath then some armBundle else none }

/-- Both front-ends have the library open. -/
def bothOpen : System Bool Index :=
  noHandles.run plainJson smallEnv [.open true .none, .open false .none]

def addApk : Call := .add apkPath none false "t1"
def addBundle : Call := .add bundlePath none false "t2"

def apkEntry : Entry := ⟨apkPath, baseInfo, none, "t1", false⟩
def bundleEntry : Entry := ⟨bundlePath, armInfo, none, "t2", false⟩

/-- The first front-end has added the APK. -/
def apkAdded : System Bool Index := bothOpen.step plainJson smallEnv (.call true .none addApk)

theorem outcome_addApk_eq : bothOpen.outcome plainJson smallEnv true .none addApk
    = some ⟨.ok (.added apkEntry), (∅ : Index).insert apkEntry.key apkEntry,
        ⟨some ((∅ : Index).insert apkEntry.key apkEntry), noHandles.world.files⟩⟩ := by
  have hopen : bothOpen.handles true = some ∅ := rfl
  have hworld : bothOpen.world = noHandles.world := rfl
  have hfile : noHandles.world.files apkPath = some baseApk := by simp [noHandles]
  have hpath : apkPath.isUtf8 := Path.isUtf8_utf8Bytes _
  rw [System.outcome, hopen, Option.map_some, hworld, addApk, Call.run,
    add_plainJson utf8_empty hpath hfile inspect_baseApk apkEntry rfl]

theorem outcome_addApk : ∃ after,
    bothOpen.outcome plainJson smallEnv true .none addApk = some after ∧
    after.result = .ok (.added apkEntry) :=
  ⟨_, outcome_addApk_eq, rfl⟩

theorem apkAdded_world : apkAdded.world
    = ⟨some ((∅ : Index).insert apkEntry.key apkEntry), noHandles.world.files⟩ := by
  rw [apkAdded, System.step_call_some outcome_addApk_eq]

theorem apkAdded_bundle : apkAdded.world.files bundlePath = some armBundle := by
  rw [apkAdded_world]
  simp [noHandles, apkPath, bundlePath, utf8Bytes_inj]

theorem newEntry_addBundle :
    newEntry smallEnv apkAdded.world bundlePath none false "t2" = .ok bundleEntry :=
  newEntry_of_inspect apkAdded_bundle inspect_armBundle none false "t2"

theorem addBundle_spares : addBundle.Spares smallEnv apkAdded.world apkEntry.key := by
  intro entry hentry
  rw [newEntry_addBundle] at hentry
  cases hentry
  decide

theorem openAt_apkAdded : (openAt plainJson .none apkAdded.world).isOk := by decide

theorem apkAdded_file : (apkAdded.world.files apkEntry.path).isSome := by
  rw [apkAdded_world]
  simp [noHandles, apkEntry]

theorem apkAdded_handle : apkAdded.handles false = some ∅ := by
  rw [apkAdded, System.step_call_some outcome_addApk_eq]
  rfl

/-- The second front-end saves the bundle alone. -/
theorem step_addBundle : (apkAdded.step plainJson smallEnv (.call false .none addBundle)).world
    = ⟨some ((∅ : Index).insert bundleEntry.key bundleEntry), apkAdded.world.files⟩ := by
  have hpath : bundlePath.isUtf8 := Path.isUtf8_utf8Bytes _
  rw [System.step_call_open apkAdded_handle, addBundle, Call.run,
    add_plainJson utf8_empty hpath apkAdded_bundle inspect_armBundle bundleEntry rfl]

def removeApk : Call := .remove apkEntry.key true

/-- The second front-end, opened before the APK was added, does not find it. -/
theorem outcome_removeApk : apkAdded.outcome plainJson smallEnv false .none removeApk
    = some ⟨.ok (.removed false), ∅, apkAdded.world⟩ := by
  rw [System.outcome, apkAdded_handle, Option.map_some, removeApk, Call.run, remove,
    Std.ExtTreeMap.getElem?_empty]

theorem step_removeApk : (apkAdded.step plainJson smallEnv (.call false .none removeApk)).world
    = apkAdded.world := by
  rw [System.step_call_some outcome_removeApk]

/-- The second front-end tries to remove the APK and finds nothing; when it then opens the library
again before it adds the bundle, the APK stays. -/
theorem entry_survives_reopen : OnDisk plainJson (apkAdded.run plainJson smallEnv
    [.call false .none removeApk, .open false .none, .call false .none addBundle]).world
    apkEntry := by
  obtain ⟨after, hadd, hok⟩ := outcome_addApk
  have hcareful : Careful plainJson smallEnv apkEntry (· = true) apkAdded
      [.call false .none removeApk, .open false .none, .call false .none addBundle] := by
    refine ⟨?_, ?_⟩
    · rintro ⟨after, hafter, -, hne⟩
      cases outcome_removeApk.symm.trans hafter
      exact absurd rfl hne
    · apply careful_reopen
      all_goals rw [step_removeApk]
      · exact apkAdded_file
      · exact openAt_apkAdded
      · exact addBundle_spares
  exact entry_survives hadd hok hcareful

/-- When it does not, the APK is gone from the index file, though nobody removed or replaced it and
its file is there. -/
theorem lost_update :
    (∃ after, bothOpen.outcome plainJson smallEnv true .none addApk = some after ∧
      after.result = .ok (.added apkEntry)) ∧
    addBundle.Spares smallEnv apkAdded.world apkEntry.key ∧
    ((apkAdded.step plainJson smallEnv (.call false .none addBundle)).world.files apkPath).isSome ∧
    ¬ OnDisk plainJson
      (apkAdded.step plainJson smallEnv (.call false .none addBundle)).world apkEntry := by
  refine ⟨outcome_addApk, addBundle_spares, ?_, ?_⟩
  · rw [step_addBundle, apkAdded_world]
    simp [noHandles]
  · rw [step_addBundle]
    rintro ⟨j, index, hj, hparse, hentry⟩
    have hsaved : some ((∅ : Index).insert bundleEntry.key bundleEntry) = some j := hj
    have hread : some j = some index := hparse
    have hindex := Option.some.inj (hsaved.trans hread)
    have hne : bundleEntry.key ≠ apkEntry.key := addBundle_spares _ newEntry_addBundle
    rw [← hindex, Std.ExtTreeMap.getElem?_insert] at hentry
    simp [hne] at hentry

end Xylitol.Library
