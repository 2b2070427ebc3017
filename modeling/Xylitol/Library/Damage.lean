import Xylitol.Library.Invariant
import Xylitol.Runs

/-!
# An index file that cannot be parsed

`openAt` takes an index file that cannot be parsed for an empty one, and the next save writes the
empty one back. What such a file still says of an entry is a matter of its text, so it is asked of
the JSON library in a `Spelling`. `spelled_kept_iff` says which files lose nothing.
-/

namespace Xylitol.Library

variable {J : Type} {json : SerdeJson J} {env : Apk.Env}

/-- The text of an index file has the object for a key, well formed and the one of an entry, whether
or not the rest of the text can be parsed. Where all of it can, the entries are those spelled out. -/
structure Spelling (json : SerdeJson J) where
  Spells : J → String → Entry → Prop
  fromSlice : ∀ j index, json.fromSlice j = some index →
    ∀ (k : String) (e : Entry), Spells j k e ↔ index[k]? = some e

/-! ## One handle from call to call -/

/-- What a handle has in memory, and the files. -/
structure Held (J : Type) where
  index : Index
  world : World J

/-- One call of a handle, with the package files as they are by then. -/
structure Attempt where
  faults : Faults
  files : Path → Option Bytes
  call : Call

/-- The files as the call finds them. -/
def Attempt.world (a : Attempt) (s : Held J) : World J := { s.world with files := a.files }

def Attempt.outcome (json : SerdeJson J) (env : Apk.Env) (s : Held J) (a : Attempt) : Outcome J :=
  a.call.run json env a.faults s.index (a.world s)

def Attempt.step (json : SerdeJson J) (env : Apk.Env) (s : Held J) (a : Attempt) : Held J :=
  ⟨(a.outcome json env s).index, (a.outcome json env s).world⟩

/-- The call neither adds nor removes anything under the key. -/
def Attempt.Spares (env : Apk.Env) (key : String) (s : Held J) (a : Attempt) : Prop :=
  a.call.Spares env (a.world s) key

/-- The call succeeds besides. -/
def Attempt.Succeeds (json : SerdeJson J) (env : Apk.Env) (key : String) (s : Held J) (a : Attempt) :
    Prop :=
  a.Spares env key s ∧ (a.outcome json env s).result.isOk

def Call.IsRemove : Call → Prop
  | .remove _ _ => True
  | .add _ _ _ _ => False

theorem Attempt.getElem?_step (json : SerdeJson J) {key : String} {s : Held J} {a : Attempt}
    (h : a.Spares env key s) :
    (a.step json env s).index[key]? = s.index[key]? :=
  Call.run_spares h

/-- A call leaves the index file alone or makes it what the handle has in memory. -/
theorem Attempt.index_step (json : SerdeJson J) (env : Apk.Env) (s : Held J) (a : Attempt) :
    (a.step json env s).world.index = s.world.index ∨
      ∃ j, (a.step json env s).world.index = some j ∧
        json.toVecPretty (a.step json env s).index = some j := by
  rcases Call.run_index json env a.faults s.index (a.world s) a.call with hsame | ⟨-, -, hsaved⟩
  · exact Or.inl hsame
  · exact Or.inr hsaved

/-- An `add` that succeeds makes the index file what the handle has in memory. -/
theorem Attempt.index_step_add {s : Held J} {a : Attempt} (hadd : ¬ a.call.IsRemove)
    (hok : (a.outcome json env s).result.isOk) : ∃ j,
    (a.step json env s).world.index = some j ∧
      json.fromSlice j = some (a.step json env s).index := by
  apply Call.run_effective
  obtain ⟨faults, files, call⟩ := a
  cases call with
  | remove key deleteFile => exact absurd trivial hadd
  | add path source verified now =>
    rcases add_cases json env faults s.index ⟨s.world.index, files⟩ path source verified now with
      ⟨e, -, hrun⟩ | ⟨entry, -, ⟨j, -, hrun⟩ | ⟨e, hrun⟩⟩
    all_goals
      rw [Attempt.outcome, Attempt.world, Call.run, hrun] at hok
      rw [Attempt.world, Call.run, hrun]
    · cases hok
    · exact Or.inl ⟨entry, rfl⟩
    · cases hok

/-- A removal from an empty map changes nothing. -/
theorem Attempt.step_empty (json : SerdeJson J) (env : Apk.Env) {s : Held J} {a : Attempt}
    (hremove : a.call.IsRemove) (hempty : s.index = ∅) :
    (a.step json env s).index = ∅ ∧ (a.step json env s).world.index = s.world.index := by
  obtain ⟨faults, files, call⟩ := a
  cases call with
  | add path source verified now => exact absurd hremove id
  | remove key deleteFile =>
    have hrun : remove json faults s.index ⟨s.world.index, files⟩ key deleteFile
        = ⟨.ok (.removed false), s.index, ⟨s.world.index, files⟩⟩ := by
      rw [remove, hempty, Std.ExtTreeMap.getElem?_empty]
    simp only [Attempt.step, Attempt.outcome, Attempt.world, Call.run, hrun]
    exact ⟨hempty, trivial⟩

/-! ## What becomes of an entry -/

section

variable (spelling : Spelling json) {key : String} {e : Entry}

/-- The index file spells the entry out. -/
def Spelled (key : String) (e : Entry) (world : World J) : Prop :=
  ∃ j, world.index = some j ∧ spelling.Spells j key e

theorem spells_toVecPretty {index : Index} {j : J} (h : json.toVecPretty index = some j) :
    spelling.Spells j key e ↔ index[key]? = some e :=
  spelling.fromSlice j index (json.fromSlice_toVecPretty index j h) key e

theorem run_getElem? {s : Held J} {attempts : List Attempt}
    (hrun : Runs.Along (Attempt.step json env) (Attempt.Spares env key) s attempts) :
    (Runs.run (Attempt.step json env) s attempts).index[key]? = s.index[key]? := by
  have hstep : ∀ (t : Held J) (a : Attempt), t.index[key]? = s.index[key]? →
      a.Spares env key t → (a.step json env t).index[key]? = s.index[key]? :=
    fun t a hindex hspares => (a.getElem?_step json hspares).trans hindex
  exact Runs.invariant_run hstep rfl hrun

/-- Where the index file says of the key what the handle has in memory, calls that spare the key
change neither. -/
theorem run_spelled_iff {s : Held J} {attempts : List Attempt}
    (hrun : Runs.Along (Attempt.step json env) (Attempt.Spares env key) s attempts)
    (hfile : Spelled spelling key e s.world ↔ s.index[key]? = some e) :
    Spelled spelling key e (Runs.run (Attempt.step json env) s attempts).world ↔
      s.index[key]? = some e := by
  have hstep : ∀ t a, t.index[key]? = s.index[key]? ∧
      (Spelled spelling key e t.world ↔ s.index[key]? = some e) → Attempt.Spares env key t a →
      (a.step json env t).index[key]? = s.index[key]? ∧
        (Spelled spelling key e (a.step json env t).world ↔ s.index[key]? = some e) := by
    rintro t a ⟨hindex, hfile⟩ hspares
    have hkept := (a.getElem?_step json hspares).trans hindex
    refine ⟨hkept, ?_⟩
    rcases a.index_step json env t with hsame | ⟨j, hj, hsaved⟩
    · rwa [Spelled, hsame]
    · rw [← hkept, ← spells_toVecPretty spelling hsaved, Spelled, hj]
      simp
  exact (Runs.invariant_run hstep ⟨rfl, hfile⟩ hrun).2

/-- A handle of an empty library changes nothing for as long as nothing is added. -/
theorem run_removes_empty {s : Held J} {attempts : List Attempt} (hempty : s.index = ∅)
    (hremoves : ∀ a ∈ attempts, a.call.IsRemove) :
    (Runs.run (Attempt.step json env) s attempts).world.index = s.world.index := by
  have hstep : ∀ (t : Held J) (a : Attempt), t.index = ∅ ∧ t.world.index = s.world.index →
      a.call.IsRemove →
      (a.step json env t).index = ∅ ∧ (a.step json env t).world.index = s.world.index := by
    rintro t a ⟨hempty, hsame⟩ hremove
    obtain ⟨hindex, hworld⟩ := a.step_empty json env hremove hempty
    exact ⟨hindex, hworld.trans hsame⟩
  exact (Runs.invariant_run hstep ⟨hempty, rfl⟩
    (Runs.along_of_forall (fun a ha _ => hremoves a ha) s)).2

/-- Once a handle without the entry has added something, the index file is without it too. -/
theorem run_add_not_spelled {s : Held J} {attempts : List Attempt} {a : Attempt}
    (hrun : Runs.Along (Attempt.step json env) (Attempt.Succeeds json env key) s attempts)
    (hindex : s.index[key]? = none) (ha : a ∈ attempts) (hadd : ¬ a.call.IsRemove) :
    ¬ Spelled spelling key e (Runs.run (Attempt.step json env) s attempts).world := by
  obtain ⟨before, after, rfl⟩ := List.append_of_mem ha
  obtain ⟨hbefore, ⟨hspares, hok⟩, hafter⟩ := Runs.along_append.mp hrun
  have hnone : ((a.step json env (Runs.run (Attempt.step json env) s before))).index[key]?
      = none := by
    rw [a.getElem?_step json hspares, run_getElem? (Runs.along_imp (fun _ _ h => h.1) hbefore),
      hindex]
  obtain ⟨j, hj, hsaved⟩ := a.index_step_add hadd hok
  rw [Runs.run_append, Runs.run_cons, run_spelled_iff spelling
    (Runs.along_imp (fun _ _ h => h.1) hafter), hnone]
  · simp
  · rw [← spelling.fromSlice j _ hsaved, Spelled, hj]
    simp

end

/-- An entry spelled out in the index file, and whose file is there when the library is opened,
stays in the index file through all calls of other keys exactly when the whole index could be
parsed or nothing is added. -/
theorem spelled_kept_iff (spelling : Spelling json) {faults : Faults} {world : World J} {j : J}
    {index : Index} {key : String} {e : Entry} {attempts : List Attempt}
    (hfile : world.index = some j) (hspells : spelling.Spells j key e)
    (hexists : (world.files e.path).isSome) (hopen : openAt json faults world = .ok index)
    (hrun : Runs.Along (Attempt.step json env) (Attempt.Succeeds json env key) ⟨index, world⟩
      attempts) :
    Spelled spelling key e (Runs.run (Attempt.step json env) ⟨index, world⟩ attempts).world ↔
      (json.fromSlice j).isSome ∨ ∀ a ∈ attempts, a.call.IsRemove := by
  have hspelled : Spelled spelling key e world := ⟨j, hfile, hspells⟩
  have hrecorded : recorded json world = (json.fromSlice j).getD ∅ := by
    rw [recorded, hfile, Option.bind_some]
  cases hparse : json.fromSlice j with
  | some parsed =>
    -- the entry was parsed, so the handle has it
    rw [hparse, Option.getD_some] at hrecorded
    have hentry : index[key]? = some e := by
      rw [getElem?_openAt hopen, hrecorded]
      exact ⟨(spelling.fromSlice j parsed hparse key e).mp hspells, hexists⟩
    have hspares := Runs.along_imp (fun _ _ h => h.1) hrun
    rw [run_spelled_iff spelling hspares (iff_of_true hspelled hentry)]
    simp [hentry]
  | none =>
    -- the handle starts without any entry
    rw [hparse, Option.getD_none] at hrecorded
    have hempty : index = ∅ := by
      apply Std.ExtTreeMap.ext_getElem?
      intro k
      cases hk : index[k]? with
      | none => simp
      | some e' =>
        rw [getElem?_openAt hopen, hrecorded] at hk
        simp at hk
    by_cases hremoves : ∀ a ∈ attempts, a.call.IsRemove
    · refine iff_of_true ⟨j, ?_, hspells⟩ (Or.inr hremoves)
      rw [run_removes_empty hempty hremoves, hfile]
    · refine iff_of_false ?_ (by simp [hremoves])
      push Not at hremoves
      obtain ⟨a, ha, hadd⟩ := hremoves
      exact run_add_not_spelled spelling hrun (by simp [hempty]) ha hadd

/-! ## A stray brace at the end

What `serde_json` reads of a text that begins as an index: the rest may be white space only. -/

def isJsonSpace (b : UInt8) : Bool := b == 0x20 || b == 0x09 || b == 0x0A || b == 0x0D

/-- An index file is the text of an index and what follows it. -/
def tailJson : SerdeJson (Index × Bytes) where
  toVecPretty index := (plainJson.toVecPretty index).map fun index => (index, [])
  fromSlice j := if j.2.all isJsonSpace then some j.1 else none
  isSome_toVecPretty index := by rw [Option.isSome_map, plainJson.isSome_toVecPretty]
  fromSlice_toVecPretty index j h := by
    obtain ⟨written, hwritten, rfl⟩ := Option.map_eq_some_iff.mp h
    exact plainJson.fromSlice_toVecPretty index written hwritten

def tailSpelling : Spelling tailJson where
  Spells j k e := j.1[k]? = some e
  fromSlice j index h k e := by
    simp only [tailJson, Option.ite_none_right_eq_some, Option.some.injEq] at h
    rw [h.2]

def bothFiles : Path → Option Bytes := fun p =>
  if p = apkPath then some baseApk else if p = bundlePath then some armBundle else none

/-- An index file with the APK, and something after its closing brace. -/
def withTail (tail : Bytes) : World (Index × Bytes) :=
  ⟨some ((∅ : Index).insert apkEntry.key apkEntry, tail), bothFiles⟩

/-- What a handle has after opening it. -/
def openedTail (tail : Bytes) : Held (Index × Bytes) :=
  ⟨(recorded tailJson (withTail tail)).filter fun _ e => (bothFiles e.path).isSome, withTail tail⟩

def bundleAdded : Attempt := ⟨.none, bothFiles, addBundle⟩

/-- A new entry depends on the file under its path and on no other. -/
theorem newEntry_congr {J' : Type} {world : World J} {world' : World J'} {path : Path}
    (h : world.files path = world'.files path) (source : Option Apkpure.Variant) (verified : Bool)
    (now : String) :
    newEntry env world path source verified now = newEntry env world' path source verified now := by
  rw [newEntry, newEntry, h]

theorem bothFiles_bundlePath : bothFiles bundlePath = some armBundle := by
  simp [bothFiles, apkPath, bundlePath, utf8Bytes_inj]

theorem newEntry_bothFiles : newEntry smallEnv (⟨none, bothFiles⟩ : World Index) bundlePath none
    false "t2" = .ok bundleEntry :=
  newEntry_of_inspect bothFiles_bundlePath inspect_armBundle none false "t2"

theorem openAt_withTail (tail : Bytes) :
    openAt tailJson .none (withTail tail) = .ok (openedTail tail).index := rfl

theorem utf8_openedTail (tail : Bytes) : Utf8 (openedTail tail).index := by
  apply utf8_openAt (openAt_withTail tail)
  show Utf8 ((if tail.all isJsonSpace then some ((∅ : Index).insert apkEntry.key apkEntry)
    else none).getD ∅)
  split
  · exact utf8_empty.insert _ _ (Path.isUtf8_utf8Bytes _)
  · exact utf8_empty

/-- The call is for another key and succeeds, whatever follows the brace. -/
theorem bundleAdded_succeeds (tail : Bytes) :
    Runs.Along (Attempt.step tailJson smallEnv)
      (Attempt.Succeeds tailJson smallEnv apkEntry.key) (openedTail tail) [bundleAdded] := by
  refine ⟨⟨?_, ?_⟩, trivial⟩
  · intro entry hentry
    cases newEntry_bothFiles.symm.trans hentry
    decide
  · have hpath : bundlePath.isUtf8 := Path.isUtf8_utf8Bytes _
    obtain ⟨j, hj⟩ := Option.isSome_iff_exists.mp ((tailJson.isSome_toVecPretty _).mpr
      ((utf8_openedTail tail).insert bundleEntry.key bundleEntry hpath))
    have hfile : (bundleAdded.world (openedTail tail)).files bundlePath = some armBundle :=
      bothFiles_bundlePath
    have hcall : bundleAdded.call = .add bundlePath none false "t2" := rfl
    have hfaults : bundleAdded.faults = .none := rfl
    rw [Attempt.outcome, hcall, hfaults, Call.run,
      add_of_inspect tailJson hfile inspect_armBundle bundleEntry rfl hj]
    rfl

theorem spells_withTail (tail : Bytes) : Spelled tailSpelling apkEntry.key apkEntry (withTail tail) :=
  ⟨_, rfl, Std.ExtTreeMap.getElem?_insert_self⟩

/-- A line end after the brace does no harm. -/
theorem spelled_kept_iff_newline : Spelled tailSpelling apkEntry.key apkEntry
    (Runs.run (Attempt.step tailJson smallEnv) (openedTail [0x0A]) [bundleAdded]).world := by
  obtain ⟨j, hj, hspells⟩ := spells_withTail [0x0A]
  have hparse : (tailJson.fromSlice j).isSome := by
    cases hj
    rfl
  exact (spelled_kept_iff tailSpelling hj hspells (by decide) (openAt_withTail [0x0A])
    (bundleAdded_succeeds [0x0A])).mpr (Or.inl hparse)

/-- A second brace does: the APK is spelled out and its file is there, the library opens, a bundle
is added, and the APK is gone. -/
theorem stray_brace_loses : Spelled tailSpelling apkEntry.key apkEntry (withTail [0x7D]) ∧
    ((withTail [0x7D]).files apkEntry.path).isSome ∧
    openAt tailJson .none (withTail [0x7D]) = .ok (openedTail [0x7D]).index ∧
    Runs.Along (Attempt.step tailJson smallEnv)
      (Attempt.Succeeds tailJson smallEnv apkEntry.key) (openedTail [0x7D]) [bundleAdded] ∧
    ¬ Spelled tailSpelling apkEntry.key apkEntry
      (Runs.run (Attempt.step tailJson smallEnv) (openedTail [0x7D]) [bundleAdded]).world := by
  have hrun := bundleAdded_succeeds [0x7D]
  refine ⟨spells_withTail _, by decide, rfl, hrun, ?_⟩
  exact run_add_not_spelled tailSpelling hrun (by decide) List.mem_cons_self id

end Xylitol.Library
