import Xylitol.Library.Handles
import Xylitol.Runs
import Xylitol.Separators

/-!
# When two files share a key

A key is one string made of three texts, and the last of them is one of four things:

    package @ code # tail        tail = split name │ "bundle" │ "base" │ abi + … + abi

The code never contains a separator, but the package, the split name and the ABIs may, and a text
does not say which of the four it is. `key_eq_iff` lists every pair of files with one key, and
`add_spares_other_builds_iff` says what this means for the library: an `add` throws out another build
exactly when it collides with the new file.
-/

namespace Xylitol.Library

open Apk (PackageInfo)
open Apkpure (Variant)

/-! ## The version code -/

/-- The version code as the key shows it. -/
def shownCode (info : PackageInfo) : String := toString (info.versionCode.getD (-1))

theorem at_notMem_shownCode (info : PackageInfo) : '@' ∉ (shownCode info).toList := by
  intro h
  rcases Text.isDigit_or_dash_of_mem_repr h with h | h
  · exact absurd h (by decide)
  · exact absurd h (by decide)

theorem hash_notMem_shownCode (info : PackageInfo) : '#' ∉ (shownCode info).toList := by
  intro h
  rcases Text.isDigit_or_dash_of_mem_repr h with h | h
  · exact absurd h (by decide)
  · exact absurd h (by decide)

theorem shownCode_eq_iff {i j : PackageInfo} :
    shownCode i = shownCode j ↔ i.versionCode.getD (-1) = j.versionCode.getD (-1) :=
  Int.repr_inj

/-! ## The tail -/

/-- The last text of the key, by what it is. -/
inductive Tail (info : PackageInfo) : String → Prop where
  | split {name : String} (h : info.split = some name) : Tail info name
  | bundle (h : info.split = none) (hkind : info.kind = .bundle) : Tail info "bundle"
  | base (h : info.split = none) (hkind : info.kind ≠ .bundle) (habis : info.abis = []) :
      Tail info "base"
  | abis (h : info.split = none) (hkind : info.kind ≠ .bundle) (habis : info.abis ≠ []) :
      Tail info ("+".intercalate info.abis)

theorem tail_iff {info : PackageInfo} {t : String} : Tail info t ↔ discriminator info = t := by
  constructor
  · rintro (h | ⟨h, hkind⟩ | ⟨h, hkind, habis⟩ | ⟨h, hkind, habis⟩)
    all_goals simp [discriminator, *]
  · rintro rfl
    unfold discriminator
    cases hsplit : info.split with
    | some name => exact Tail.split hsplit
    | none =>
        show Tail info (if _ then _ else _)
        split
        · next hkind => exact Tail.bundle hsplit hkind
        · next hkind =>
            split
            · next habis => exact Tail.base hsplit hkind (List.isEmpty_iff.mp habis)
            · next habis => exact Tail.abis hsplit hkind fun h => habis (List.isEmpty_iff.mpr h)

/-! ## Collisions -/

/-- The five fields by which builds are told apart. -/
structure SameBuild (i j : PackageInfo) : Prop where
  package : i.package = j.package
  versionCode : i.versionCode = j.versionCode
  kind : i.kind = j.kind
  split : i.split = j.split
  abis : i.abis = j.abis

/-- One package, one code (no code counts as -1), and one text for the split name or what stands for
it. -/
def Aligned (i j : PackageInfo) : Prop :=
  i.package = j.package ∧ i.versionCode.getD (-1) = j.versionCode.getD (-1) ∧
    ∃ t, Tail i t ∧ Tail j t

/-- The package name of `j` goes on where that of `i` ends, with the code of `i` and the start `w` of
the tail of `i`, and that tail goes on with the code and the tail of `j`. -/
def Shifted (i j : PackageInfo) : Prop :=
  ∃ w t, j.package = i.package ++ "@" ++ shownCode i ++ "#" ++ w ∧
    Tail i (w ++ "@" ++ shownCode j ++ "#" ++ t) ∧ Tail j t

/-- Different builds that look alike in a key. -/
def Collide (i j : PackageInfo) : Prop :=
  ¬ SameBuild i j ∧ (Aligned i j ∨ Shifted i j ∨ Shifted j i)

theorem SameBuild.aligned {i j : PackageInfo} (h : SameBuild i j) : Aligned i j := by
  refine ⟨h.package, by rw [h.versionCode], discriminator i, tail_iff.mpr rfl, tail_iff.mpr ?_⟩
  unfold discriminator
  rw [h.split, h.kind, h.abis]

theorem toList_key (info : PackageInfo) : (key info).toList = info.package.toList
    ++ '@' :: ((shownCode info).toList ++ '#' :: (discriminator info).toList) := by
  simp [key, shownCode]

theorem aligned_iff {i j : PackageInfo} : Aligned i j ↔ i.package = j.package ∧
    shownCode i = shownCode j ∧ discriminator i = discriminator j := by
  simp only [Aligned, tail_iff, shownCode_eq_iff]
  constructor
  · rintro ⟨hp, hc, t, rfl, ht⟩
    exact ⟨hp, hc, ht.symm⟩
  · rintro ⟨hp, hc, ht⟩
    exact ⟨hp, hc, _, rfl, ht.symm⟩

theorem shifted_iff {i j : PackageInfo} : Shifted i j ↔ ∃ w : List Char,
    j.package.toList = i.package.toList ++ '@' :: ((shownCode i).toList ++ '#' :: w) ∧
    (discriminator i).toList
      = w ++ '@' :: ((shownCode j).toList ++ '#' :: (discriminator j).toList) := by
  simp only [Shifted, tail_iff]
  constructor
  · rintro ⟨w, t, hp, hd, rfl⟩
    exact ⟨w.toList, by simp [hp], by simp [hd]⟩
  · rintro ⟨w, hp, hd⟩
    refine ⟨String.ofList w, discriminator j, ?_, ?_, rfl⟩
    · apply String.toList_inj.mp
      simp [hp]
    · apply String.toList_inj.mp
      simp [hd]

/-- Every pair of files with one key. -/
theorem key_eq_iff (i j : PackageInfo) :
    key i = key j ↔ Aligned i j ∨ Shifted i j ∨ Shifted j i := by
  rw [← String.toList_inj, toList_key, toList_key,
    two_seps_eq_iff (by decide) (at_notMem_shownCode i) (hash_notMem_shownCode i)
      (at_notMem_shownCode j) (hash_notMem_shownCode j),
    aligned_iff, shifted_iff, shifted_iff, String.toList_inj, String.toList_inj, String.toList_inj]

/-- Files with one key are one build or collide. -/
theorem key_eq_iff_sameBuild_or_collide (i j : PackageInfo) :
    key i = key j ↔ SameBuild i j ∨ Collide i j := by
  rw [key_eq_iff, Collide]
  constructor
  · intro h
    by_cases hsame : SameBuild i j
    · exact Or.inl hsame
    · exact Or.inr ⟨hsame, h⟩
  · rintro (h | ⟨-, h⟩)
    · exact Or.inl h.aligned
    · exact h

/-! ## Every entry is under its own key -/

variable {H J : Type} {json : SerdeJson J} {env : Apk.Env}

def Keyed (index : Index) : Prop := ∀ (k : String) (e : Entry), index[k]? = some e → k = e.key

theorem keyed_insert {index : Index} (h : Keyed index) (entry : Entry) :
    Keyed (index.insert entry.key entry) := by
  intro k e hk
  rw [Std.ExtTreeMap.getElem?_insert] at hk
  split at hk
  · next heq =>
      cases hk
      exact (compare_eq_iff_eq.mp heq).symm
  · exact h k e hk

theorem keyed_erase {index : Index} (h : Keyed index) (key : String) : Keyed (index.erase key) := by
  intro k e hk
  rw [Std.ExtTreeMap.getElem?_erase] at hk
  split at hk
  · cases hk
  · exact h k e hk

theorem keyed_empty : Keyed ∅ := by
  intro k e hk
  simp at hk

theorem keyed_filter {index : Index} (h : Keyed index) (keep : String → Entry → Bool) :
    Keyed (index.filter keep) := by
  intro k e hk
  rw [Std.ExtTreeMap.getElem?_filter, Option.pfilter_eq_some_iff] at hk
  exact h k e hk.1

/-- The maps of all open handles and the map in the index file are keyed. -/
structure System.Keyed (json : SerdeJson J) (s : System H J) : Prop where
  memory : ∀ h index, s.handles h = some index → Library.Keyed index
  file : ∀ j index, s.world.index = some j → json.fromSlice j = some index → Library.Keyed index

/-- What cannot be read or parsed is the empty map, and opening leaves entries out. -/
theorem openAt_maps {P : Index → Prop} {faults : Faults} {world : World J} {index : Index}
    (hempty : P ∅) (hfilter : ∀ {index}, P index → ∀ keep, P (index.filter keep))
    (hfile : ∀ j index, world.index = some j → json.fromSlice j = some index → P index)
    (h : openAt json faults world = .ok index) : P index := by
  unfold openAt at h
  split at h
  · cases h
  · cases h
    apply hfilter
    cases hread : world.index.bind json.fromSlice with
    | none => exact hempty
    | some saved =>
        obtain ⟨j, hj, hparse⟩ := Option.bind_eq_some_iff.mp hread
        exact hfile j saved hj hparse

/-- A call leaves the map it was given or the map it edited, saved or not. -/
theorem Call.run_maps {P : Index → Prop} {faults : Faults} {index : Index} {world : World J}
    {call : Call} (h : P index)
    (hedits : ∀ {index' world' reply}, call.Edits env faults index world index' world' reply →
      P index') : P (call.run json env faults index world).index := by
  rcases call.run_cases json env faults index world with
    ⟨r, hrun⟩ | ⟨index', world', reply, hedit, ⟨j, -, hrun⟩ | ⟨e, hrun⟩⟩
  all_goals rw [hrun]
  · exact h
  · exact hedits hedit
  · exact hedits hedit

theorem Call.Edits.keyed {faults : Faults} {index index' : Index} {world world' : World J}
    {call : Call} {reply : Reply} (h : call.Edits env faults index world index' world' reply)
    (hindex : Keyed index) : Keyed index' := by
  cases h with
  | add hentry => exact keyed_insert hindex _
  | remove hentry => exact keyed_erase hindex _

/-- An `add` that succeeds inserts the entry it returns. -/
theorem index_of_added {s : System H J} {h : H} {index : Index} {faults : Faults} {path : Path}
    {source : Option Variant} {verified : Bool} {now : String} {after : Outcome J} {new : Entry}
    (hindex : s.handles h = some index)
    (hadd : s.outcome json env h faults (.add path source verified now) = some after)
    (hok : after.result = .ok (.added new)) : after.index = index.insert new.key new := by
  rw [System.outcome, hindex, Option.map_some, Option.some.injEq] at hadd
  subst hadd
  rcases add_cases json env faults index s.world path source verified now with
    ⟨e, -, hrun⟩ | ⟨new', -, ⟨j, -, hrun⟩ | ⟨e, hrun⟩⟩
  all_goals rw [Call.run, hrun] at hok ⊢
  · cases hok
  · cases hok
    rfl
  · cases hok

/-- Nothing is open and there is no index file yet. -/
def System.Fresh (s : System H J) : Prop := (∀ h, s.handles h = none) ∧ s.world.index = none

/-- There are no maps yet. -/
theorem System.Fresh.maps (json : SerdeJson J) (P : Index → Prop) {s : System H J} (h : s.Fresh) :
    (∀ h' index, s.handles h' = some index → P index) ∧
      ∀ j index, s.world.index = some j → json.fromSlice j = some index → P index := by
  constructor
  · intro h' index hindex
    rw [h.1 h'] at hindex
    cases hindex
  · intro j index hj
    rw [h.2] at hj
    cases hj

theorem System.Fresh.keyed (json : SerdeJson J) {s : System H J} (h : s.Fresh) : s.Keyed json := by
  obtain ⟨hmemory, hfile⟩ := h.maps json Library.Keyed
  exact ⟨hmemory, hfile⟩

variable [DecidableEq H]

/-- Giving one handle a map with the property. -/
theorem update_maps {P : Index → Prop} {handles : H → Option Index} {new : Index} (h : H)
    (hall : ∀ h' index, handles h' = some index → P index) (hnew : P new) (h' : H)
    (index : Index) (hindex : Function.update handles h (some new) h' = some index) : P index := by
  by_cases hh : h' = h
  · subst hh
    rw [Function.update_self] at hindex
    cases hindex
    exact hnew
  · rw [Function.update_of_ne hh] at hindex
    exact hall h' index hindex

/-- What all maps have, and opening and the step's call give, all maps have after the step: those in
memory and the one in the index file. -/
theorem System.step_maps {P : Index → Prop} {s : System H J} {st : Step H}
    (hmemory : ∀ h index, s.handles h = some index → P index)
    (hfile : ∀ j index, s.world.index = some j → json.fromSlice j = some index → P index)
    (hopen : ∀ faults index, openAt json faults s.world = .ok index → P index)
    (hcall : ∀ h faults call index, st = .call h faults call → s.handles h = some index →
      P (call.run json env faults index s.world).index) :
    (∀ h index, (s.step json env st).handles h = some index → P index) ∧
      ∀ j index, (s.step json env st).world.index = some j → json.fromSlice j = some index →
        P index := by
  cases st with
  | «open» h faults =>
      cases hindex : openAt json faults s.world with
      | error e =>
          rw [System.step_open_error hindex]
          exact ⟨hmemory, hfile⟩
      | ok index =>
          rw [System.step_open_ok hindex]
          exact ⟨update_maps h hmemory (hopen faults index hindex), hfile⟩
  | call h faults call =>
      cases houtcome : s.outcome json env h faults call with
      | none =>
          rw [System.step_call_none houtcome]
          exact ⟨hmemory, hfile⟩
      | some after =>
          rw [System.step_call_some houtcome]
          obtain ⟨index, hindex, rfl⟩ := Option.map_eq_some_iff.mp houtcome
          have hafter := hcall h faults call index rfl hindex
          refine ⟨update_maps h hmemory hafter, ?_⟩
          intro j saved hj hparse
          rcases call.run_index json env faults index s.world with
            hsame | ⟨-, -, j', hj', hwrote⟩
          · exact hfile j saved (hsame.symm.trans hj) hparse
          · -- what is read back is the map that was just written
            have heq : j = j' := Option.some.inj (hj.symm.trans hj')
            rw [heq, json.fromSlice_toVecPretty _ _ hwrote] at hparse
            cases hparse
            exact hafter
  | outside files => exact ⟨hmemory, hfile⟩

theorem step_keyed {s : System H J} (hs : s.Keyed json) (st : Step H) :
    (s.step json env st).Keyed json := by
  have hcall : ∀ h faults call index, st = .call h faults call → s.handles h = some index →
      Library.Keyed (call.run json env faults index s.world).index := by
    intro h faults call index _ hindex
    exact Call.run_maps (hs.memory h index hindex)
      fun hedits => hedits.keyed (hs.memory h index hindex)
  obtain ⟨hmemory, hfile⟩ := System.step_maps hs.memory hs.file
    (fun _ _ => openAt_maps keyed_empty keyed_filter hs.file) hcall
  exact ⟨hmemory, hfile⟩

theorem run_keyed {s : System H J} (hs : s.Keyed json) (steps : List (Step H)) :
    (s.run json env steps).Keyed json := by
  have hall : Runs.Along (System.step json env) (fun _ _ => True) s steps :=
    Runs.along_of_forall (fun _ _ _ => trivial) s
  have hstep : ∀ (s : System H J) (st : Step H), s.Keyed json → True →
      (s.step json env st).Keyed json := fun _ st hs _ => step_keyed hs st
  exact Runs.invariant_run hstep hs hall

/-! ## What an `add` throws out -/

/-- The entry is one of the index. -/
def Listed (index : Index) (entry : Entry) : Prop := ∃ k : String, index[k]? = some entry

theorem Keyed.listed_iff {index : Index} (h : Keyed index) {entry : Entry} :
    Listed index entry ↔ index[entry.key]? = some entry := by
  constructor
  · rintro ⟨k, hk⟩
    rw [← h k entry hk]
    exact hk
  · exact fun hentry => ⟨_, hentry⟩

/-- Among keyed entries, inserting one throws out what has its key, and nothing else. -/
theorem Keyed.not_listed_insert_iff {index : Index} (h : Keyed index) {old new : Entry}
    (hold : Listed index old) :
    ¬ Listed (index.insert new.key new) old ↔ old ≠ new ∧ old.key = new.key := by
  rw [h.listed_iff] at hold
  rw [(keyed_insert h new).listed_iff, Std.ExtTreeMap.getElem?_insert]
  split
  · next heq =>
      have hkey : new.key = old.key := compare_eq_iff_eq.mp heq
      rw [Option.some.injEq]
      exact ⟨fun hne => ⟨fun h => hne h.symm, hkey.symm⟩, fun hne h => hne.1 h.symm⟩
  · next hne =>
      constructor
      · exact fun hnot => absurd hold hnot
      · rintro ⟨-, hkey⟩
        exact absurd (compare_eq_iff_eq.mpr hkey.symm) hne

/-- In a library that started empty, an `add` that succeeds throws out entries of the same build only
exactly when no entry collides with the new one. -/
theorem add_spares_other_builds_iff {start : System H J} {steps : List (Step H)} {h : H}
    {index : Index} {faults : Faults} {path : Path} {source : Option Variant} {verified : Bool}
    {now : String} {after : Outcome J} {new : Entry} (hfresh : start.Fresh)
    (hindex : (start.run json env steps).handles h = some index)
    (hadd : (start.run json env steps).outcome json env h faults (.add path source verified now)
      = some after)
    (hok : after.result = .ok (.added new)) :
    (∀ old, Listed index old → ¬ Listed after.index old → SameBuild old.info new.info) ↔
      ∀ old, Listed index old → ¬ Collide old.info new.info := by
  have hkeyed : Keyed index := (run_keyed (hfresh.keyed json) steps).memory h index hindex
  rw [index_of_added hindex hadd hok]
  constructor
  · intro hspare old hold hcollide
    -- an entry that collides has the new key, so it is thrown out
    refine hcollide.1 (hspare old hold ((hkeyed.not_listed_insert_iff hold).mpr ⟨?_, ?_⟩))
    · rintro rfl
      exact hcollide.1 ⟨rfl, rfl, rfl, rfl, rfl⟩
    · exact (key_eq_iff_sameBuild_or_collide _ _).mpr (Or.inr hcollide)
  · intro hnone old hold hgone
    obtain ⟨-, hkey⟩ := (hkeyed.not_listed_insert_iff hold).mp hgone
    rcases (key_eq_iff_sameBuild_or_collide _ _).mp hkey with hsame | hcollide
    · exact hsame
    · exact absurd hcollide (hnone old hold)

/-! ## Two bundles -/

/-- Bundles without a split name collide whenever their ABIs are all that differs. -/
theorem collide_of_bundles {i j : PackageInfo} (hi : i.kind = .bundle) (hj : j.kind = .bundle)
    (hsi : i.split = none) (hsj : j.split = none) (hpackage : i.package = j.package)
    (hcode : i.versionCode = j.versionCode) (habis : i.abis ≠ j.abis) : Collide i j := by
  refine ⟨fun h => habis h.abis, Or.inl ⟨hpackage, by rw [hcode], "bundle", ?_, ?_⟩⟩
  · exact Tail.bundle hsi hi
  · exact Tail.bundle hsj hj

def armPath : Path := utf8Bytes "/p/arm.xapk"
def x86Path : Path := utf8Bytes "/p/x86.xapk"

/-- The two bundles on disk, and no library yet. -/
def twoBundles : System Unit Index where
  handles _ := none
  world := {
    index := none
    files := fun p => if p = armPath then some armBundle else if p = x86Path then some x86Bundle
      else none }

/-- A library that holds the first bundle. -/
def armAdded : List (Step Unit) := [.open () .none, .call () .none (.add armPath none false "t1")]

def armEntry : Entry := ⟨armPath, armInfo, none, "t1", false⟩
def x86Entry : Entry := ⟨x86Path, x86Info, none, "t2", false⟩

theorem twoBundles_fresh : twoBundles.Fresh := ⟨fun _ => rfl, rfl⟩

theorem twoBundles_armPath : twoBundles.world.files armPath = some armBundle := by
  simp [twoBundles]

theorem twoBundles_x86Path : twoBundles.world.files x86Path = some x86Bundle := by
  simp [twoBundles, armPath, x86Path, utf8Bytes_inj]

theorem utf8_armEntry : Utf8 ((∅ : Index).insert armEntry.key armEntry) := by
  have hpath : armPath.isUtf8 := Path.isUtf8_utf8Bytes _
  exact utf8_empty.insert armEntry.key armEntry hpath

theorem run_armAdded : twoBundles.run plainJson smallEnv armAdded
    = ⟨fun _ => some ((∅ : Index).insert armEntry.key armEntry),
        ⟨some ((∅ : Index).insert armEntry.key armEntry), twoBundles.world.files⟩⟩ := by
  have hopened : twoBundles.step plainJson smallEnv (.open () .none)
      = ⟨fun _ => some ∅, twoBundles.world⟩ := rfl
  have hpath : armPath.isUtf8 := Path.isUtf8_utf8Bytes _
  rw [armAdded, System.run_cons, System.run_cons, System.run_nil, hopened,
    System.step_call_open rfl, Call.run,
    add_plainJson utf8_empty hpath twoBundles_armPath inspect_armBundle armEntry rfl]
  congr 1

/-- The library with the first bundle, and what adding the second one to it comes to. -/
theorem outcome_x86 : ∃ index after,
    (twoBundles.run plainJson smallEnv armAdded).handles () = some index ∧
    (twoBundles.run plainJson smallEnv armAdded).outcome plainJson smallEnv () .none
      (.add x86Path none false "t2") = some after ∧
    after.result = .ok (.added x86Entry) := by
  have hpath : x86Path.isUtf8 := Path.isUtf8_utf8Bytes _
  have hindex : (twoBundles.run plainJson smallEnv armAdded).handles ()
      = some ((∅ : Index).insert armEntry.key armEntry) := by
    rw [run_armAdded]
  have hfile : (twoBundles.run plainJson smallEnv armAdded).world.files x86Path
      = some x86Bundle := by
    rw [run_armAdded]
    exact twoBundles_x86Path
  have hadd := add_plainJson utf8_armEntry hpath hfile inspect_x86Bundle x86Entry rfl
  rw [System.outcome, hindex, Option.map_some, Call.run, hadd]
  exact ⟨_, _, rfl, rfl, rfl⟩

theorem listed_armEntry {index : Index}
    (hindex : (twoBundles.run plainJson smallEnv armAdded).handles () = some index) :
    Listed index armEntry := by
  rw [run_armAdded] at hindex
  obtain rfl := Option.some.inj hindex
  exact ⟨_, Std.ExtTreeMap.getElem?_insert_self⟩

theorem add_spares_other_builds_iff_x86 : ∃ (index : Index) (after : Outcome Index),
    (twoBundles.run plainJson smallEnv armAdded).handles () = some index ∧
    after.result = .ok (.added x86Entry) ∧
    ((∀ old, Listed index old → ¬ Listed after.index old → SameBuild old.info x86Info) ↔
      ∀ old, Listed index old → ¬ Collide old.info x86Info) := by
  obtain ⟨index, after, hindex, hadd, hok⟩ := outcome_x86
  exact ⟨index, after, hindex, hok, add_spares_other_builds_iff twoBundles_fresh hindex hadd hok⟩

/-- The second bundle throws out the first, which is another build. -/
theorem bundle_replaced : ∃ index after,
    (twoBundles.run plainJson smallEnv armAdded).handles () = some index ∧
    (twoBundles.run plainJson smallEnv armAdded).outcome plainJson smallEnv () .none
      (.add x86Path none false "t2") = some after ∧
    after.result = .ok (.added x86Entry) ∧
    Listed index armEntry ∧ ¬ Listed after.index armEntry ∧
    ¬ SameBuild armEntry.info x86Entry.info := by
  obtain ⟨index, after, hindex, hadd, hok⟩ := outcome_x86
  have hkeyed : Keyed index :=
    (run_keyed (twoBundles_fresh.keyed plainJson) armAdded).memory () index hindex
  have hcollide : Collide armInfo x86Info :=
    collide_of_bundles rfl rfl rfl rfl rfl rfl (by decide)
  refine ⟨index, after, hindex, hadd, hok, listed_armEntry hindex, ?_, hcollide.1⟩
  rw [index_of_added hindex hadd hok]
  apply (hkeyed.not_listed_insert_iff (listed_armEntry hindex)).mpr
  exact ⟨by decide, (key_eq_iff_sameBuild_or_collide _ _).mpr (Or.inr hcollide)⟩

end Xylitol.Library
