import Xylitol.Shim.Libraries
import Xylitol.Shim.Numbers

/-!
# One package on two machines

What a report lists as missing is missing on this machine. On a machine with the same ABI whose
libraries provide more, the same objects are read, and the report says something else of where their
symbols come from: in the resolutions and counts of the objects, in the totals, and here:

    unimplemented    ──filter──▶    what the other machine does not provide either
    missingSymbols   ─────────▶     missingSymbols, or candidate when nothing is left

So where that was the verdict, a machine that provides all that this one does has the app as a
candidate if it provides what is listed, and not otherwise. Every other verdict is the same on both,
and so is the rest of the report.
-/

namespace Xylitol.Shim

open Apk (ZipArchive)

variable {env : Env} {data : Bytes} {r : Report} {provides : String → Bool}

/-- The machine with other libraries. -/
def Env.providing (env : Env) (provides : String → Bool) : Env := { env with hostProvides := provides }

/-- The verdict where these symbols are missing. -/
def Verdict.lacking (missing : List String) : Verdict → Verdict
  | .missingSymbols _ => if missing = [] then .candidate else .missingSymbols missing.length
  | v => v

theorem bundledLibraries_providing (zip : ZipArchive) (names : List String) (out : Libraries) :
    bundledLibraries (env.providing provides) zip names out = bundledLibraries env zip names out := by
  induction names generalizing out with
  | nil => rfl
  | cons name names ih =>
    simp only [bundledLibraries, ih]
    rfl

theorem nativeLibraries_providing :
    nativeLibraries (env.providing provides) data = nativeLibraries env data := by
  simp only [nativeLibraries, bundledLibraries_providing]
  rfl

/-- How many `Java_*` natives there are does not depend on the machine. -/
theorem jniNatives_foldl (objects : List Elf.NativeObject) (t : Tally) :
    (objects.foldl (Tally.add env) t).jniNatives
      = t.jniNatives + (objects.map Elf.NativeObject.jniNatives).sum := by
  induction objects generalizing t with
  | nil => rfl
  | cons object objects ih =>
    rw [List.foldl_cons, ih, List.map_cons, List.sum_cons, ← Nat.add_assoc]
    rfl

/-- Nor do the platform libraries that are linked against. -/
theorem androidLibraries_foldl (env env' : Env) (objects : List Elf.NativeObject) {t t' : Tally}
    (h : t.androidLibraries = t'.androidLibraries) :
    (objects.foldl (Tally.add env) t).androidLibraries
      = (objects.foldl (Tally.add env') t').androidLibraries := by
  induction objects generalizing t t' with
  | nil => exact h
  | cons object objects ih =>
    rw [List.foldl_cons, List.foldl_cons]
    apply ih
    rw [Tally.add, Tally.add, h]

/-- Two lists of names in order that have the same members are one. -/
theorem eq_of_mem_iff {xs ys : List String} (hxs : xs.Pairwise (· < ·)) (hys : ys.Pairwise (· < ·))
    (h : ∀ name, name ∈ xs ↔ name ∈ ys) : xs = ys := by
  have hperm : xs.Perm ys :=
    (List.perm_ext_iff_of_nodup (hxs.imp ne_of_lt) (hys.imp ne_of_lt)).mpr h
  refine hperm.eq_of_pairwise ?_ hxs hys
  intro a b _ _ hab hba
  exact absurd (hab.trans hba) (lt_irrefl a)

theorem unimplemented_providing (hmore : ∀ name, env.hostProvides name → provides name)
    (objects : List Elf.NativeObject) :
    (objects.foldl (Tally.add (env.providing provides)) .zero).unimplemented.toList
      = (objects.foldl (Tally.add env) .zero).unimplemented.toList.filter fun name =>
          !provides name := by
  apply eq_of_mem_iff (sorted_toList _) ((sorted_toList _).filter _)
  intro name
  have hzero : name ∉ Tally.zero.unimplemented := Std.ExtTreeSet.not_mem_empty
  rw [List.mem_filter, Std.ExtTreeSet.mem_toList, Std.ExtTreeSet.mem_toList,
    mem_unimplemented_foldl, mem_unimplemented_foldl, Bool.not_eq_true']
  constructor
  · rintro (h | ⟨o, ho, hname, htable, hhost⟩)
    · exact absurd h hzero
    · refine ⟨Or.inr ⟨o, ho, hname, htable, ?_⟩, hhost⟩
      rw [← Bool.not_eq_true]
      intro hprovided
      exact absurd (hmore name hprovided) (by rw [show provides name = false from hhost]; decide)
  · rintro ⟨h | ⟨o, ho, hname, htable, -⟩, hhost⟩
    · exact absurd h hzero
    · exact Or.inr ⟨o, ho, hname, htable, hhost⟩

/-- With other libraries the verdict changes in what is missing, when none of it is new. -/
theorem decide_lacking {host : Option Abi} {available : List String}
    {objects others : List ObjectReport} {entryPoints : List Elf.EntryPoint} {jniNatives : Nat}
    {before after : List String} (hobjects : others.isEmpty = objects.isEmpty)
    (hafter : before = [] → after = []) :
    decide host available others entryPoints jniNatives after.length
      = (decide host available objects entryPoints jniNatives before.length).lacking after := by
  unfold decide
  rw [hobjects]
  split_ifs with havailable hnone hentry hfresh hold hold
  · rfl
  · rfl
  · rfl
  · -- something is missing here and there
    rw [Verdict.lacking, if_neg (List.length_pos_iff.mp hfresh)]
  · exact absurd (hafter (List.length_eq_zero_iff.mp (by omega))) (List.length_pos_iff.mp hfresh)
  · rw [Verdict.lacking, if_pos (List.length_eq_zero_iff.mp (by omega))]
  · rfl

/-- The report on a machine that provides more differs in what is missing, in the verdict where that
was about missing symbols, and in how the symbols of the objects are resolved and counted; the objects
and everything else are the same. -/
theorem analyse_providing (hmore : ∀ name, env.hostProvides name → provides name)
    (h : analyse env data = .ok r) : ∃ r', analyse (env.providing provides) data = .ok r' ∧
      r'.unimplemented = r.unimplemented.filter (fun name => !provides name) ∧
      r'.verdict = r.verdict.lacking r'.unimplemented ∧
      r'.objects.map ObjectReport.object = r.objects.map ObjectReport.object ∧
      r' = { r with
        objects := r'.objects
        unimplemented := r'.unimplemented
        totals := r'.totals
        verdict := r'.verdict } := by
  obtain ⟨info, libraries, objects, hinfo, hlibs, hobjects, rfl⟩ := analyse_eq_ok_iff.mp h
  have hmissing := unimplemented_providing hmore objects
  refine ⟨report (env.providing provides) info (availableAbis libraries) objects, ?_, hmissing, ?_,
    ?_, ?_⟩
  · exact analyse_eq_ok_iff.mpr ⟨info, libraries, objects, hinfo,
      nativeLibraries_providing.trans hlibs, hobjects, rfl⟩
  · have hentry (env : Env) : (objects.foldl (Tally.add env) .zero).entryPoints
        = objects.flatMap (·.entryPoints) := entryPoints_foldl objects .zero
    have hjni (env : Env) : (objects.foldl (Tally.add env) .zero).jniNatives
        = (objects.map Elf.NativeObject.jniNatives).sum :=
      (jniNatives_foldl objects .zero).trans (Nat.zero_add _)
    have hnone (env : Env) : (objects.foldl (Tally.add env) .zero).objects.isEmpty
        = objects.isEmpty := by
      rw [objects_foldl, Tally.zero, List.nil_append, List.isEmpty_map]
    simp only [report, Tally.report, hentry, hjni]
    refine decide_lacking ((hnone _).trans (hnone _).symm) ?_
    intro hnothing
    rw [hmissing, hnothing, List.filter_nil]
  · rw [objects_report, objects_report, List.map_map, List.map_map]
    rfl
  · have hlinked := androidLibraries_foldl (env.providing provides) env objects
      (rfl : Tally.zero.androidLibraries = Tally.zero.androidLibraries)
    simp only [report, Tally.report, hlinked]
    rfl

/-- With `engine_start` provided the small package is a candidate. -/
theorem analyse_providing_start : ∃ r r', analyse bareEnv smallApk = .ok r ∧
    analyse (bareEnv.providing (· == "engine_start")) smallApk = .ok r' ∧
    r.verdict = .missingSymbols 1 ∧ r'.verdict = .candidate := by
  obtain ⟨r, hr, hsays⟩ := analyse_bareEnv
  obtain ⟨hverdict, hun⟩ := Prod.mk.inj hsays
  have hmore : ∀ name, bareEnv.hostProvides name → name == "engine_start" := by
    intro name hname
    cases hname
  obtain ⟨r', hr', hun', hverdict', -, -⟩ := analyse_providing hmore hr
  refine ⟨r, r', hr, hr', hverdict, ?_⟩
  rw [hverdict', hun', hverdict, hun]
  decide

end Xylitol.Shim
