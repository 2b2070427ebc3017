import Xylitol.Shim.Soundness

/-!
# The numbers of a report

A report counts the same symbols in several places: each object's counts, their totals, the set of
names nothing implements, and the verdict. The loop keeps them apart, so that they agree is a fact
about the loop: `report_adds_up`.
-/

namespace Xylitol.Shim

open Apk (PackageInfo)

variable {env : Env}

/-- The resolutions that take this route. -/
def taking (route : Route) (resolutions : List Resolution) : List Resolution :=
  resolutions.filter (·.route == route)

/-- An object's share of a report agrees with itself: one resolution for each symbol, in order, with
one route, and every symbol counted once. -/
structure ObjectReport.AddsUp (o : ObjectReport) : Prop where
  inOrder : o.resolutions.map Resolution.symbol = o.object.undefined
  oneRoute : ∀ s ∈ o.object.undefined, ∃! route, ∃ r ∈ o.resolutions, r.symbol = s ∧ r.route = route
  counts : o.counts = ⟨(taking .shim o.resolutions).length, (taking .host o.resolutions).length,
    (taking .stub o.resolutions).length⟩
  total : o.counts.shim + o.counts.host + o.counts.stub = o.object.undefined.length

/-- Some object can be entered without a Java machine. -/
def Enterable (objects : List Elf.NativeObject) : Prop :=
  ∃ o ∈ objects, ∃ e ∈ o.entryPoints, e.isSelfSufficient

/-- The numbers of a report about these objects agree. -/
structure Report.AddsUp (r : Report) (objects : List Elf.NativeObject) : Prop where
  same : r.objects.map ObjectReport.object = objects
  each : ∀ o ∈ r.objects, o.AddsUp
  totals : r.totals = ⟨(r.objects.map (·.counts.shim)).sum, (r.objects.map (·.counts.host)).sum,
    (r.objects.map (·.counts.stub)).sum⟩
  sorted : r.unimplemented.Pairwise (· < ·)
  unimplemented : ∀ name, name ∈ r.unimplemented ↔
    ∃ o ∈ r.objects, ∃ s ∈ o.resolutions, s.symbol = name ∧ s.route = .stub
  length_le : r.unimplemented.length ≤ r.totals.stub
  length_eq_zero : r.unimplemented.length = 0 ↔ r.totals.stub = 0
  candidate : r.verdict = .candidate ↔ objects ≠ [] ∧ Enterable objects ∧ r.totals.stub = 0
  missing : ∀ n, r.verdict = .missingSymbols n ↔
    n = r.unimplemented.length ∧ objects ≠ [] ∧ Enterable objects ∧ r.totals.stub ≠ 0

/-! ## One object -/

namespace RouteCounts

@[simp] theorem add_zero (a : RouteCounts) : a.add zero = a := rfl

theorem foldl_count (counts : RouteCounts) (resolutions : List Resolution) :
    resolutions.foldl count counts = counts.add
      ⟨(taking .shim resolutions).length, (taking .host resolutions).length,
        (taking .stub resolutions).length⟩ := by
  induction resolutions generalizing counts with
  | nil => rfl
  | cons r resolutions ih =>
    rw [List.foldl_cons, ih]
    cases hroute : r.route <;> simp [count, taking, hroute, add] <;> omega

theorem of_eq (resolutions : List Resolution) : of resolutions
    = ⟨(taking .shim resolutions).length, (taking .host resolutions).length,
      (taking .stub resolutions).length⟩ := by
  rw [of, foldl_count]
  simp [add, zero]

/-- Every resolution is counted under one route. -/
theorem total_of (resolutions : List Resolution) : (of resolutions).total = resolutions.length := by
  rw [of_eq]
  induction resolutions with
  | nil => rfl
  | cons r resolutions ih =>
    simp only [total, taking] at ih
    cases hroute : r.route <;> simp [total, taking, hroute] <;> omega

end RouteCounts

/-- Symbols that are in order are resolved in order. -/
theorem map_symbol_resolve (hostProvides : String → Bool) {symbols : List String}
    (hsorted : symbols.Pairwise (· < ·)) :
    (resolve hostProvides symbols).map Resolution.symbol = symbols := by
  have hpairwise : (symbols.map (resolveOne hostProvides)).Pairwise
      (fun a b => a.symbol ≤ b.symbol) := by
    rw [List.pairwise_map]
    refine hsorted.imp ?_
    intro a b hab
    rw [resolveOne_symbol, resolveOne_symbol]
    exact hab.le
  rw [resolve, hpairwise.insertionSort_eq, List.map_map]
  conv_rhs => rw [← List.map_id symbols]
  apply List.map_congr_left
  intro s _
  exact resolveOne_symbol hostProvides s

theorem objectReport_adds_up (env : Env) {object : Elf.NativeObject}
    (hsorted : object.undefined.Pairwise (· < ·)) : (objectReport env object).AddsUp := by
  have hsymbols := map_symbol_resolve env.hostProvides hsorted
  refine ⟨hsymbols, ?_, RouteCounts.of_eq _, ?_⟩
  · intro s hs
    refine ⟨(resolveOne env.hostProvides s).route, ?_, ?_⟩
    · exact ⟨resolveOne env.hostProvides s, (mem_resolve _).mpr ⟨s, hs, rfl⟩,
        resolveOne_symbol _ s, rfl⟩
    · rintro route ⟨r, hr, hsymbol, rfl⟩
      obtain ⟨s', -, rfl⟩ := (mem_resolve _).mp hr
      rw [resolveOne_symbol] at hsymbol
      rw [hsymbol]
  · show (RouteCounts.of (resolve env.hostProvides object.undefined)).total = _
    rw [RouteCounts.total_of, ← List.length_map Resolution.symbol, hsymbols]
    rfl

/-! ## All objects -/

/-- A number that is added up is summed over the objects. -/
theorem totals_foldl {f : RouteCounts → Nat} (hf : ∀ a b, f (a.add b) = f a + f b)
    (objects : List Elf.NativeObject) (t : Tally) :
    f (objects.foldl (Tally.add env) t).totals
      = f t.totals + ((objects.map (objectReport env)).map fun o => f o.counts).sum := by
  induction objects generalizing t with
  | nil => simp
  | cons object objects ih =>
    rw [List.foldl_cons, ih]
    show f (t.totals.add (objectReport env object).counts) + _ = _
    rw [hf, List.map_cons, List.map_cons, List.sum_cons, Nat.add_assoc]

theorem totals_report (env : Env) (info : PackageInfo) (available : List String)
    (objects : List Elf.NativeObject) : (report env info available objects).totals
      = ⟨((objects.map (objectReport env)).map (·.counts.shim)).sum,
        ((objects.map (objectReport env)).map (·.counts.host)).sum,
        ((objects.map (objectReport env)).map (·.counts.stub)).sum⟩ := by
  have hsum {f : RouteCounts → Nat} (hf : ∀ a b, f (a.add b) = f a + f b) (hzero : f .zero = 0) :
      f (report env info available objects).totals
        = ((objects.map (objectReport env)).map fun o => f o.counts).sum := by
    show f (objects.foldl (Tally.add env) .zero).totals = _
    rw [totals_foldl hf, Tally.zero, hzero, Nat.zero_add]
  rw [← hsum (f := RouteCounts.shim) (fun _ _ => rfl) rfl,
    ← hsum (f := RouteCounts.host) (fun _ _ => rfl) rfl,
    ← hsum (f := RouteCounts.stub) (fun _ _ => rfl) rfl]

/-- The symbols of the objects that are stubs, each as often as it is imported. -/
def stubs (objects : List ObjectReport) : List String :=
  objects.flatMap fun o => (taking .stub o.resolutions).map Resolution.symbol

theorem mem_stubs {objects : List ObjectReport} {name : String} : name ∈ stubs objects ↔
    ∃ o ∈ objects, ∃ s ∈ o.resolutions, s.symbol = name ∧ s.route = .stub := by
  simp only [stubs, taking, List.mem_flatMap, List.mem_map, List.mem_filter, beq_iff_eq]
  grind

theorem length_stubs {objects : List ObjectReport} (h : ∀ o ∈ objects, o.AddsUp) :
    (stubs objects).length = (objects.map (·.counts.stub)).sum := by
  rw [stubs, List.length_flatMap]
  congr 1
  apply List.map_congr_left
  intro o ho
  rw [List.length_map, (h o ho).counts]

theorem mem_unimplemented_report {info : PackageInfo} {available : List String}
    {objects : List Elf.NativeObject} {name : String} :
    name ∈ (report env info available objects).unimplemented ↔
      name ∈ stubs (objects.map (objectReport env)) := by
  have hempty : name ∉ Tally.zero.unimplemented := Std.ExtTreeSet.not_mem_empty
  have hfoldl : name ∈ (report env info available objects).unimplemented ↔
      name ∈ (objects.foldl (Tally.add env) .zero).unimplemented := Std.ExtTreeSet.mem_toList
  rw [hfoldl, mem_unimplemented_foldl, or_iff_right hempty, mem_stubs]
  simp only [Unresolved, ← stub_mem_resolve, List.mem_map]
  constructor
  · rintro ⟨o, ho, s, hs⟩
    exact ⟨objectReport env o, ⟨o, ho, rfl⟩, s, hs⟩
  · rintro ⟨-, ⟨o, ho, rfl⟩, s, hs⟩
    exact ⟨o, ho, s, hs⟩

theorem enterable_iff {objects : List Elf.NativeObject} : Enterable objects ↔
    (objects.flatMap (·.entryPoints)).any Elf.EntryPoint.isSelfSufficient := by
  simp only [Enterable, List.any_eq_true, List.mem_flatMap]
  grind

/-- The numbers of a report agree, for any objects and whatever the machine provides. A package whose
objects are read has them listed under some ABI. -/
theorem report_adds_up (env : Env) (info : PackageInfo) {available : List String}
    {objects : List Elf.NativeObject} (hsorted : ∀ o ∈ objects, o.undefined.Pairwise (· < ·))
    (havailable : objects ≠ [] → available ≠ []) :
    (report env info available objects).AddsUp objects := by
  set r := report env info available objects with hr
  have hobjects : r.objects = objects.map (objectReport env) := objects_foldl objects .zero
  have hsame : r.objects.map ObjectReport.object = objects := by
    rw [hobjects, List.map_map]
    exact List.map_id objects
  have hnil : r.objects ≠ [] ↔ objects ≠ [] := by
    rw [hobjects, Ne, List.map_eq_nil_iff]
  have heach : ∀ o ∈ r.objects, o.AddsUp := by
    rw [hobjects]
    intro o ho
    obtain ⟨object, hobject, rfl⟩ := List.mem_map.mp ho
    exact objectReport_adds_up env (hsorted object hobject)
  have htotals : r.totals = ⟨(r.objects.map (·.counts.shim)).sum,
      (r.objects.map (·.counts.host)).sum, (r.objects.map (·.counts.stub)).sum⟩ := by
    rw [hobjects]
    exact totals_report env info available objects
  have hmem : ∀ name, name ∈ r.unimplemented ↔ name ∈ stubs r.objects := by
    intro name
    rw [hobjects]
    exact mem_unimplemented_report
  have hstub : r.totals.stub = (stubs r.objects).length := by
    rw [htotals, length_stubs heach]
  have hpairwise : r.unimplemented.Pairwise (· < ·) := sorted_toList _
  -- the set has each stub once, the total counts it once for each object
  have hle : r.unimplemented.length ≤ r.totals.stub := by
    rw [hstub]
    have hnodup : r.unimplemented.Nodup := hpairwise.imp ne_of_lt
    exact (List.subperm_of_subset hnodup fun name => (hmem name).mp).length_le
  have hzero : r.unimplemented.length = 0 ↔ r.totals.stub = 0 := by
    rw [hstub, List.length_eq_zero_iff, List.length_eq_zero_iff, List.eq_nil_iff_forall_not_mem,
      List.eq_nil_iff_forall_not_mem]
    exact forall_congr' fun name => not_congr (hmem name)
  have hverdict : r.verdict = decide env.host available r.objects
      (objects.flatMap (·.entryPoints)) (objects.foldl (Tally.add env) .zero).jniNatives
      r.unimplemented.length := by
    rw [hr, report, Tally.report, entryPoints_foldl]
    rfl
  refine ⟨hsame, heach, htotals, hpairwise, ?_, hle, hzero, ?_, ?_⟩
  · intro name
    rw [hmem, mem_stubs]
  · rw [hverdict, decide_eq_candidate, hnil, ← enterable_iff, hzero]
    tauto
  · intro n
    have hpos : 0 < r.unimplemented.length ↔ r.totals.stub ≠ 0 :=
      Nat.pos_iff_ne_zero.trans (not_congr hzero)
    rw [hverdict, decide_eq_missingSymbols, hnil, ← enterable_iff, hpos, eq_comm]
    tauto

/-- Two objects that share an import nothing answers. -/
def sharing : List Elf.NativeObject :=
  [⟨"lib/x86_64/libapp.so", none, .x86_64, [], ["__errno", "engine_start"], [.androidMain], 0, 4096⟩,
    ⟨"lib/x86_64/libengine.so", none, .x86_64, [], ["engine_start"], [], 0, 4096⟩]

def sharingInfo : PackageInfo := Apk.infoOf (fun _ => "") ⟨"manifest", ∅, []⟩

theorem report_adds_up_sharing :
    (report bareEnv sharingInfo ["x86_64"] sharing).AddsUp sharing :=
  report_adds_up bareEnv sharingInfo (by decide) (by decide)

example : (report bareEnv sharingInfo ["x86_64"] sharing).verdict = .missingSymbols 1 := by decide

/-! ## Reports of packages -/

theorem sorted_undefined {crate : Elf.ObjectCrate} {path : String} {data : Bytes}
    {object : Elf.NativeObject} (h : Elf.read crate path data = .ok object) :
    object.undefined.Pairwise (· < ·) := by
  unfold Elf.read at h
  obtain ⟨file, -, h⟩ := bind_eq_ok.mp h
  obtain ⟨abi, -, h⟩ := bind_eq_ok.mp h
  obtain ⟨⟨soname, needed⟩, -, h⟩ := bind_eq_ok.mp h
  cases h
  exact sorted_toList (Std.ExtTreeSet.ofList (Elf.symbolNames file true))

theorem sorted_of_readObjects {data : Bytes} {objects : List Elf.NativeObject}
    (h : readObjects env data = .ok objects) {o : Elf.NativeObject} (ho : o ∈ objects) :
    o.undefined.Pairwise (· < ·) := by
  obtain ⟨libraries, -, hread⟩ := bind_eq_ok.mp h
  obtain ⟨lib, -, hlib⟩ := (mem_of_mapM_eq_ok hread).mp ho
  exact sorted_undefined hlib

/-- The numbers of every report that is returned agree. -/
theorem analyse_adds_up {data : Bytes} {r : Report} (h : analyse env data = .ok r) :
    ∃ objects, readObjects env data = .ok objects ∧ r.AddsUp objects := by
  obtain ⟨info, available, objects, hread, havailable, rfl⟩ := analyse_eq_report h
  exact ⟨objects, hread,
    report_adds_up env info (fun _ ho => sorted_of_readObjects hread ho) havailable⟩

end Xylitol.Shim
