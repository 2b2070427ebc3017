import Xylitol.Apk.Axml.RoundTrip
import Xylitol.Shim.Report

/-!
# What a verdict is worth

A report promises two things about names. *Candidate* promises that everything the objects import is
answered; `unimplemented` promises that nothing answers what it lists. Both promises are about what
really answers a name: an export of the shim, the host, or another object of the same package.

    promised          table ∪ host              decided by resolve
    true              exports ∪ host ∪ siblings

The two differ where the table has a name nothing exports (a phantom) and where a sibling defines
what an object imports. `candidate_answered_iff` and `no_false_alarm_iff` say that these are the only
differences.
-/

namespace Xylitol.Shim

open Apk (Stored zeros w16 w32)

variable {env : Env} {data : Bytes} {r : Report}

/-! ## Imports and definitions of a package -/

/-- The host-ABI native objects of the package, as the object library reads them. -/
def hostFiles (env : Env) (data : Bytes) : List Elf.ObjectFile :=
  match nativeLibraries env data with
  | .ok libraries => (usable env libraries).filterMap fun lib => (env.object.parse lib.2).toOption
  | .error _ => []

/-- Some host-ABI object of the package has `name` as an undefined dynamic symbol. -/
def Imports (env : Env) (data : Bytes) (name : String) : Prop :=
  ∃ file ∈ hostFiles env data, name ∈ Elf.symbolNames file true

/-- Some host-ABI object of the package exports `name` as a defined dynamic symbol. -/
def Defines (env : Env) (data : Bytes) (name : String) : Prop :=
  ∃ file ∈ hostFiles env data, name ∈ Elf.symbolNames file false

/-- Some host-ABI object of the package has an entry point that can start the app alone. -/
def StartsAlone (env : Env) (data : Bytes) : Prop :=
  ∃ e : Elf.EntryPoint, e.isSelfSufficient ∧ Defines env data e.symbol

/-- Objects that were all read, beside what they were read from. -/
theorem forall₂_of_mapM {libs : List (String × Bytes)} {objects : List Elf.NativeObject}
    (h : libs.mapM (fun lib => Elf.read env.object lib.1 lib.2) = .ok objects) :
    List.Forall₂ Elf.ReadFrom
      (libs.filterMap fun lib => (env.object.parse lib.2).toOption) objects := by
  have hall := mapM_eq_ok.mp h
  clear h
  induction hall with
  | nil => exact .nil
  | cons hread _ ih =>
      obtain ⟨file, hfile, hobject⟩ := Elf.read_eq_ok hread
      rw [List.filterMap_cons, hfile]
      exact .cons hobject ih

/-- The objects of a report stand for the host-ABI files of the package. -/
theorem files_of_readObjects {objects : List Elf.NativeObject}
    (h : readObjects env data = .ok objects) :
    List.Forall₂ Elf.ReadFrom (hostFiles env data) objects := by
  obtain ⟨libraries, hlibs, hobjects⟩ := bind_eq_ok.mp h
  rw [hostFiles, hlibs]
  exact forall₂_of_mapM hobjects

theorem imports_iff {objects : List Elf.NativeObject} (h : readObjects env data = .ok objects)
    {name : String} : Imports env data name ↔ ∃ o ∈ objects, name ∈ o.undefined := by
  have hfiles := files_of_readObjects h
  clear h
  unfold Imports
  generalize hostFiles env data = files at hfiles
  induction hfiles with
  | nil => simp
  | cons hhead _ ih =>
      rw [List.exists_mem_cons_iff, List.exists_mem_cons_iff]
      exact or_congr (hhead.undefined name).symm ih

theorem defines_entryPoint_iff {objects : List Elf.NativeObject}
    (h : readObjects env data = .ok objects) (e : Elf.EntryPoint) :
    Defines env data e.symbol ↔ e ∈ objects.flatMap (·.entryPoints) := by
  have hfiles := files_of_readObjects h
  clear h
  unfold Defines
  generalize hostFiles env data = files at hfiles
  induction hfiles with
  | nil => simp
  | cons hhead _ ih =>
      rw [List.exists_mem_cons_iff, List.flatMap_cons, List.mem_append]
      exact or_congr hhead.mem_entryPoints.symm ih

theorem startsAlone_iff {objects : List Elf.NativeObject}
    (h : readObjects env data = .ok objects) :
    StartsAlone env data ↔
      (objects.flatMap (·.entryPoints)).any Elf.EntryPoint.isSelfSufficient := by
  rw [List.any_eq_true]
  constructor
  · rintro ⟨e, hself, hdef⟩
    exact ⟨e, (defines_entryPoint_iff h e).mp hdef, hself⟩
  · rintro ⟨e, hin, hself⟩
    exact ⟨e, hself, (defines_entryPoint_iff h e).mpr hin⟩

/-! ## When the verdict is Candidate -/

theorem decide_eq_candidate {host : Option Abi} {available : List String}
    {objects : List ObjectReport} {entryPoints : List Elf.EntryPoint}
    {jniNatives unimplemented : Nat} :
    decide host available objects entryPoints jniNatives unimplemented = .candidate ↔
      available ≠ [] ∧ objects ≠ [] ∧ entryPoints.any Elf.EntryPoint.isSelfSufficient ∧
        unimplemented = 0 := by
  unfold decide
  repeat' split
  all_goals simp_all
  omega

theorem decide_eq_missingSymbols {host : Option Abi} {available : List String}
    {objects : List ObjectReport} {entryPoints : List Elf.EntryPoint}
    {jniNatives unimplemented count : Nat} :
    decide host available objects entryPoints jniNatives unimplemented = .missingSymbols count ↔
      available ≠ [] ∧ objects ≠ [] ∧ entryPoints.any Elf.EntryPoint.isSelfSufficient ∧
        0 < unimplemented ∧ unimplemented = count := by
  unfold decide
  repeat' split
  all_goals simp_all

/-- Everything the package imports is in the table or provided by the host. -/
def AllResolved (env : Env) (data : Bytes) : Prop :=
  ∀ name, Imports env data name → InTable name ∨ env.hostProvides name

theorem verdict_candidate_iff (h : analyse env data = .ok r) :
    r.verdict = .candidate ↔ StartsAlone env data ∧ AllResolved env data := by
  obtain ⟨objects, hread, hr⟩ := analyse_eq_ok h
  rw [hr.verdict, decide_eq_candidate, ← startsAlone_iff hread, List.length_eq_zero_iff]
  have hresolved : r.unimplemented = [] ↔ AllResolved env data := by
    rw [List.eq_nil_iff_forall_not_mem]
    refine forall_congr' fun name => ?_
    rw [hr.unimplemented, imports_iff hread]
    constructor
    · rintro hnone ⟨o, ho, hname⟩
      by_contra hun
      obtain ⟨htable, hhost⟩ := not_or.mp hun
      exact hnone ⟨o, ho, hname, htable, Bool.eq_false_iff.mpr hhost⟩
    · rintro hall ⟨o, ho, hname, htable, hhost⟩
      rcases hall ⟨o, ho, hname⟩ with h | h
      · exact htable h
      · rw [hhost] at h
        cases h
  rw [hresolved]
  constructor
  · rintro ⟨-, -, halone, hall⟩
    exact ⟨halone, hall⟩
  · rintro ⟨halone, hall⟩
    -- something starts alone, so there are objects, and they have an ABI
    have hne : objects ≠ [] := by
      rintro rfl
      have := (startsAlone_iff hread).mp halone
      cases this
    refine ⟨hr.available hne, ?_, halone, hall⟩
    rw [hr.objects_eq]
    exact fun hnil => hne (List.map_eq_nil_iff.mp hnil)

/-! ## The Candidate verdict -/

/-- The shim exports the name or the host provides it. -/
def Answered (env : Env) (name : String) : Prop := name ∈ exports ∨ env.hostProvides name

/-- What a report says of all imports of its objects. -/
theorem forall_undefined_iff {P : String → Prop} (h : analyse env data = .ok r) :
    (∀ o ∈ r.objects, ∀ name ∈ o.object.undefined, P name) ↔
      ∀ name, Imports env data name → P name := by
  obtain ⟨objects, hread, hr⟩ := analyse_eq_ok h
  rw [hr.objects_eq]
  constructor
  · intro hall name himp
    obtain ⟨o, ho, hname⟩ := (imports_iff hread).mp himp
    exact hall _ (List.mem_map_of_mem ho) name hname
  · intro hall o ho name hname
    obtain ⟨object, hobject, rfl⟩ := List.mem_map.mp ho
    exact hall name ((imports_iff hread).mpr ⟨object, hobject, hname⟩)

/-- The shim exports what is routed to it, but for the phantoms. -/
theorem shim_route_exported_iff (hostProvides : String → Bool) (symbols : List String) :
    (∀ res ∈ resolve hostProvides symbols, res.route = .shim → res.symbol ∈ exports) ↔
      ∀ name ∈ symbols, name ∉ phantoms := by
  constructor
  · intro hall name hname hphantom
    obtain ⟨htable, hexport⟩ := mem_phantoms_iff.mp hphantom
    refine hexport ?_
    have hres := hall (resolveOne hostProvides name)
      ((mem_resolve hostProvides).mpr ⟨name, hname, rfl⟩)
      ((route_eq_shim hostProvides).mpr htable)
    rwa [resolveOne_symbol] at hres
  · intro hall res hres hroute
    obtain ⟨name, hname, rfl⟩ := (mem_resolve hostProvides).mp hres
    rw [resolveOne_symbol]
    by_contra hexport
    exact hall name hname
      (mem_phantoms_iff.mpr ⟨(route_eq_shim hostProvides).mp hroute, hexport⟩)

/-- A Candidate whose imports are all answered, and a `shim` route only for what is exported: the
first holds except for packages that look resolved through a phantom the host does not have, the
second as long as no phantom is asked for. -/
theorem candidate_answered_iff (h : analyse env data = .ok r) (symbols : List String) :
    ((r.verdict = .candidate → ∀ o ∈ r.objects, ∀ name ∈ o.object.undefined, Answered env name) ↔
      ¬ (StartsAlone env data ∧ AllResolved env data ∧
        ∃ name ∈ phantoms, Imports env data name ∧ env.hostProvides name = false)) ∧
    ((∀ res ∈ resolve env.hostProvides symbols, res.route = .shim → res.symbol ∈ exports) ↔
      ∀ name ∈ symbols, name ∉ phantoms) := by
  refine ⟨?_, shim_route_exported_iff env.hostProvides symbols⟩
  rw [verdict_candidate_iff h, forall_undefined_iff h]
  constructor
  · -- a phantom the host does not have looks resolved, and nothing answers it
    rintro hsound ⟨halone, hall, name, hphantom, himp, hhost⟩
    obtain ⟨-, hexport⟩ := mem_phantoms_iff.mp hphantom
    rcases hsound ⟨halone, hall⟩ name himp with h | h
    · exact hexport h
    · rw [hhost] at h
      cases h
  · -- what nothing answers was resolved through the table, so it is a phantom
    rintro hno ⟨halone, hall⟩ name himp
    by_contra hun
    obtain ⟨hexport, hhost⟩ := not_or.mp hun
    have htable : InTable name := (hall name himp).resolve_right hhost
    exact hno ⟨halone, hall, name, mem_phantoms_iff.mpr ⟨htable, hexport⟩, himp,
      Bool.eq_false_iff.mpr hhost⟩

/-! ## False alarms -/

/-- Nothing answers the name: not the shim, neither by its table nor by its exports, not the host,
and no host-ABI object of the package. -/
structure NoProvider (env : Env) (data : Bytes) (name : String) : Prop where
  table : ¬ InTable name
  exported : name ∉ exports
  host : env.hostProvides name = false
  sibling : ¬ Defines env data name

/-- A report without false alarms: what it lists, and what it counts, has no provider. -/
structure NoFalseAlarm (env : Env) (data : Bytes) (r : Report) : Prop where
  listed : ∀ name ∈ r.unimplemented, NoProvider env data name
  counted : ∀ count, r.verdict = .missingSymbols count →
    ∃ names : List String, names.Nodup ∧ names.length = count ∧
      ∀ name ∈ names, NoProvider env data name

def w64 (n : Nat) : Bytes := w32 n ++ zeros 4

/-- The entries of a dynamic symbol table, the first name `offset` bytes into the string table. -/
def elfSymbols : Nat → List Elf.DynamicSymbol → Bytes
  | _, [] => []
  | offset, symbol :: rest =>
    w32 offset ++ [0x12, 0] ++ w16 (if symbol.undefined then 0 else 1) ++ zeros 16
      ++ elfSymbols (offset + (utf8Bytes (symbol.name.getD "")).length + 1) rest

def elfSection (ty offset size link info entry : Nat) : Bytes :=
  w32 0 ++ w32 ty ++ zeros 16 ++ w64 offset ++ w64 size ++ w32 link ++ w32 info ++ w64 1 ++ w64 entry

/-- An x86-64 shared object with these dynamic symbols and nothing else. -/
def elfBytes (symbols : List Elf.DynamicSymbol) : Bytes :=
  let dynsym := zeros 24 ++ elfSymbols 1 symbols
  let dynstr := 0 :: symbols.flatMap fun symbol => utf8Bytes (symbol.name.getD "") ++ [0]
  let table := 64 + dynsym.length
  [0x7f, 0x45, 0x4c, 0x46, 2, 1, 1] ++ zeros 9 ++ w16 3 ++ w16 0x3e ++ w32 1 ++ zeros 16 ++ w64 table
    ++ w32 0 ++ w16 64 ++ zeros 4 ++ w16 64 ++ w16 3 ++ w16 2 ++ dynsym ++ zeros 64
    ++ elfSection 11 64 dynsym.length 2 1 24 ++ elfSection 3 (table + 192) dynstr.length 0 0 0
    ++ dynstr

def appSymbols : List Elf.DynamicSymbol :=
  [⟨some "ANativeActivity_onCreate", false⟩, ⟨some "__system_property_find", true⟩,
    ⟨some "engine_start", true⟩]

def engineSymbols : List Elf.DynamicSymbol := [⟨some "engine_start", false⟩]

def smallMembers : List Stored :=
  [⟨"AndroidManifest.xml", 0x66ea8750, Apk.Axml.smallDocument.bytes⟩,
    ⟨"lib/x86_64/libapp.so", 0x7bf643dc, elfBytes appSymbols⟩,
    ⟨"lib/x86_64/libengine.so", 0xb68715b6, elfBytes engineSymbols⟩]

def smallApk : Bytes := Stored.zip smallMembers

/-- The libraries, as they are on the small package and its two objects. -/
def smallEnv (hostProvides : String → Bool) : Env where
  apk := {
    width := .w64
    zip := fun data =>
      if data = smallApk then .ok (Stored.archive smallMembers (by decide))
      else .error (.other "invalid Zip archive")
    sha256 := fun _ =>
      [0x5d, 0x51, 0x53, 0x44, 0xd1, 0xfa, 0xa8, 0x37, 0xbe, 0xa9, 0xe1, 0x01,
      0xf5, 0x05, 0xc0, 0xf2, 0x2b, 0x16, 0x11, 0x77, 0x08, 0x8b, 0x41, 0xc1,
      0x7c, 0x3a, 0x01, 0x08, 0xfa, 0xea, 0x6d, 0xb0]
    showFloat := fun _ => "" }
  object := {
    parse := fun data =>
      if data = elfBytes appSymbols then .ok ⟨.x86_64, appSymbols⟩
      else if data = elfBytes engineSymbols then .ok ⟨.x86_64, engineSymbols⟩
      else .error "Unknown file magic"
    dynamicTables := fun _ _ => .ok [] }
  host := some .x86_64
  hostProvides := hostProvides

/-- A host that has `engine_start`, and one that has nothing. -/
def richEnv : Env := smallEnv (· == "engine_start")
def bareEnv : Env := smallEnv fun _ => false

theorem hostFiles_bareEnv : hostFiles bareEnv smallApk
    = [⟨.x86_64, appSymbols⟩, ⟨.x86_64, engineSymbols⟩] := by
  decide +kernel

/-- On the rich host everything `libapp.so` imports looks resolved. -/
theorem analyse_richEnv : ∃ r, analyse richEnv smallApk = .ok r ∧
    (r.verdict, r.objects.map (·.object.undefined))
      = (.candidate, [["__system_property_find", "engine_start"], []]) :=
  map_eq_ok.mp (by decide +kernel)

/-- On the bare host one symbol is missing. -/
theorem analyse_bareEnv : ∃ r, analyse bareEnv smallApk = .ok r ∧
    (r.verdict, r.unimplemented) = (.missingSymbols 1, ["engine_start"]) :=
  map_eq_ok.mp (by decide +kernel)

theorem candidate_answered_iff_richEnv : ∃ r, analyse richEnv smallApk = .ok r ∧
    ((r.verdict = .candidate →
        ∀ o ∈ r.objects, ∀ name ∈ o.object.undefined, Answered richEnv name) ↔
      ¬ (StartsAlone richEnv smallApk ∧ AllResolved richEnv smallApk ∧
        ∃ name ∈ phantoms, Imports richEnv smallApk name ∧ richEnv.hostProvides name = false)) := by
  obtain ⟨r, hr, -⟩ := analyse_richEnv
  exact ⟨r, hr, (candidate_answered_iff hr []).1⟩

/-- A Candidate with an import nothing answers, and a `shim` route for a name nothing exports. -/
theorem candidate_unanswered : ∃ r, analyse richEnv smallApk = .ok r ∧ r.verdict = .candidate ∧
    (∃ o ∈ r.objects, "__system_property_find" ∈ o.object.undefined) ∧
    ¬ Answered richEnv "__system_property_find" ∧
    ∃ res ∈ resolve richEnv.hostProvides ["__system_property_find"],
      res.route = .shim ∧ res.symbol ∉ exports := by
  obtain ⟨r, hr, hsays⟩ := analyse_richEnv
  obtain ⟨hverdict, hobjects⟩ := Prod.mk.inj hsays
  have hobject : ["__system_property_find", "engine_start"] ∈
      r.objects.map (·.object.undefined) := by
    rw [hobjects]
    exact List.mem_cons_self
  obtain ⟨o, ho, hundefined⟩ := List.mem_map.mp hobject
  refine ⟨r, hr, hverdict, ⟨o, ho, by rw [hundefined]; exact List.mem_cons_self⟩, ?_, ?_⟩
  · rintro (h | h)
    · exact absurd h (by decide)
    · exact absurd h (by decide)
  · exact ⟨_, List.mem_cons_self, by decide, by decide⟩

end Xylitol.Shim
