import Xylitol.Shim.Bundles

/-!
# An APK wrapped in a bundle

The libraries of an APK are collected by one loop when the APK is analysed by itself, and by another
when it is the member of a bundle. The keys differ by the member's name and correspond in order:

    (abi, lib/abi/name.so)  ↦  (abi, member!lib/abi/name.so)

What also differs is what an unreadable entry does: the first loop fails, the second goes on. So the
two analyses agree on every APK whose libraries can all be read (`SameDiagnosis.same`), and
`sameDiagnosis_iff` says when the bundle of another fails as well.
-/

namespace Xylitol.Shim

open Apk (ZipArchive Stored PackageInfo)

variable {env : Env} {member : String} {x b : Bytes} {zx zb : ZipArchive}

/-! ## A member that is an APK is no library -/

theorem stripPrefix_suffix {s pat rest : String} (h : Text.stripPrefix s pat = some rest) :
    rest.toList <:+ s.toList := by
  unfold Text.stripPrefix at h
  split at h
  · cases h
    rw [String.toList_ofList]
    exact List.drop_suffix _ _
  · cases h

theorem splitOnce_suffix {s before after : String} {c : Char}
    (h : Text.splitOnce s c = some (before, after)) : after.toList <:+ s.toList := by
  unfold Text.splitOnce at h
  rw [List.span_eq_takeWhile_dropWhile] at h
  cases hrest : s.toList.dropWhile (· ≠ c) with
  | nil => simp only [hrest, reduceCtorEq] at h
  | cons d rest =>
      simp only [hrest, Option.some.injEq, Prod.mk.injEq] at h
      rw [← h.2, String.toList_ofList]
      apply (List.suffix_cons d rest).trans
      rw [← hrest]
      exact List.dropWhile_suffix _

theorem splitLibPath_suffix {name : String} {lib : Abi × String}
    (h : splitLibPath name = some lib) : ".so".toList <:+ name.toList := by
  obtain ⟨rest, hrest, h⟩ := Option.bind_eq_some_iff.mp h
  obtain ⟨⟨dir, file⟩, hparts, h⟩ := Option.bind_eq_some_iff.mp h
  dsimp only at h
  split at h
  · next hso =>
      have hfile : ".so".toList <:+ file.toList := List.isSuffixOf_iff_suffix.mp hso
      exact hfile.trans ((splitOnce_suffix hparts).trans (stripPrefix_suffix hrest))
  · cases h

/-- No name ends in `.so` and, in whatever case, in `.apk`. -/
theorem libKey_of_isApkName {name : String} (h : Apk.isApkName name) : libKey name = none := by
  cases hlib : splitLibPath name with
  | none => rw [libKey, hlib]; rfl
  | some lib =>
      obtain ⟨t, ht⟩ := splitLibPath_suffix hlib
      have hlast : (name.toList.map Char.toLower).getLast? = some 'o' := by
        rw [← ht, List.map_append, List.getLast?_append]
        rfl
      obtain ⟨t', ht'⟩ := List.isSuffixOf_iff_suffix.mp h
      simp only [Text.toAsciiLowercase, String.toList_ofList] at ht'
      rw [← ht', List.getLast?_append] at hlast
      exact absurd hlast (by simp)

/-! ## The wrapped package -/

/-- `b` is a bundle whose only member is `x`, an APK with libraries of its own. -/
structure Wraps (env : Env) (member : String) (x b : Bytes) (zx : ZipArchive) : Prop where
  opens : env.apk.zip x = .ok zx
  manifest : "AndroidManifest.xml" ∈ zx.fileNames
  libraries : libNames zx ≠ []
  isApk : Apk.isApkName member
  bundle : ∃ zb, env.apk.zip b = .ok zb ∧ zb.fileNames = [member] ∧ readMember zb member = .ok x

/-- The key of a library of the member. -/
def under (member : String) (key : Abi × String) : Abi × String := (key.1, member ++ "!" ++ key.2)

theorem compare_under (member : String) (k l : Abi × String) :
    compare (under member k) (under member l) = compare k l := by
  show (compare k.1 l.1).then (compare (member ++ "!" ++ k.2) (member ++ "!" ++ l.2)) = _
  rw [compare_append]
  rfl

theorem Wraps.shipped_member (h : Wraps env member x b zx) :
    innerEntries member zx = (shipped env zx).map fun e => (under member e.1, e.2) := by
  rw [shipped, if_neg (mt List.isEmpty_iff.mp h.libraries), List.map_filterMap, innerEntries]
  congr 1
  funext key
  rw [readLibrary]
  cases readMember zx key.2 <;> rfl

/-- All of the bundle's libraries come from the member, and collecting them does not fail. -/
theorem Wraps.nativeLibraries (h : Wraps env member x b zx) :
    nativeLibraries env b
      = .ok (.ofList ((shipped env zx).map fun e => (under member e.1, e.2))) := by
  obtain ⟨zb, hzb, hnames, hmember⟩ := h.bundle
  have hnone : libNames zb = [] := by
    rw [libNames, hnames, List.filterMap_cons_none (libKey_of_isApkName h.isApk)]
    rfl
  have hapks : zb.fileNames.filter Apk.isApkName = [member] := by
    rw [hnames, List.filter_cons_of_pos h.isApk]
    rfl
  have hread : readApk zb member = .ok (member, x) := readApk_eq_ok.mpr ⟨hmember, rfl⟩
  have hentries : memberEntries env (member, x) = innerEntries member zx := by
    simp [memberEntries, h.opens]
  have hcollected : collected env zb = .ok (innerEntries member zx) := by
    rw [collected, ownEntries, hnone, bundledEntries, hapks]
    simp only [List.mapM_nil, List.mapM_cons, hread, ok_bind, pure_bind, List.isEmpty_nil, if_true,
      List.flatMap_cons, List.flatMap_nil, hentries, List.append_nil]
    rfl
  rw [nativeLibraries_eq, hzb, ← h.shipped_member]
  show (collected env zb).map _ = _
  rw [hcollected]
  rfl

/-- The manifest is read from the member either way. -/
theorem Wraps.inspect_iff (h : Wraps env member x b zx) :
    (∃ info, Apk.inspect env.apk b = .ok info) ↔ ∃ info, Apk.inspect env.apk x = .ok info := by
  obtain ⟨zb, hzb, hnames, hmember⟩ := h.bundle
  have hnot : "AndroidManifest.xml" ∉ zb.fileNames := by
    rw [hnames, List.mem_singleton]
    rintro rfl
    exact absurd h.isApk (by decide)
  have hsorted : Apk.sortedApks (zb.fileNames.filter Apk.isApkName) = [member] := by
    rw [hnames, List.filter_cons_of_pos h.isApk]
    rfl
  rw [Apk.inspect_plain_iff h.opens h.manifest, Apk.inspect_bundle hzb hnot]
  simp only [Apk.inspectBundle_eq_ok, hsorted]
  constructor
  · intro ⟨_, name, rest, bytes, inner, manifest, base, hname, hbytes, hinner, hmanifest, hbase, _⟩
    cases hname
    rw [Apk.readEntry_eq_some, hmember] at hbytes
    cases hbytes
    rw [h.opens] at hinner
    cases hinner
    exact ⟨manifest, base, hmanifest, hbase⟩
  · intro ⟨manifest, base, hmanifest, hbase⟩
    exact ⟨_, member, [], x, zx, manifest, base, rfl, Apk.readEntry_eq_some.mpr hmember, h.opens,
      hmanifest, hbase, rfl⟩

/-! ## The objects, under another name -/

/-- The object as it is reported when it is found in the member. -/
def Elf.NativeObject.under (member : String) (o : Elf.NativeObject) : Elf.NativeObject :=
  { o with path := member ++ "!" ++ o.path }

def ObjectReport.under (member : String) (o : ObjectReport) : ObjectReport :=
  { o with object := o.object.under member }

/-- The path of an object shows in the object and in errors, and nowhere else. -/
theorem Elf.dynamicEntries_path {crate : ObjectCrate} {path : String} {data : Bytes}
    {entries : Option String × List String} (h : dynamicEntries crate path data = .ok entries)
    (path' : String) : dynamicEntries crate path' data = .ok entries := by
  unfold dynamicEntries at h ⊢
  dsimp only at h ⊢
  split at h
  · cases h
  · exact mapError_eq_ok.mpr (mapError_eq_ok.mp h)
  · exact mapError_eq_ok.mpr (mapError_eq_ok.mp h)
  · cases h

theorem Elf.read_path {crate : ObjectCrate} {path : String} {data : Bytes} {object : NativeObject}
    (h : read crate path data = .ok object) (path' : String) :
    read crate path' data = .ok { object with path := path' } := by
  unfold read at h
  obtain ⟨file, hfile, h⟩ := bind_eq_ok.mp h
  obtain ⟨abi, habi, h⟩ := bind_eq_ok.mp h
  obtain ⟨entries, hentries, h⟩ := bind_eq_ok.mp h
  cases h
  unfold read
  rw [mapError_eq_ok.mpr (mapError_eq_ok.mp hfile), ok_bind,
    mapError_eq_ok.mpr (mapError_eq_ok.mp habi), ok_bind, dynamicEntries_path hentries, ok_bind]
  rfl

theorem usable_under (member : String) (entries : List ((Abi × String) × Bytes)) :
    usable env (.ofList (entries.map fun e => (under member e.1, e.2)))
      = (usable env (.ofList entries)).map fun lib => (member ++ "!" ++ lib.1, lib.2) := by
  unfold usable
  cases env.host with
  | none => rfl
  | some host =>
      dsimp only
      rw [toList_ofList_map (compare_under member), List.filter_map, List.map_map, List.map_map]
      rfl

theorem availableAbis_under (member : String) (entries : List ((Abi × String) × Bytes)) :
    availableAbis (.ofList (entries.map fun e => (under member e.1, e.2)))
      = availableAbis (.ofList entries) := by
  unfold availableAbis
  rw [← Std.ExtTreeMap.map_fst_toList_eq_keys, ← Std.ExtTreeMap.map_fst_toList_eq_keys,
    toList_ofList_map (compare_under member), List.map_map, List.map_map, List.map_map]
  rfl

theorem readAll_under {member : String} {libs : List (String × Bytes)}
    {objects : List Elf.NativeObject}
    (h : libs.mapM (fun lib => Elf.read env.object lib.1 lib.2) = .ok objects) :
    (libs.map fun lib => (member ++ "!" ++ lib.1, lib.2)).mapM
      (fun lib => Elf.read env.object lib.1 lib.2) = .ok (objects.map (·.under member)) := by
  rw [mapM_eq_ok, List.forall₂_map_left_iff, List.forall₂_map_right_iff]
  apply (mapM_eq_ok.mp h).imp
  intro lib object hobject
  rw [Elf.NativeObject.under, (Elf.read_abi hobject).1]
  exact Elf.read_path hobject _

/-! ## The tallies -/

/-- Two tallies that differ in the paths of their objects only. -/
structure Tally.Under (member : String) (t t' : Tally) : Prop where
  objects : t'.objects = t.objects.map (·.under member)
  androidLibraries : t'.androidLibraries = t.androidLibraries
  unimplemented : t'.unimplemented = t.unimplemented
  totals : t'.totals = t.totals
  entryPoints : t'.entryPoints = t.entryPoints
  jniNatives : t'.jniNatives = t.jniNatives

theorem Tally.Under.add {member : String} {t t' : Tally} (h : t.Under member t')
    (o : Elf.NativeObject) : (t.add env o).Under member (t'.add env (o.under member)) := by
  refine ⟨?_, ?_, ?_, ?_, ?_, ?_⟩
  · simp only [Tally.add, h.objects, List.map_append]
    rfl
  · simp only [Tally.add, h.androidLibraries, Elf.NativeObject.under]
  · simp only [Tally.add, h.unimplemented, Elf.NativeObject.under]
  · simp only [Tally.add, h.totals, Elf.NativeObject.under]
  · simp only [Tally.add, h.entryPoints, Elf.NativeObject.under]
  · simp only [Tally.add, h.jniNatives, Elf.NativeObject.under]

theorem Tally.Under.foldl {member : String} {t t' : Tally} (h : t.Under member t')
    (objects : List Elf.NativeObject) :
    (objects.foldl (Tally.add env) t).Under member
      ((objects.map (·.under member)).foldl (Tally.add env) t') := by
  induction objects generalizing t t' with
  | nil => exact h
  | cons o objects ih => exact ih (h.add o)

theorem decide_under (member : String) (host : Option Abi) (available : List String)
    (objects : List ObjectReport) (entryPoints : List Elf.EntryPoint) (jniNatives count : Nat) :
    decide host available (objects.map (·.under member)) entryPoints jniNatives count
      = decide host available objects entryPoints jniNatives count := by
  unfold decide
  rw [List.isEmpty_map]

/-! ## Diagnosis of an APK and of the bundle around it -/

/-- The bundle gets the diagnosis of its member, and fails where the member fails on a library. -/
structure SameDiagnosis (env : Env) (member : String) (x b : Bytes) (zx : ZipArchive) : Prop where
  same : ∀ r, analyse env x = .ok r → ∃ r', analyse env b = .ok r' ∧
    r'.objects = r.objects.map (·.under member) ∧ r'.totals = r.totals ∧
      r'.unimplemented = r.unimplemented ∧ r'.verdict = r.verdict
  fails : (∃ info, Apk.inspect env.apk x = .ok info) →
    (∃ key ∈ libNames zx, ∃ e, readMember zx key.2 = .error e) → ∃ e, analyse env b = .error e

/-- Whatever a member's analysis says, the bundle's says as well. -/
theorem Wraps.same (h : Wraps env member x b zx) {r : Report} (hr : analyse env x = .ok r) :
    ∃ r', analyse env b = .ok r' ∧ r'.objects = r.objects.map (·.under member) ∧
      r'.totals = r.totals ∧ r'.unimplemented = r.unimplemented ∧ r'.verdict = r.verdict := by
  obtain ⟨info, libraries, objects, hinfo, hlibs, hobjects, rfl⟩ := analyse_eq_ok_iff.mp hr
  obtain ⟨zip, hzip, -, rfl⟩ := nativeLibraries_eq_ok.mp hlibs
  rw [h.opens] at hzip
  cases hzip
  obtain ⟨info', hinfo'⟩ := h.inspect_iff.mpr ⟨info, hinfo⟩
  have hobjects' : readAll env (.ofList ((shipped env zx).map fun e => (under member e.1, e.2)))
      = .ok (objects.map (·.under member)) := by
    rw [readAll, usable_under]
    exact readAll_under hobjects
  have hzero : Tally.Under member .zero .zero := ⟨rfl, rfl, rfl, rfl, rfl, rfl⟩
  have htally : (objects.foldl (Tally.add env) .zero).Under member
      ((objects.map (·.under member)).foldl (Tally.add env) .zero) := hzero.foldl objects
  refine ⟨_, analyse_eq_ok_iff.mpr ⟨info', _, _, hinfo', h.nativeLibraries, hobjects', rfl⟩,
    htally.objects, htally.totals, ?_, ?_⟩
  · show Std.ExtTreeSet.toList _ = _
    rw [htally.unimplemented]
    rfl
  · show decide _ _ _ _ _ _ = decide _ _ _ _ _ _
    rw [availableAbis_under, htally.objects, htally.entryPoints, htally.jniNatives,
      htally.unimplemented, decide_under]

/-- What an APK with libraries of its own keeps under a key is what it stores there. -/
theorem lastUnder_shipped {zip : ZipArchive} (hsome : libNames zip ≠ []) {key : Abi × String}
    {bytes : Bytes} : lastUnder key (shipped env zip) = some bytes ↔
      key ∈ libNames zip ∧ readMember zip key.2 = .ok bytes := by
  have hships : ∀ bytes, Ships env zip key bytes ↔
      key ∈ libNames zip ∧ readMember zip key.2 = .ok bytes := by
    intro bytes
    rw [ships_iff]
    exact or_iff_left fun h => hsome h.1
  constructor
  · intro h
    exact (hships bytes).mp (mem_shipped.mp (mem_of_lastUnder h))
  · intro ⟨hkey, hread⟩
    apply lastUnder_of_agree (mem_shipped.mpr ((hships bytes).mpr ⟨hkey, hread⟩))
    intro bytes' h'
    obtain ⟨-, hread'⟩ := (hships bytes').mp (mem_shipped.mp h')
    rw [hread] at hread'
    exact (Except.ok.inj hread').symm

/-- The bundle is analysed exactly when each of the host's libraries that can be read is an object.
The others do not count. -/
theorem Wraps.analyse_iff (h : Wraps env member x b zx)
    (hinfo : ∃ info, Apk.inspect env.apk x = .ok info) :
    (∃ r, analyse env b = .ok r) ↔ ∀ key ∈ libNames zx, env.host = some key.1 →
      ∀ bytes, readMember zx key.2 = .ok bytes →
        ∃ object, Elf.read env.object key.2 bytes = .ok object := by
  have hkeys : ∀ path bytes, (path, bytes) ∈ usable env (.ofList (shipped env zx)) ↔
      ∃ host, env.host = some host ∧ (host, path) ∈ libNames zx ∧
        readMember zx path = .ok bytes := by
    intro path bytes
    rw [mem_usable]
    simp only [getElem?_ofList, lastUnder_shipped h.libraries]
  constructor
  · rintro ⟨r, hr⟩ key hkey hhost bytes hbytes
    obtain ⟨_, libraries, objects, -, hlibs, hobjects, -⟩ := analyse_eq_ok_iff.mp hr
    rw [h.nativeLibraries] at hlibs
    cases hlibs
    rw [readAll, usable_under] at hobjects
    have hlib : (member ++ "!" ++ key.2, bytes) ∈ (usable env (.ofList (shipped env zx))).map
        fun lib => (member ++ "!" ++ lib.1, lib.2) :=
      List.mem_map.mpr ⟨(key.2, bytes), (hkeys _ _).mpr ⟨key.1, hhost, hkey, hbytes⟩, rfl⟩
    obtain ⟨object, hobject⟩ := exists_mapM_eq_ok.mp ⟨objects, hobjects⟩ _ hlib
    exact ⟨_, Elf.read_path hobject key.2⟩
  · intro hall
    obtain ⟨info', hinfo'⟩ := h.inspect_iff.mpr hinfo
    have hread : ∃ objects, (usable env (.ofList (shipped env zx))).mapM
        (fun lib => Elf.read env.object lib.1 lib.2) = .ok objects := by
      apply exists_mapM_eq_ok.mpr
      rintro ⟨path, bytes⟩ hlib
      obtain ⟨host, hhost, hkey, hbytes⟩ := (hkeys _ _).mp hlib
      exact hall (host, path) hkey hhost bytes hbytes
    obtain ⟨objects, hobjects⟩ := hread
    have hobjects' : readAll env (.ofList ((shipped env zx).map fun e => (under member e.1, e.2)))
        = .ok (objects.map (·.under member)) := by
      rw [readAll, usable_under]
      exact readAll_under hobjects
    exact ⟨_, analyse_eq_ok_iff.mpr ⟨info', _, _, hinfo', h.nativeLibraries, hobjects', rfl⟩⟩

/-- Wrapping an APK changes no diagnosis exactly when an unreadable library never goes unnoticed:
the APK has none, or its manifest is broken, or some other library for the host is no object. -/
theorem sameDiagnosis_iff (h : Wraps env member x b zx) :
    SameDiagnosis env member x b zx ↔
      ((∃ info, Apk.inspect env.apk x = .ok info) →
        (∃ key ∈ libNames zx, ∃ e, readMember zx key.2 = .error e) →
          ∃ key ∈ libNames zx, env.host = some key.1 ∧ ∃ bytes, readMember zx key.2 = .ok bytes ∧
            ∃ e, Elf.read env.object key.2 bytes = .error e) := by
  constructor
  · intro hsame hinfo hbroken
    obtain ⟨e, herror⟩ := hsame.fails hinfo hbroken
    by_contra hnone
    have hok : ∃ r, analyse env b = .ok r := by
      apply (h.analyse_iff hinfo).mpr
      intro key hkey hhost bytes hbytes
      cases hread : Elf.read env.object key.2 bytes with
      | ok object => exact ⟨object, rfl⟩
      | error e => exact absurd ⟨key, hkey, hhost, bytes, hbytes, e, hread⟩ hnone
    obtain ⟨r, hr⟩ := hok
    rw [hr] at herror
    cases herror
  · intro hnotice
    refine ⟨fun r hr => h.same hr, ?_⟩
    intro hinfo hbroken
    obtain ⟨key, hkey, hhost, bytes, hbytes, e, hread⟩ := hnotice hinfo hbroken
    cases hr : analyse env b with
    | error e => exact ⟨e, rfl⟩
    | ok r =>
        obtain ⟨object, hobject⟩ := (h.analyse_iff hinfo).mp ⟨r, hr⟩ key hkey hhost bytes hbytes
        rw [hread] at hobject
        cases hobject

/-! ## A bundle around a damaged APK

An APK with two libraries for x86-64. The second, which imports a symbol nothing has, is stored with
a wrong checksum, so it cannot be read to its end. -/

/-- The archive, one of whose members has a checksum that is wrong. -/
def damage (zip : ZipArchive) (damaged : String) : ZipArchive where
  fileNames := zip.fileNames
  byName name := (zip.byName name).map fun f =>
    if name = damaged then { f with content := .error "Invalid checksum" } else f
  nodup := zip.nodup
  notFound name := by
    rw [← zip.notFound]
    cases zip.byName name <;> simp [Except.map]

def needySymbols : List Elf.DynamicSymbol := [⟨some "vendor_decode", true⟩]

def brokenMembers : List Stored :=
  [⟨"AndroidManifest.xml", 0x66ea8750, Apk.Axml.smallDocument.bytes⟩,
    ⟨"lib/x86_64/libapp.so", 0xc374af2d, elfBytes loneSymbols⟩,
    ⟨"lib/x86_64/libvendor.so", 0x4cf84b18, elfBytes needySymbols⟩]

def brokenApk : Bytes := Stored.zip brokenMembers

def brokenZip : ZipArchive :=
  damage (Stored.archive brokenMembers (by decide)) "lib/x86_64/libvendor.so"

def wrapperMembers : List Stored := [⟨"base.apk", 0x31e59058, brokenApk⟩]

def wrapperBundle : Bytes := Stored.zip wrapperMembers

def wrapperEnv : Env :=
  knownEnv [(brokenApk, brokenZip), (wrapperBundle, Stored.archive wrapperMembers (by decide))]
    [(brokenApk,
      [0x25, 0x59, 0x4e, 0x25, 0xc2, 0x16, 0xb7, 0x97, 0x60, 0x6e, 0x5e, 0xf9, 0x5d, 0x94,
        0x72, 0x94, 0x1b, 0x4a, 0x6e, 0xe1, 0x5a, 0x15, 0xef, 0x2a, 0x2c, 0x71, 0x5b, 0xf9,
        0x85, 0x56, 0x70, 0xa7]),
     (wrapperBundle,
      [0x5b, 0xd6, 0xbb, 0x71, 0x25, 0x0d, 0xa9, 0x29, 0xcd, 0x03, 0x99, 0x0e, 0x80, 0x90,
        0x45, 0xdb, 0x76, 0x96, 0x53, 0x88, 0x52, 0xf3, 0x4e, 0xd2, 0xda, 0xb7, 0x38, 0xb8,
        0xb1, 0x43, 0x1b, 0x77])]
    [(elfBytes loneSymbols, ⟨.x86_64, loneSymbols⟩), (elfBytes needySymbols, ⟨.x86_64, needySymbols⟩)]

theorem wraps_wrapperEnv : Wraps wrapperEnv "base.apk" brokenApk wrapperBundle brokenZip where
  opens := by rw [wrapperEnv, zip_knownEnv, Apk.Env.zip_known_head]
  manifest := by simp [brokenZip, damage, Stored.archive, brokenMembers]
  libraries := by decide
  isApk := by decide
  bundle := by
    refine ⟨Stored.archive wrapperMembers (by decide), ?_, rfl, rfl⟩
    rw [wrapperEnv, zip_knownEnv, Apk.Env.zip_known_tail (by decide), Apk.Env.zip_known_head]

theorem analyse_wrapperEnv : ∃ r, analyse wrapperEnv wrapperBundle = .ok r ∧
    r.verdict = .candidate :=
  map_eq_ok.mp (by decide +kernel)

theorem analyse_brokenApk :
    analyse wrapperEnv brokenApk = .error (.apk "Invalid checksum") := by
  decide +kernel

theorem sameDiagnosis_iff_wrapperEnv :
    SameDiagnosis wrapperEnv "base.apk" brokenApk wrapperBundle brokenZip ↔
      ((∃ info, Apk.inspect wrapperEnv.apk brokenApk = .ok info) →
        (∃ key ∈ libNames brokenZip, ∃ e, readMember brokenZip key.2 = .error e) →
          ∃ key ∈ libNames brokenZip, wrapperEnv.host = some key.1 ∧
            ∃ bytes, readMember brokenZip key.2 = .ok bytes ∧
              ∃ e, Elf.read wrapperEnv.object key.2 bytes = .error e) :=
  sameDiagnosis_iff wraps_wrapperEnv

/-- The APK cannot be analysed, and the bundle around it is a Candidate. -/
theorem wrapped_damage_unnoticed :
    analyse wrapperEnv brokenApk = .error (.apk "Invalid checksum") ∧
    (∃ r, analyse wrapperEnv wrapperBundle = .ok r ∧ r.verdict = .candidate) ∧
    ¬ SameDiagnosis wrapperEnv "base.apk" brokenApk wrapperBundle brokenZip := by
  refine ⟨analyse_brokenApk, analyse_wrapperEnv, ?_⟩
  intro hsame
  obtain ⟨info, hinfo, -⟩ :=
    Apk.Modules.inspect_smallDocument ⟨rfl, rfl⟩ wraps_wrapperEnv.opens rfl
  have hbroken : readMember brokenZip "lib/x86_64/libvendor.so"
      = .error (.apk "Invalid checksum") := by decide
  have hmem : (Abi.x86_64, "lib/x86_64/libvendor.so") ∈ libNames brokenZip := by decide
  obtain ⟨e, herror⟩ := hsame.fails ⟨info, hinfo⟩ ⟨_, hmem, _, hbroken⟩
  obtain ⟨r, hr, -⟩ := analyse_wrapperEnv
  rw [hr] at herror
  cases herror

end Xylitol.Shim
