import Xylitol.Entries
import Xylitol.Shim.Report

/-!
# Which libraries are collected

`nativeLibraries` fills its map in two loops with different manners. Here the map is described by
the list of what is inserted, in order:

    ownEntries        the package's own libraries; one that cannot be read is an error
    bundledEntries    those of the APKs inside it; what cannot be read is left out

and `nativeLibraries_eq` says that the map is the one filled from the first list, or from the second
where the first is empty. `Contained` names the archives the second loop looks into.
-/

namespace Xylitol.Shim

open Apk (ZipArchive)

/-! ## The entries of one archive -/

/-- The key of a library: the ABI of its directory and its name. -/
def libKey (name : String) : Option (Abi × String) :=
  (splitLibPath name).map fun lib => (lib.1, name)

/-- The `lib/<abi>/*.so` of an archive. -/
def libNames (zip : ZipArchive) : List (Abi × String) := zip.fileNames.filterMap libKey

def readLibrary (zip : ZipArchive) (key : Abi × String) :
    Except Error ((Abi × String) × Bytes) := do
  return (key, ← readMember zip key.2)

/-- The libraries of a package, all of them read. -/
def ownEntries (zip : ZipArchive) : Except Error (List ((Abi × String) × Bytes)) :=
  (libNames zip).mapM (readLibrary zip)

/-- The libraries of one APK inside a bundle that can be read. -/
def innerEntries (name : String) (inner : ZipArchive) : List ((Abi × String) × Bytes) :=
  (libNames inner).filterMap fun key =>
    (readMember inner key.2).toOption.map ((key.1, name ++ "!" ++ key.2), ·)

/-- The libraries of a member, if it is an archive. -/
def memberEntries (env : Env) (member : String × Bytes) : List ((Abi × String) × Bytes) :=
  match env.apk.zip member.2 with
  | .ok inner => innerEntries member.1 inner
  | .error _ => []

def readApk (zip : ZipArchive) (name : String) : Except Error (String × Bytes) := do
  return (name, ← readMember zip name)

/-- The libraries of the APKs inside a bundle. -/
def bundledEntries (env : Env) (zip : ZipArchive) :
    Except Error (List ((Abi × String) × Bytes)) := do
  let members ← (zip.fileNames.filter Apk.isApkName).mapM (readApk zip)
  return members.flatMap (memberEntries env)

/-- What is collected of an archive. -/
def collected (env : Env) (zip : ZipArchive) : Except Error (List ((Abi × String) × Bytes)) := do
  let own ← ownEntries zip
  if own.isEmpty then bundledEntries env zip else return own

/-- What an archive ships for the ABIs there are, with what it holds, as far as it can be read: its
own libraries, or where it has none, those of the APKs inside it. -/
def shipped (env : Env) (zip : ZipArchive) : List ((Abi × String) × Bytes) :=
  if (libNames zip).isEmpty then
    ((zip.fileNames.filter Apk.isApkName).filterMap fun name =>
      (readApk zip name).toOption).flatMap (memberEntries env)
  else (libNames zip).filterMap fun key => (readLibrary zip key).toOption

/-! ## The map is filled from them -/

variable {env : Env} {zip : ZipArchive}

def fill (out : Libraries) (entries : List ((Abi × String) × Bytes)) : Libraries :=
  entries.foldl (fun out e => out.insert e.1 e.2) out

theorem fill_empty (entries : List ((Abi × String) × Bytes)) :
    fill ∅ entries = Std.ExtTreeMap.ofList entries :=
  Std.ExtTreeMap.ofList_eq_foldl.symm

theorem isEmpty_fill (entries : List ((Abi × String) × Bytes)) :
    (fill ∅ entries).isEmpty = entries.isEmpty := by
  rw [fill_empty, Bool.eq_iff_iff, Std.ExtTreeMap.isEmpty_iff,
    Std.ExtTreeMap.ofList_eq_empty_iff, List.isEmpty_iff]

theorem fill_append (out : Libraries) (es fs : List ((Abi × String) × Bytes)) :
    fill out (es ++ fs) = fill (fill out es) fs :=
  List.foldl_append

theorem ownLibraries_eq (zip : ZipArchive) (names : List String) (out : Libraries) :
    ownLibraries zip names out =
      ((names.filterMap libKey).mapM (readLibrary zip)).map (fill out) := by
  induction names generalizing out with
  | nil => rfl
  | cons name names ih =>
      rw [ownLibraries, List.filterMap_cons, libKey]
      cases splitLibPath name with
      | none => exact ih out
      | some lib =>
          dsimp only [Option.map_some]
          rw [map_mapM_cons, readLibrary]
          cases readMember zip name with
          | error e => rfl
          | ok data => exact ih _

theorem innerLibraries_eq (name : String) (inner : ZipArchive) (out : Libraries) :
    innerLibraries name inner out = fill out (innerEntries name inner) := by
  unfold innerLibraries innerEntries libNames libKey
  generalize inner.fileNames = names
  induction names generalizing out with
  | nil => rfl
  | cons n names ih =>
      rw [List.foldl_cons, ih, List.filterMap_cons]
      cases splitLibPath n with
      | none => rfl
      | some lib =>
          dsimp only [Option.map_some]
          rw [List.filterMap_cons, readMember]
          cases inner.byName n with
          | error e => rfl
          | ok f =>
              dsimp only
              cases f.content with
              | error reason => rfl
              | ok data => rfl

theorem bundledLibraries_eq (env : Env) (zip : ZipArchive) (names : List String)
    (out : Libraries) :
    bundledLibraries env zip names out =
      ((names.filter Apk.isApkName).mapM (readApk zip)).map
        fun members => fill out (members.flatMap (memberEntries env)) := by
  induction names generalizing out with
  | nil => rfl
  | cons name names ih =>
      rw [bundledLibraries, List.filter_cons]
      by_cases hname : Apk.isApkName name
      · rw [if_pos hname, if_pos hname, map_mapM_cons, readApk]
        cases readMember zip name with
        | error e => rfl
        | ok bytes =>
            simp only [ok_bind, pure_bind, List.flatMap_cons, fill_append]
            cases hinner : env.apk.zip bytes with
            | error e =>
                have hnone : memberEntries env (name, bytes) = [] := by
                  simp [memberEntries, hinner]
                rw [hnone]
                exact ih out
            | ok inner =>
                have hsome : memberEntries env (name, bytes) = innerEntries name inner := by
                  simp [memberEntries, hinner]
                rw [hsome, ← innerLibraries_eq]
                exact ih _
      · rw [if_neg hname, if_neg hname, ih]

/-- The map is filled from the entries that are collected. -/
theorem nativeLibraries_eq (env : Env) (data : Bytes) :
    nativeLibraries env data =
      (env.apk.zip data).mapError (fun e => .apk e.toString) >>= fun zip =>
        (collected env zip).map fun entries => Std.ExtTreeMap.ofList entries := by
  unfold nativeLibraries collected ownEntries bundledEntries
  cases env.apk.zip data with
  | error e => rfl
  | ok zip =>
      dsimp only [Except.mapError, ok_bind]
      rw [ownLibraries_eq]
      show (((libNames zip).mapM (readLibrary zip)).map (fill ∅) >>= _) = _
      cases (libNames zip).mapM (readLibrary zip) with
      | error e => rfl
      | ok own =>
          -- the second loop is entered exactly when the first one has inserted nothing
          show (if (fill ∅ own).isEmpty then _ else _) = _
          rw [isEmpty_fill, ok_bind]
          cases own with
          | nil =>
              simp only [List.isEmpty_nil, if_true, bundledLibraries_eq]
              cases (zip.fileNames.filter Apk.isApkName).mapM (readApk zip) with
              | error e => rfl
              | ok members => exact congrArg Except.ok (fill_empty _)
          | cons e own => exact congrArg Except.ok (fill_empty _)

/-! ## The entries, said of the archive -/

/-- `inner` is a readable APK inside the archive, under `name`. -/
structure Contained (env : Env) (zip : ZipArchive) (name : String) (inner : ZipArchive) : Prop where
  mem : name ∈ zip.fileNames
  isApk : Apk.isApkName name
  opens : ∃ bytes, readMember zip name = .ok bytes ∧ env.apk.zip bytes = .ok inner

/-- The libraries of an archive for the ABIs there are: its own, or where it has none, those that
can be read of the readable APKs inside it. -/
inductive Ships (env : Env) (zip : ZipArchive) : Abi × String → Bytes → Prop where
  | own {key : Abi × String} {data : Bytes} (hkey : key ∈ libNames zip)
      (hdata : readMember zip key.2 = .ok data) : Ships env zip key data
  | inner {name : String} {inner : ZipArchive} {key : Abi × String} {data : Bytes}
      (hnone : libNames zip = []) (hinner : Contained env zip name inner)
      (hkey : key ∈ libNames inner) (hdata : readMember inner key.2 = .ok data) :
      Ships env zip (key.1, name ++ "!" ++ key.2) data

theorem mem_libNames {key : Abi × String} :
    key ∈ libNames zip ↔
      key.2 ∈ zip.fileNames ∧ ∃ file, splitLibPath key.2 = some (key.1, file) := by
  rw [libNames, List.mem_filterMap]
  constructor
  · intro ⟨name, hname, hkey⟩
    obtain ⟨lib, hlib, rfl⟩ := Option.map_eq_some_iff.mp hkey
    exact ⟨hname, lib.2, hlib⟩
  · intro ⟨hname, file, hfile⟩
    exact ⟨key.2, hname, by rw [libKey, hfile]; rfl⟩

theorem readLibrary_eq_ok {key : Abi × String} {e : (Abi × String) × Bytes} :
    readLibrary zip key = .ok e ↔ readMember zip key.2 = .ok e.2 ∧ e.1 = key := by
  rw [readLibrary]
  cases readMember zip key.2 with
  | error e => simp
  | ok data => simp [pure, Except.pure, Prod.ext_iff, eq_comm, and_comm]

theorem readApk_eq_ok {name : String} {member : String × Bytes} :
    readApk zip name = .ok member ↔ readMember zip name = .ok member.2 ∧ member.1 = name := by
  rw [readApk]
  cases readMember zip name with
  | error e => simp
  | ok data => simp [pure, Except.pure, Prod.ext_iff, eq_comm, and_comm]

theorem mem_innerEntries {name : String} {inner : ZipArchive} {key : Abi × String} {data : Bytes} :
    (key, data) ∈ innerEntries name inner ↔
      ∃ k ∈ libNames inner, readMember inner k.2 = .ok data ∧ key = (k.1, name ++ "!" ++ k.2) := by
  rw [innerEntries, List.mem_filterMap]
  apply exists_congr
  intro k
  cases readMember inner k.2 with
  | error e => simp [Except.toOption]
  | ok d => simp [Except.toOption, and_comm, eq_comm]

theorem mem_memberEntries {member : String × Bytes} {e : (Abi × String) × Bytes} :
    e ∈ memberEntries env member ↔
      ∃ inner, env.apk.zip member.2 = .ok inner ∧ e ∈ innerEntries member.1 inner := by
  unfold memberEntries
  cases env.apk.zip member.2 with
  | error e => simp
  | ok inner => simp

theorem mem_shipped {e : (Abi × String) × Bytes} : e ∈ shipped env zip ↔ Ships env zip e.1 e.2 := by
  unfold shipped
  by_cases hnone : libNames zip = []
  · rw [if_pos (List.isEmpty_iff.mpr hnone), List.mem_flatMap]
    constructor
    · intro ⟨member, hmember, he⟩
      obtain ⟨name, hname, hread⟩ := List.mem_filterMap.mp hmember
      obtain ⟨hmem, hapk⟩ := List.mem_filter.mp hname
      obtain ⟨hbytes, rfl⟩ := readApk_eq_ok.mp (toOption_eq_some.mp hread)
      obtain ⟨inner, hinner, he⟩ := mem_memberEntries.mp he
      obtain ⟨k, hk, hdata, hkey⟩ := mem_innerEntries.mp he
      rw [hkey]
      exact .inner hnone ⟨hmem, hapk, member.2, hbytes, hinner⟩ hk hdata
    · intro hships
      obtain ⟨key, data⟩ := e
      cases hships with
      | own hkey hdata =>
          rw [hnone] at hkey
          cases hkey
      | @inner name inner k _ _ hin hkey hdata =>
          obtain ⟨bytes, hbytes, hinner⟩ := hin.opens
          refine ⟨(name, bytes), ?_, ?_⟩
          · apply List.mem_filterMap.mpr
            refine ⟨name, List.mem_filter.mpr ⟨hin.mem, hin.isApk⟩, ?_⟩
            exact toOption_eq_some.mpr (readApk_eq_ok.mpr ⟨hbytes, rfl⟩)
          · exact mem_memberEntries.mpr ⟨inner, hinner, mem_innerEntries.mpr ⟨k, hkey, hdata, rfl⟩⟩
  · rw [if_neg (mt List.isEmpty_iff.mp hnone), List.mem_filterMap]
    constructor
    · intro ⟨key, hkey, hread⟩
      obtain ⟨hdata, rfl⟩ := readLibrary_eq_ok.mp (toOption_eq_some.mp hread)
      exact .own hkey hdata
    · intro hships
      obtain ⟨key, data⟩ := e
      cases hships with
      | own hkey hdata =>
          exact ⟨key, hkey, toOption_eq_some.mpr (readLibrary_eq_ok.mpr ⟨hdata, rfl⟩)⟩
      | inner hnone' _ _ _ => exact absurd hnone' hnone

/-! ## What is collected is what is shipped -/

theorem ownEntries_isEmpty {own : List ((Abi × String) × Bytes)} (h : ownEntries zip = .ok own) :
    own.isEmpty = (libNames zip).isEmpty := by
  have hlen := (mapM_eq_ok.mp h).length_eq
  rw [Bool.eq_iff_iff, List.isEmpty_iff, List.isEmpty_iff, ← List.length_eq_zero_iff,
    ← List.length_eq_zero_iff, hlen]

theorem collected_eq_ok {es : List ((Abi × String) × Bytes)} (h : collected env zip = .ok es) :
    es = shipped env zip := by
  obtain ⟨own, hown, h⟩ := bind_eq_ok.mp h
  rw [ownEntries_isEmpty hown] at h
  rw [shipped]
  split at h
  · next hnone =>
      obtain ⟨members, hmembers, hes⟩ := bind_eq_ok.mp h
      cases hes
      rw [if_pos hnone, filterMap_of_mapM_eq_ok hmembers]
  · next hsome =>
      cases h
      rw [if_neg hsome]
      exact (filterMap_of_mapM_eq_ok hown).symm

theorem nativeLibraries_eq_ok {data : Bytes} {libraries : Libraries} :
    nativeLibraries env data = .ok libraries ↔
      ∃ zip, env.apk.zip data = .ok zip ∧ (∃ es, collected env zip = .ok es) ∧
        libraries = Std.ExtTreeMap.ofList (shipped env zip) := by
  rw [nativeLibraries_eq, bind_eq_ok]
  apply exists_congr
  intro zip
  rw [mapError_eq_ok, map_eq_ok]
  constructor
  · intro ⟨hzip, es, hes, hlibs⟩
    rw [← collected_eq_ok hes, hlibs]
    exact ⟨hzip, ⟨es, hes⟩, rfl⟩
  · intro ⟨hzip, ⟨es, hes⟩, hlibs⟩
    rw [collected_eq_ok hes] at hes
    exact ⟨hzip, _, hes, hlibs.symm⟩

/-! ## Reading the map -/

/-- What the map holds under a key is what was shipped there last. -/
theorem getElem?_nativeLibraries {data : Bytes} {libraries : Libraries}
    (h : nativeLibraries env data = .ok libraries) (hzip : env.apk.zip data = .ok zip)
    (key : Abi × String) : libraries[key]? = lastUnder key (shipped env zip) := by
  obtain ⟨zip', hzip', -, rfl⟩ := nativeLibraries_eq_ok.mp h
  rw [hzip] at hzip'
  cases hzip'
  exact getElem?_ofList _ _

theorem mem_usable {libraries : Libraries} {path : String} {data : Bytes} :
    (path, data) ∈ usable env libraries ↔
      ∃ host, env.host = some host ∧ libraries[(host, path)]? = some data := by
  unfold usable
  cases env.host with
  | none => simp
  | some host =>
      simp only [List.mem_map, List.mem_filter, beq_iff_eq, Option.some.injEq, exists_eq_left']
      constructor
      · intro ⟨⟨⟨abi, name⟩, bytes⟩, ⟨hmem, habi⟩, hpair⟩
        cases hpair
        cases habi
        exact Std.ExtTreeMap.mem_toList_iff_getElem?_eq_some.mp hmem
      · intro hget
        exact ⟨((host, path), data),
          ⟨Std.ExtTreeMap.mem_toList_iff_getElem?_eq_some.mpr hget, rfl⟩, rfl⟩

theorem mem_availableAbis {libraries : Libraries} {dir : String} :
    dir ∈ availableAbis libraries ↔ ∃ key ∈ libraries, key.1.asStr = dir := by
  rw [availableAbis, Std.ExtTreeSet.mem_toList, Std.ExtTreeSet.mem_ofList, List.contains_iff_mem,
    List.mem_map]
  apply exists_congr
  intro key
  rw [Std.ExtTreeMap.mem_keys]

/-- The ABIs that are listed are those of the libraries that are shipped. -/
theorem mem_availableAbis_shipped {data : Bytes} {libraries : Libraries}
    (h : nativeLibraries env data = .ok libraries) (hzip : env.apk.zip data = .ok zip)
    {dir : String} : dir ∈ availableAbis libraries ↔
      ∃ key data, Ships env zip key data ∧ key.1.asStr = dir := by
  rw [mem_availableAbis]
  apply exists_congr
  intro key
  rw [Std.ExtTreeMap.mem_iff_isSome_getElem?, getElem?_nativeLibraries h hzip,
    Option.isSome_iff_exists]
  constructor
  · intro ⟨⟨data, hlast⟩, hdir⟩
    exact ⟨data, mem_shipped.mp (mem_of_lastUnder hlast), hdir⟩
  · intro ⟨data, hships, hdir⟩
    exact ⟨exists_lastUnder (mem_shipped.mpr hships), hdir⟩

end Xylitol.Shim
