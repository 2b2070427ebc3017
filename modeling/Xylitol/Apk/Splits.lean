import Xylitol.Apk.Base
import Xylitol.Shim.Abi

/-!
# The ABIs of a bundle and of a plain APK

A plain APK has its ABIs as directories under `lib/`, a bundle has them as splits, one a member:

    lib/arm64-v8a/libfoo.so        config.arm64_v8a.apk

`inspect` reads both into one field. `abis_eq_iff` says for which sets of ABIs and for which other
members the two come out the same.
-/

namespace Xylitol.Apk

open Shim (Abi)

section

variable {env : Env} {data : Bytes} {info : PackageInfo} {zip : ZipArchive}

/-! ### Directories -/

/-- `name` is in the directory `lib/dir/`. -/
def LibDir (name dir : String) : Prop := '/' ∉ dir.toList ∧ ∃ rest, name = "lib/" ++ dir ++ "/" ++ rest

theorem libDir_eq_some {name dir : String} : libDir name = some dir ↔ LibDir name dir := by
  simp only [libDir, Option.bind_eq_bind, Option.bind_eq_some_iff, Text.stripPrefix_eq_some,
    Prod.exists, Text.splitOnce_eq_some, pure, Option.some.injEq]
  constructor
  · rintro ⟨tail, rfl, dir', rest, ⟨htail, hdir⟩, rfl⟩
    refine ⟨hdir, rest, ?_⟩
    rw [← String.toList_inj, String.toList_append, htail]
    simp
  · rintro ⟨hdir, rest, rfl⟩
    exact ⟨dir ++ "/" ++ rest, by simp only [String.append_assoc], dir, rest,
      ⟨by simp, hdir⟩, rfl⟩

theorem mem_abisIn {dir : String} : dir ∈ abisIn zip ↔ ∃ name ∈ zip.fileNames, LibDir name dir := by
  rw [abisIn, Std.ExtTreeSet.mem_toList, Std.ExtTreeSet.mem_ofList, List.contains_iff_mem,
    List.mem_filterMap]
  simp only [libDir_eq_some]

/-! ### What `inspect` reports -/

/-- What a member of a bundle adds to its ABIs. -/
def reported (name : String) : Option String := if isApkName name then abiOfSplit name else none

theorem abis_bundle (h : inspect env data = .ok info) (hzip : env.zip data = .ok zip)
    (hnone : "AndroidManifest.xml" ∉ zip.fileNames) :
    info.abis = zip.fileNames.filterMap reported := by
  obtain ⟨base, info, -, -, rfl⟩ := (inspect_bundle_eq_ok hzip hnone).mp h
  show (zip.fileNames.filter isApkName).filterMap abiOfSplit = _
  rw [List.filterMap_filter]
  rfl

theorem abis_plain (h : inspect env data = .ok info) (hzip : env.zip data = .ok zip)
    (hsome : "AndroidManifest.xml" ∈ zip.fileNames) : info.abis = abisIn zip := by
  obtain ⟨manifest, base, -, -, rfl⟩ := (inspect_plain hzip hsome).mp h
  rfl

end

/-! ### Two packages of one app -/

/-- The member that holds the native code for `abi`. -/
def splitName (abi : Abi) : String := "config." ++ Text.replaceChar abi.asStr '-' '_' ++ ".apk"

/-- A bundle: the base, one split for each of `abis`, and other members, in any order. -/
structure BundleOf (abis : List Abi) (package : String) (others : List String)
    (zip : ZipArchive) : Prop where
  noManifest : "AndroidManifest.xml" ∉ zip.fileNames
  names : zip.fileNames.Perm ((package ++ ".apk") :: others ++ abis.map splitName)

/-- A plain APK with one directory under `lib/` for each of `abis`. -/
structure PlainOf (abis : List Abi) (zip : ZipArchive) : Prop where
  manifest : "AndroidManifest.xml" ∈ zip.fileNames
  dirs : ∀ dir, (∃ name ∈ zip.fileNames, LibDir name dir) ↔ ∃ abi ∈ abis, abi.asStr = dir

/-- The names of the members come out as the directories would: no ABI has an underscore of its own,
the splits stand in alphabetical order, and no other APK looks like one. -/
structure Alike (abis : List Abi) (package : String) (others : List String)
    (zip : ZipArchive) : Prop where
  dashed : .x86_64 ∉ abis
  ordered : zip.fileNames.Pairwise fun m n =>
    ∀ a b, splitName a = m → splitName b = n → Abi.asStr a < Abi.asStr b
  others : ∀ name ∈ (package ++ ".apk") :: others, isApkName name → abiOfSplit name = none

/-- The name of an ABI as a bundle spells it. -/
def dashedName (abi : Abi) : String := Text.replaceChar abi.asStr '_' '-'

theorem reported_splitName (abi : Abi) : reported (splitName abi) = some (dashedName abi) := by
  cases abi <;> decide

theorem dashedName_eq_asStr {a b : Abi} : dashedName a = b.asStr ↔ a = b ∧ a ≠ .x86_64 := by
  cases a <;> cases b <;> decide

theorem dashedName_lt {a b : Abi} : dashedName a < dashedName b ↔ a.asStr < b.asStr := by
  cases a <;> cases b <;> decide

theorem asStr_injective : Function.Injective Abi.asStr := fun a b h =>
  Option.some.inj ((Abi.parse_asStr a).symm.trans (h ▸ Abi.parse_asStr b))

theorem filterMap_splitName (abis : List Abi) :
    (abis.map splitName).filterMap reported = abis.map dashedName := by
  induction abis with
  | nil => rfl
  | cons abi abis ih =>
    rw [List.map_cons, List.filterMap_cons_some (reported_splitName abi), ih, List.map_cons]

section

variable {abis : List Abi} {package : String} {others : List String} {zip plain : ZipArchive}

theorem BundleOf.nodup (h : BundleOf abis package others zip) : abis.Nodup := by
  have hnames := h.names.nodup_iff.mp zip.nodup
  exact (List.nodup_append.mp hnames).2.1.of_map _

/-- The bundle reports what its other members look like and then its ABIs, in some order. -/
theorem BundleOf.perm (h : BundleOf abis package others zip) :
    (zip.fileNames.filterMap reported).Perm
      (((package ++ ".apk") :: others).filterMap reported ++ abis.map dashedName) := by
  have hperm := h.names.filterMap reported
  rwa [List.filterMap_append, filterMap_splitName] at hperm

theorem PlainOf.perm (h : PlainOf abis plain) (hnodup : abis.Nodup) :
    (abisIn plain).Perm (abis.map Abi.asStr) := by
  have hsorted : (abisIn plain).Nodup := nodup_toList _
  rw [List.perm_ext_iff_of_nodup hsorted (hnodup.map asStr_injective)]
  intro dir
  rw [mem_abisIn, h.dirs, List.mem_map]

theorem plainOf_of_abisIn (hmanifest : "AndroidManifest.xml" ∈ plain.fileNames)
    (h : abisIn plain = abis.map Abi.asStr) : PlainOf abis plain where
  manifest := hmanifest
  dirs dir := by rw [← mem_abisIn, h, List.mem_map]

/-- Where nothing else looks like an ABI, only splits are reported. -/
theorem BundleOf.reported_eq_some (h : BundleOf abis package others zip)
    (hothers : ∀ name ∈ (package ++ ".apk") :: others, reported name = none)
    {name s : String} (hmem : name ∈ zip.fileNames) (hs : reported name = some s) :
    ∃ abi ∈ abis, splitName abi = name ∧ dashedName abi = s := by
  rcases List.mem_append.mp (h.names.mem_iff.mp hmem) with hother | hsplit
  · rw [hothers name hother] at hs
    cases hs
  · obtain ⟨abi, habi, rfl⟩ := List.mem_map.mp hsplit
    exact ⟨abi, habi, rfl, Option.some.inj ((reported_splitName abi).symm.trans hs)⟩

theorem reported_eq_none {name : String} :
    reported name = none ↔ (isApkName name → abiOfSplit name = none) := by
  rw [reported]
  split <;> simp_all

/-- The names alone decide it. -/
theorem filterMap_reported_iff (h : BundleOf abis package others zip) (hplain : PlainOf abis plain) :
    zip.fileNames.filterMap reported = abisIn plain ↔ Alike abis package others zip := by
  have hbundled := h.perm
  have hdirs := hplain.perm h.nodup
  constructor
  · intro heq
    -- as many names are reported as there are splits, so nothing else is
    have hnil : ((package ++ ".apk") :: others).filterMap reported = [] := by
      have hlen := hbundled.length_eq
      rw [heq, hdirs.length_eq, List.length_append, List.length_map, List.length_map] at hlen
      exact List.length_eq_zero_iff.mp (by omega)
    refine ⟨?_, ?_, ?_⟩
    · intro hmem
      rw [heq, hnil, List.nil_append] at hbundled
      have hdashed := (hdirs.symm.trans hbundled).mem_iff.mpr (List.mem_map_of_mem hmem)
      obtain ⟨abi, -, habi⟩ := List.mem_map.mp hdashed
      exact (dashedName_eq_asStr.mp habi.symm).2 rfl
    · have hsorted : (abisIn plain).Pairwise (· < ·) := sorted_toList _
      rw [← heq, List.pairwise_filterMap] at hsorted
      refine hsorted.imp ?_
      rintro m n hmn a b rfl rfl
      exact dashedName_lt.mp (hmn _ (reported_splitName a) _ (reported_splitName b))
    · intro name hname
      exact reported_eq_none.mp (List.filterMap_eq_nil_iff.mp hnil name hname)
  · intro halike
    have hothers : ∀ name ∈ (package ++ ".apk") :: others, reported name = none :=
      fun name hname => reported_eq_none.mpr (halike.others name hname)
    have hspelled : abis.map dashedName = abis.map Abi.asStr := by
      apply List.map_congr_left
      intro abi habi
      exact dashedName_eq_asStr.mpr ⟨rfl, fun hx => halike.dashed (hx ▸ habi)⟩
    rw [List.filterMap_eq_nil_iff.mpr hothers, List.nil_append, hspelled] at hbundled
    have hsorted : (zip.fileNames.filterMap reported).Pairwise (· < ·) := by
      rw [List.pairwise_filterMap]
      apply halike.ordered.imp_of_mem
      intro m n hm hn hmn s hs t ht
      obtain ⟨a, -, ha, rfl⟩ := h.reported_eq_some hothers hm hs
      obtain ⟨b, -, hb, rfl⟩ := h.reported_eq_some hothers hn ht
      exact dashedName_lt.mpr (hmn a b ha hb)
    exact (hbundled.trans hdirs.symm).eq_of_pairwise
      (fun a b _ _ hab hba => absurd hab (lt_asymm hba)) hsorted (sorted_toList _)

end

/-- A bundle and a plain APK with native code for the same ABIs report the same ABIs exactly when
the names of the bundle's members are `Alike`. -/
theorem abis_eq_iff {env : Env} {bundle apk : Bytes} {bundleInfo apkInfo : PackageInfo}
    {zip plain : ZipArchive} {abis : List Abi} {package : String} {others : List String}
    (hzip : env.zip bundle = .ok zip) (hbundle : BundleOf abis package others zip)
    (hplainZip : env.zip apk = .ok plain) (hplain : PlainOf abis plain)
    (hinfo : inspect env bundle = .ok bundleInfo) (happ : inspect env apk = .ok apkInfo) :
    bundleInfo.abis = apkInfo.abis ↔ Alike abis package others zip := by
  rw [abis_bundle hinfo hzip hbundle.noManifest, abis_plain happ hplainZip hplain.manifest]
  exact filterMap_reported_iff hbundle hplain

/-! ## An app for ARM and one for x86-64 -/

namespace PerAbi

def bundleMembers (names : List String) : List Stored :=
  ⟨"com.example.app.apk", 0x5633f2f2, Modules.baseApk⟩ :: names.map fun name => ⟨name, 0, []⟩

def plainMembers (dirs : List String) : List Stored :=
  ⟨"AndroidManifest.xml", 0x66ea8750, Axml.smallDocument.bytes⟩
    :: dirs.map fun dir => ⟨"lib/" ++ dir ++ "/libapp.so", 0, []⟩

def armBundle : List Stored :=
  bundleMembers ["config.arm64_v8a.apk", "config.en.apk", "config.armeabi_v7a.apk"]
def armPlain : List Stored := plainMembers ["armeabi-v7a", "arm64-v8a"]
def x86Bundle : List Stored := bundleMembers ["config.x86_64.apk"]
def x86Plain : List Stored := plainMembers ["x86_64"]

theorem nodup_armBundle : (armBundle.map Stored.name).Nodup := by decide
theorem nodup_armPlain : (armPlain.map Stored.name).Nodup := by decide
theorem nodup_x86Bundle : (x86Bundle.map Stored.name).Nodup := by decide
theorem nodup_x86Plain : (x86Plain.map Stored.name).Nodup := by decide

def armEnv : Env :=
  Env.known
    [(Stored.zip armBundle, Stored.archive _ nodup_armBundle),
      (Stored.zip armPlain, Stored.archive _ nodup_armPlain),
      (Modules.baseApk, Stored.archive _ Modules.nodup_base)]
    [(Stored.zip armBundle,
        [0x20, 0xaf, 0x70, 0x36, 0x93, 0xdf, 0x3e, 0xf5, 0x09, 0x8b, 0x1b, 0xcd, 0x27, 0x2e, 0x8f,
          0xa1, 0x61, 0x25, 0xf6, 0xda, 0x68, 0x10, 0xc3, 0x1a, 0x90, 0xe2, 0x76, 0x87, 0x5d, 0xeb,
          0xde, 0xed]),
      (Stored.zip armPlain,
        [0x9f, 0xac, 0xff, 0x8d, 0xcb, 0x98, 0x84, 0xae, 0xbc, 0x87, 0xe2, 0x4f, 0x8d, 0x1f, 0x2c,
          0xf8, 0xb7, 0x09, 0x26, 0x8f, 0x41, 0x80, 0x23, 0xc7, 0x1c, 0xf2, 0x04, 0xd6, 0xcb, 0xe3,
          0x87, 0xdd])]

def x86Env : Env :=
  Env.known
    [(Stored.zip x86Bundle, Stored.archive _ nodup_x86Bundle),
      (Stored.zip x86Plain, Stored.archive _ nodup_x86Plain),
      (Modules.baseApk, Stored.archive _ Modules.nodup_base)]
    [(Stored.zip x86Bundle,
        [0x2e, 0x14, 0x29, 0x98, 0x9d, 0xb9, 0xd3, 0x97, 0xb4, 0x13, 0x61, 0xa8, 0xa6, 0xa6, 0x80,
          0xc1, 0x8e, 0x9e, 0x89, 0x9e, 0x88, 0x24, 0xc2, 0x16, 0xa0, 0x6d, 0x49, 0x0d, 0xba, 0xbf,
          0x5b, 0x26]),
      (Stored.zip x86Plain,
        [0xcc, 0x97, 0x54, 0x19, 0xb7, 0xe3, 0x9d, 0x92, 0x80, 0x76, 0x3a, 0x26, 0x1f, 0x34, 0x48,
          0x96, 0x35, 0xa8, 0xa4, 0xf6, 0xba, 0xd7, 0xd3, 0x85, 0x46, 0x90, 0x64, 0xed, 0xd3, 0x22,
          0x89, 0x37])]

theorem armBundle_bundleOf : BundleOf [.arm64V8a, .armeabiV7a] "com.example.app" ["config.en.apk"]
    (Stored.archive _ nodup_armBundle) :=
  ⟨by decide, by decide⟩

theorem armPlain_plainOf : PlainOf [.arm64V8a, .armeabiV7a] (Stored.archive _ nodup_armPlain) :=
  plainOf_of_abisIn (by decide) (by decide)

theorem armBundle_reported : (Stored.archive _ nodup_armBundle).fileNames.filterMap reported
    = abisIn (Stored.archive _ nodup_armPlain) := by
  decide

theorem armBundle_alike : Alike [.arm64V8a, .armeabiV7a] "com.example.app" ["config.en.apk"]
    (Stored.archive _ nodup_armBundle) :=
  (filterMap_reported_iff armBundle_bundleOf armPlain_plainOf).mp armBundle_reported

theorem x86Bundle_bundleOf : BundleOf [.x86_64] "com.example.app" []
    (Stored.archive _ nodup_x86Bundle) :=
  ⟨by decide, by decide⟩

theorem x86Plain_plainOf : PlainOf [.x86_64] (Stored.archive _ nodup_x86Plain) :=
  plainOf_of_abisIn (by decide) (by decide)

theorem zip_armBundle :
    armEnv.zip (Stored.zip armBundle) = .ok (Stored.archive _ nodup_armBundle) := by
  rw [armEnv, Env.zip_known_head]

theorem zip_armPlain :
    armEnv.zip (Stored.zip armPlain) = .ok (Stored.archive _ nodup_armPlain) := by
  rw [armEnv, Env.zip_known_tail (by decide), Env.zip_known_head]

theorem zip_armBase : armEnv.zip Modules.baseApk = .ok (Stored.archive _ Modules.nodup_base) := by
  rw [armEnv, Env.zip_known_tail (by decide), Env.zip_known_tail (by decide +kernel),
    Env.zip_known_head]

theorem zip_x86Bundle :
    x86Env.zip (Stored.zip x86Bundle) = .ok (Stored.archive _ nodup_x86Bundle) := by
  rw [x86Env, Env.zip_known_head]

theorem zip_x86Plain :
    x86Env.zip (Stored.zip x86Plain) = .ok (Stored.archive _ nodup_x86Plain) := by
  rw [x86Env, Env.zip_known_tail (by decide), Env.zip_known_head]

theorem zip_x86Base : x86Env.zip Modules.baseApk = .ok (Stored.archive _ Modules.nodup_base) := by
  rw [x86Env, Env.zip_known_tail (by decide), Env.zip_known_tail (by decide +kernel),
    Env.zip_known_head]

section

variable {env : Env} {data : Bytes} {zip : ZipArchive}

/-- A bundle with the base APK is read when the base sorts first. -/
theorem inspect_withBase (hzip : env.zip data = .ok zip)
    (hbase : env.zip Modules.baseApk = .ok (Stored.archive _ Modules.nodup_base))
    (henv : env.width = .w64 ∧ env.showFloat = fun _ => "")
    (hnone : "AndroidManifest.xml" ∉ zip.fileNames)
    (hentry : readEntry zip "com.example.app.apk" = .ok (some Modules.baseApk))
    (hfirst : SortsFirst zip "com.example.app.apk") : ∃ info, inspect env data = .ok info := by
  obtain ⟨base, hdescribe, -⟩ := Modules.describe_base henv hbase hentry
  exact ⟨_, (inspect_bundle_eq_ok hzip hnone).mpr ⟨_, base, hfirst, hdescribe, rfl⟩⟩

theorem inspect_withManifest (hzip : env.zip data = .ok zip)
    (henv : env.width = .w64 ∧ env.showFloat = fun _ => "")
    (hsome : "AndroidManifest.xml" ∈ zip.fileNames)
    (hentry : readEntry zip "AndroidManifest.xml" = .ok (some Axml.smallDocument.bytes)) :
    ∃ info, inspect env data = .ok info := by
  obtain ⟨base, hbase, -⟩ := Modules.fromManifest_smallDocument
  rw [← henv.1, ← henv.2] at hbase
  exact ⟨_, (inspect_plain hzip hsome).mpr ⟨_, base, hentry, hbase, rfl⟩⟩

end

end PerAbi

open PerAbi in
/-- Both report `arm64-v8a` and `armeabi-v7a`. -/
theorem abis_eq_iff_arm : ∃ bundleInfo apkInfo,
    inspect armEnv (Stored.zip armBundle) = .ok bundleInfo ∧
      inspect armEnv (Stored.zip armPlain) = .ok apkInfo ∧ bundleInfo.abis = apkInfo.abis := by
  obtain ⟨bundleInfo, hbundle⟩ := inspect_withBase zip_armBundle zip_armBase ⟨rfl, rfl⟩
    (by decide) rfl ⟨[], _, rfl, by simp, by decide⟩
  obtain ⟨apkInfo, happ⟩ := inspect_withManifest zip_armPlain ⟨rfl, rfl⟩ (by decide) rfl
  exact ⟨bundleInfo, apkInfo, hbundle, happ,
    (abis_eq_iff zip_armBundle armBundle_bundleOf zip_armPlain armPlain_plainOf hbundle happ).mpr
      armBundle_alike⟩

open PerAbi in
/-- The bundle reports `x86-64`, the APK `x86_64`. -/
theorem abis_ne_x86 : x86Env.zip (Stored.zip x86Bundle) = .ok (Stored.archive _ nodup_x86Bundle) ∧
    BundleOf [.x86_64] "com.example.app" [] (Stored.archive _ nodup_x86Bundle) ∧
    x86Env.zip (Stored.zip x86Plain) = .ok (Stored.archive _ nodup_x86Plain) ∧
    PlainOf [.x86_64] (Stored.archive _ nodup_x86Plain) ∧
    ∃ bundleInfo apkInfo, inspect x86Env (Stored.zip x86Bundle) = .ok bundleInfo ∧
      inspect x86Env (Stored.zip x86Plain) = .ok apkInfo ∧ bundleInfo.abis ≠ apkInfo.abis := by
  obtain ⟨bundleInfo, hbundle⟩ := inspect_withBase zip_x86Bundle zip_x86Base ⟨rfl, rfl⟩
    (by decide) rfl ⟨[], _, rfl, by simp, by decide⟩
  obtain ⟨apkInfo, happ⟩ := inspect_withManifest zip_x86Plain ⟨rfl, rfl⟩ (by decide) rfl
  refine ⟨zip_x86Bundle, x86Bundle_bundleOf, zip_x86Plain, x86Plain_plainOf, bundleInfo, apkInfo,
    hbundle, happ, ?_⟩
  rw [abis_bundle hbundle zip_x86Bundle x86Bundle_bundleOf.noManifest,
    abis_plain happ zip_x86Plain x86Plain_plainOf.manifest]
  intro heq
  have halike := (filterMap_reported_iff x86Bundle_bundleOf x86Plain_plainOf).mp heq
  exact halike.dashed (List.mem_singleton_self _)

end Xylitol.Apk
