import Xylitol.Apk.Inspect
import Xylitol.Apk.Axml.RoundTrip
import Xylitol.Sorted

/-!
# The base of a bundle

`inspect` guesses the base APK of a bundle from the names of the members: the one that sorts first
by `baseKey`. The base is the one whose manifest names no split, whatever it is called.
`inspect_base_iff` says for which names the guess is right.
-/

namespace Xylitol.Apk

section

variable {env : Env} {data : Bytes} {zip : ZipArchive}

/-! ### The order of the members -/

theorem baseKeyLe_iff {a b : String} : baseKeyLe a b ↔
    toLex ((baseKey a).1, toLex (baseKey a).2) ≤ toLex ((baseKey b).1, toLex (baseKey b).2) := by
  rw [baseKeyLe]
  obtain ⟨config, split, len⟩ := baseKey a
  obtain ⟨config', split', len'⟩ := baseKey b
  simp only [Prod.Lex.toLex_le_toLex]
  cases config <;> cases config' <;> cases split <;> cases split' <;> simp

instance : Std.Total fun a b : String => (baseKeyLe a b = true) where
  total a b := by
    rw [baseKeyLe_iff, baseKeyLe_iff]
    exact le_total _ _

instance : IsTrans String fun a b => (baseKeyLe a b = true) where
  trans a b c hab hbc := by
    rw [baseKeyLe_iff] at hab hbc ⊢
    exact le_trans hab hbc

/-- The APKs a bundle contains, in the order of the archive. -/
def containedApks (zip : ZipArchive) : List String := zip.fileNames.filter isApkName

/-- No other contained APK is taken for the base: those before it in the archive have a greater
key, those after it no smaller one. -/
def SortsFirst (zip : ZipArchive) (base : String) : Prop :=
  FirstLeast (fun a b => baseKeyLe a b) base (containedApks zip)

theorem sortedApks_eq_cons {base : String} :
    (∃ rest, sortedApks (containedApks zip) = base :: rest) ↔ SortsFirst zip base := by
  rw [SortsFirst, ← head?_insertionSort, List.head?_eq_some_iff]
  rfl

/-! ### What the members are -/

/-- What the manifest of a contained APK says. -/
def describe (env : Env) (zip : ZipArchive) (name : String) : Except Error PackageInfo := do
  match ← readEntry zip name with
  | none => throw .notAnApk
  | some bytes =>
    let inner ← env.openZip bytes
    match ← readEntry inner "AndroidManifest.xml" with
    | none => throw .notAnApk
    | some manifest => fromManifest env.width env.showFloat manifest

/-- Exactly one contained APK, `base`, has a manifest that names no split. The others have one that
does, or none that can be read. -/
structure OneBase (env : Env) (zip : ZipArchive) (base : String) (info : PackageInfo) : Prop where
  contained : base ∈ containedApks zip
  described : describe env zip base = .ok info
  noSplit : info.split = none
  only : ∀ name ∈ containedApks zip, ∀ other, describe env zip name = .ok other →
    other.split = none → name = base

/-- `info` says of the app what `base` says. -/
structure ReadFrom (base info : PackageInfo) : Prop where
  package : info.package = base.package
  versionName : info.versionName = base.versionName
  versionCode : info.versionCode = base.versionCode
  label : info.label = base.label
  minSdk : info.minSdk = base.minSdk
  targetSdk : info.targetSdk = base.targetSdk
  permissions : info.permissions = base.permissions
  launchableActivities : info.launchableActivities = base.launchableActivities

theorem describe_eq_ok {name : String} {info : PackageInfo} : describe env zip name = .ok info ↔
    ∃ bytes inner manifest, readEntry zip name = .ok (some bytes) ∧ env.zip bytes = .ok inner ∧
      readEntry inner "AndroidManifest.xml" = .ok (some manifest) ∧
      fromManifest env.width env.showFloat manifest = .ok info := by
  unfold describe
  constructor
  · intro h
    obtain ⟨entry, hentry, h⟩ := bind_eq_ok.mp h
    cases entry with
    | none => cases h
    | some bytes =>
      obtain ⟨inner, hinner, h⟩ := bind_eq_ok.mp h
      obtain ⟨entry, hmanifest, h⟩ := bind_eq_ok.mp h
      cases entry with
      | none => cases h
      | some manifest =>
        exact ⟨bytes, inner, manifest, hentry, openZip_eq_ok.mp hinner, hmanifest, h⟩
  · rintro ⟨bytes, inner, manifest, hentry, hinner, hmanifest, hinfo⟩
    simp only [hentry, openZip_eq_ok.mpr hinner, hmanifest, hinfo, ok_bind]

/-- A bundle is described by the member that sorts first. -/
theorem inspect_bundle_eq_ok {got : PackageInfo} (hzip : env.zip data = .ok zip)
    (hnone : "AndroidManifest.xml" ∉ zip.fileNames) : inspect env data = .ok got ↔
    ∃ base info, SortsFirst zip base ∧ describe env zip base = .ok info ∧
      got = { info with
        kind := .bundle
        abis := (containedApks zip).filterMap abiOfSplit
        containedApks := containedApks zip
        fileSize := data.length
        sha256 := Text.hex (env.sha256 data) } := by
  rw [inspect_bundle hzip hnone, inspectBundle_eq_ok]
  constructor
  · rintro ⟨base, rest, bytes, inner, manifest, info, hsorted, hentry, hinner, hmanifest, hinfo,
      rfl⟩
    exact ⟨base, info, sortedApks_eq_cons.mp ⟨rest, hsorted⟩,
      describe_eq_ok.mpr ⟨bytes, inner, manifest, hentry, hinner, hmanifest, hinfo⟩, rfl⟩
  · rintro ⟨base, info, hfirst, hdescribe, rfl⟩
    obtain ⟨rest, hsorted⟩ := sortedApks_eq_cons.mpr hfirst
    obtain ⟨bytes, inner, manifest, hentry, hinner, hmanifest, hinfo⟩ := describe_eq_ok.mp hdescribe
    exact ⟨base, rest, bytes, inner, manifest, info, hsorted, hentry, hinner, hmanifest, hinfo, rfl⟩

/-- A bundle with one base is described by it exactly when the base sorts first. -/
theorem inspect_base_iff {base : String} {info : PackageInfo} (hzip : env.zip data = .ok zip)
    (hnone : "AndroidManifest.xml" ∉ zip.fileNames) (hone : OneBase env zip base info) :
    (∃ got, inspect env data = .ok got ∧ ReadFrom info got ∧ got.split = none) ↔
      SortsFirst zip base := by
  simp only [inspect_bundle_eq_ok hzip hnone]
  constructor
  · rintro ⟨got, ⟨name, other, hfirst, hdescribe, rfl⟩, -, hsplit⟩
    -- what was read names no split, so it was read from the base
    exact hone.only name hfirst.mem other hdescribe hsplit ▸ hfirst
  · intro hfirst
    exact ⟨_, ⟨base, info, hfirst, hone.described, rfl⟩,
      ⟨rfl, rfl, rfl, rfl, rfl, rfl, rfl, rfl⟩, hone.noSplit⟩

end

/-! ## A bundle with a feature module

The manifest of the module is `<manifest package="a.b" split="maps"/>`. -/

namespace Modules

open Axml

def splitPool : PoolChunk :=
  ⟨28, 0, UTF8_FLAG, 0, ["manifest", "package", "a.b", "split", "maps"], []⟩

def splitRoot : StartChunk :=
  ⟨16, 1, 0xFFFFFFFF, 0xFFFFFFFF, 0, 0, 0, 0, [], 0,
    [⟨0xFFFFFFFF, 1, 2, 8, 0, TYPE_STRING, 2, []⟩, ⟨0xFFFFFFFF, 3, 4, 8, 0, TYPE_STRING, 4, []⟩],
    [], smallRoot.gap_lt, smallRoot.padLen_lt, by decide, by decide⟩

def splitDocument : Document :=
  ⟨3, 0, [], [.pool splitPool, .start splitRoot, .close (smallEnd 0)], smallDocument.extra_lt⟩

def baseMembers : List Stored := [⟨"AndroidManifest.xml", 0x66ea8750, smallDocument.bytes⟩]
def mapsMembers : List Stored := [⟨"AndroidManifest.xml", 0x8848dc8c, splitDocument.bytes⟩]

def baseApk : Bytes := Stored.zip baseMembers
def mapsApk : Bytes := Stored.zip mapsMembers

/-- The module under the name `maps`, then the base. -/
def members (maps : String) : List Stored :=
  [⟨maps, 0xe03a2eda, mapsApk⟩, ⟨"com.example.app.apk", 0x5633f2f2, baseApk⟩]

def marked : Bytes := Stored.zip (members "config.maps.apk")
def unmarked : Bytes := Stored.zip (members "maps.apk")

theorem nodup_base : (baseMembers.map Stored.name).Nodup := by decide
theorem nodup_maps : (mapsMembers.map Stored.name).Nodup := by decide
theorem nodup_marked : ((members "config.maps.apk").map Stored.name).Nodup := by decide
theorem nodup_unmarked : ((members "maps.apk").map Stored.name).Nodup := by decide

def markedZip : ZipArchive := Stored.archive _ nodup_marked
def unmarkedZip : ZipArchive := Stored.archive _ nodup_unmarked

def sampleEnv : Env :=
  Env.known [(marked, markedZip), (unmarked, unmarkedZip), (baseApk, Stored.archive _ nodup_base),
      (mapsApk, Stored.archive _ nodup_maps)]
    [(marked,
        [0xdd, 0xde, 0xc7, 0xa0, 0x81, 0xe8, 0x16, 0x29, 0x17, 0xca, 0x26, 0x65, 0xba, 0x6d, 0x44,
          0xf5, 0x69, 0x75, 0xfe, 0x6f, 0x09, 0x8a, 0xd4, 0xf9, 0xa8, 0x3a, 0x85, 0x35, 0x5e, 0x1c,
          0xcd, 0x52]),
      (unmarked,
        [0xcc, 0xd8, 0x99, 0xd5, 0x9b, 0x47, 0x86, 0xcd, 0xc4, 0xf8, 0xfb, 0xf0, 0xc2, 0xed, 0x14,
          0x0f, 0x54, 0x2e, 0x1e, 0xac, 0x35, 0x59, 0xff, 0xb1, 0x0c, 0x9b, 0x9e, 0x58, 0xc7, 0xd2,
          0x6f, 0x04])]

theorem zip_marked : sampleEnv.zip marked = .ok markedZip := by
  rw [sampleEnv, Env.zip_known_head]

theorem zip_unmarked : sampleEnv.zip unmarked = .ok unmarkedZip := by
  rw [sampleEnv, Env.zip_known_tail (by decide +kernel), Env.zip_known_head]

-- the files differ in the checksum of their first member, so no comparison reads far
theorem zip_baseApk : sampleEnv.zip baseApk = .ok (Stored.archive _ nodup_base) := by
  rw [sampleEnv, Env.zip_known_tail (by decide), Env.zip_known_tail (by decide),
    Env.zip_known_head]

theorem zip_mapsApk : sampleEnv.zip mapsApk = .ok (Stored.archive _ nodup_maps) := by
  rw [sampleEnv, Env.zip_known_tail (by decide), Env.zip_known_tail (by decide),
    Env.zip_known_tail (by decide), Env.zip_known_head]

theorem fromManifest_smallDocument : ∃ info,
    fromManifest .w64 (fun _ => "") smallDocument.bytes = .ok info ∧ info.split = none :=
  map_eq_ok.mp (by decide +kernel)

/-- Whatever else is in the archive. -/
theorem inspect_smallDocument {env : Env} {data : Bytes} {zip : ZipArchive}
    (henv : env.width = .w64 ∧ env.showFloat = fun _ => "") (hzip : env.zip data = .ok zip)
    (hentry : readEntry zip "AndroidManifest.xml" = .ok (some smallDocument.bytes)) :
    ∃ info, inspect env data = .ok info ∧ info.kind = .apk := by
  obtain ⟨info, hinfo, hnone⟩ := fromManifest_smallDocument
  have hkind : info.kind = .apk := by
    obtain ⟨root, -, rfl⟩ := parseManifest_eq_ok.mp hinfo
    have hsplit : root.attrStr "split" = none := hnone
    show (if (root.attrStr "split").isSome then PackageKind.splitApk else .apk) = .apk
    rw [hsplit]
    rfl
  rw [← henv.1, ← henv.2] at hinfo
  have hsome : "AndroidManifest.xml" ∈ zip.fileNames := by
    by_contra hnot
    rw [readEntry_eq_none.mpr hnot] at hentry
    cases hentry
  exact ⟨_, (inspect_plain hzip hsome).mpr ⟨_, info, hentry, hinfo, rfl⟩, hkind⟩

theorem fromManifest_splitDocument : ∃ info,
    fromManifest .w64 (fun _ => "") splitDocument.bytes = .ok info ∧ info.split = some "maps" :=
  map_eq_ok.mp (by decide +kernel)

theorem describe_base {env : Env} {zip : ZipArchive} {name : String}
    (henv : env.width = .w64 ∧ env.showFloat = fun _ => "")
    (hzip : env.zip baseApk = .ok (Stored.archive _ nodup_base))
    (hentry : readEntry zip name = .ok (some baseApk)) :
    ∃ info, describe env zip name = .ok info ∧ info.split = none := by
  obtain ⟨info, hinfo, hnone⟩ := fromManifest_smallDocument
  rw [← henv.1, ← henv.2] at hinfo
  exact ⟨info, describe_eq_ok.mpr
    ⟨baseApk, _, smallDocument.bytes, hentry, hzip, rfl, hinfo⟩, hnone⟩

theorem describe_maps {zip : ZipArchive} {name : String}
    (hentry : readEntry zip name = .ok (some mapsApk)) :
    ∃ info, describe sampleEnv zip name = .ok info ∧ info.split = some "maps" := by
  obtain ⟨info, hinfo, hsome⟩ := fromManifest_splitDocument
  exact ⟨info, describe_eq_ok.mpr
    ⟨mapsApk, _, splitDocument.bytes, hentry, zip_mapsApk, rfl, hinfo⟩, hsome⟩

/-- The base is the one without a split name, under either name of the module. -/
theorem oneBase {zip : ZipArchive} (maps : String)
    (hnames : containedApks zip = [maps, "com.example.app.apk"])
    (hmaps : readEntry zip maps = .ok (some mapsApk))
    (hbase : readEntry zip "com.example.app.apk" = .ok (some baseApk)) :
    ∃ info, OneBase sampleEnv zip "com.example.app.apk" info := by
  obtain ⟨info, hinfo, hnone⟩ := describe_base ⟨rfl, rfl⟩ zip_baseApk hbase
  obtain ⟨split, hsplit, hsome⟩ := describe_maps hmaps
  refine ⟨info, by simp [hnames], hinfo, hnone, ?_⟩
  intro name hname other hother hothers
  rw [hnames, List.mem_cons, List.mem_singleton] at hname
  rcases hname with rfl | rfl
  · rw [hsplit] at hother
    cases hother
    cases hsome.symm.trans hothers
  · rfl

theorem oneBase_marked : ∃ info, OneBase sampleEnv markedZip "com.example.app.apk" info :=
  oneBase "config.maps.apk" (by decide) rfl rfl

theorem oneBase_unmarked : ∃ info, OneBase sampleEnv unmarkedZip "com.example.app.apk" info :=
  oneBase "maps.apk" (by decide) rfl rfl

end Modules

open Modules in
/-- With `config.` in the name of the module the bundle is described by its base. -/
theorem inspect_base_iff_marked : ∃ info, OneBase sampleEnv markedZip "com.example.app.apk" info ∧
    ∃ got, inspect sampleEnv marked = .ok got ∧ ReadFrom info got ∧ got.split = none := by
  obtain ⟨info, hone⟩ := oneBase_marked
  refine ⟨info, hone, (inspect_base_iff zip_marked (by decide) hone).mpr ?_⟩
  exact ⟨["config.maps.apk"], [], by decide, by decide, by simp⟩

open Modules in
/-- Without it the module comes first, being shorter, and the bundle is described as a split. -/
theorem inspect_unmarked : sampleEnv.zip unmarked = .ok unmarkedZip ∧
    "AndroidManifest.xml" ∉ unmarkedZip.fileNames ∧
    ∃ info, OneBase sampleEnv unmarkedZip "com.example.app.apk" info ∧
      ¬ ∃ got, inspect sampleEnv unmarked = .ok got ∧ ReadFrom info got ∧ got.split = none := by
  obtain ⟨info, hone⟩ := oneBase_unmarked
  refine ⟨zip_unmarked, by decide, info, hone, ?_⟩
  rintro ⟨got, hgot, -, hnone⟩
  obtain ⟨name, info, hfirst, hdescribe, rfl⟩ :=
    (inspect_bundle_eq_ok zip_unmarked (by decide)).mp hgot
  obtain ⟨rest, hsorted⟩ := sortedApks_eq_cons.mpr hfirst
  have hname : "maps.apk" = name := by
    have hshorter : (sortedApks (containedApks unmarkedZip)).head? = some "maps.apk" := by
      decide
    rw [hsorted] at hshorter
    exact (Option.some.inj hshorter).symm
  subst hname
  have hmaps : readEntry unmarkedZip "maps.apk" = .ok (some mapsApk) := rfl
  obtain ⟨split, hsplit, hsome⟩ := describe_maps hmaps
  rw [hsplit] at hdescribe
  cases hdescribe
  cases hsome.symm.trans hnone

end Xylitol.Apk
