import Xylitol.Apk.Base
import Xylitol.Shim.Loadable

/-!
# What is a bundle

Two readers decide whether a file is a bundle, each by a test of its own:

    inspect            has it an AndroidManifest.xml at the top?
    nativeLibraries    has it libraries of its own?

The second looks into the APKs of a file whenever the answer is no. `readersAgree_iff` says for which
archives the two tests come to the same.
-/

namespace Xylitol.Apk

variable {env : Env} {data : Bytes} {info : PackageInfo} {zip : ZipArchive}

theorem fromManifest_kind {w : PtrWidth} {showFloat : UInt32 → String} {manifest : Bytes}
    (h : fromManifest w showFloat manifest = .ok info) : info.kind ≠ .bundle := by
  obtain ⟨root, -, h⟩ := bind_eq_ok.mp h
  cases h
  simp only [infoOf]
  split <;> simp

theorem readEntry_eq_some {name : String} {bytes : Bytes} :
    readEntry zip name = .ok (some bytes) ↔ Shim.readMember zip name = .ok bytes := by
  rw [readEntry, Shim.readMember]
  cases zip.byName name with
  | error e => cases e <;> simp
  | ok f => cases hcontent : f.content <;> simp [hcontent]

/-- Reading a package with a manifest of its own is reading the manifest. -/
theorem inspect_plain_iff (hzip : env.zip data = .ok zip)
    (hsome : "AndroidManifest.xml" ∈ zip.fileNames) :
    (∃ info, inspect env data = .ok info) ↔ ∃ manifest base,
      readEntry zip "AndroidManifest.xml" = .ok (some manifest) ∧
        fromManifest env.width env.showFloat manifest = .ok base := by
  simp only [inspect_plain hzip hsome]
  constructor
  · intro ⟨info, manifest, base, hentry, hbase, _⟩
    exact ⟨manifest, base, hentry, hbase⟩
  · intro ⟨manifest, base, hentry, hbase⟩
    exact ⟨_, manifest, base, hentry, hbase, rfl⟩

/-- A package is reported as a bundle exactly when its archive has no manifest at the top. -/
theorem kind_eq_bundle_iff (h : inspect env data = .ok info) (hzip : env.zip data = .ok zip) :
    info.kind = .bundle ↔ "AndroidManifest.xml" ∉ zip.fileNames := by
  by_cases hsome : "AndroidManifest.xml" ∈ zip.fileNames
  · obtain ⟨manifest, base, -, hbase, rfl⟩ := (inspect_plain hzip hsome).mp h
    have hkind : base.kind ≠ .bundle := fromManifest_kind hbase
    exact iff_of_false hkind (not_not.mpr hsome)
  · rw [inspect_bundle hzip hsome] at h
    obtain ⟨_, _, _, _, _, _, -, -, -, -, -, rfl⟩ := inspectBundle_eq_ok.mp h
    exact iff_of_true rfl hsome

end Xylitol.Apk

namespace Xylitol.Shim

open Apk (ZipArchive Stored PackageInfo)

variable {env : Env} {data : Bytes} {zip : ZipArchive} {info : PackageInfo} {libraries : Libraries}

/-! ## The libraries inside -/

/-- A library of a readable APK inside the archive: the key it belongs under, and what reading it
gives. -/
def InnerLibrary (env : Env) (zip : ZipArchive) (key : Abi × String)
    (content : Except Error Bytes) : Prop :=
  ∃ name inner k, Contained env zip name inner ∧ k ∈ libNames inner ∧
    key = (k.1, name ++ "!" ++ k.2) ∧ content = readMember inner k.2

theorem ships_iff {key : Abi × String} {bytes : Bytes} :
    Ships env zip key bytes ↔ (key ∈ libNames zip ∧ readMember zip key.2 = .ok bytes) ∨
      (libNames zip = [] ∧ InnerLibrary env zip key (.ok bytes)) := by
  constructor
  · intro h
    cases h with
    | own hkey hdata => exact .inl ⟨hkey, hdata⟩
    | inner hnone hin hkey hdata => exact .inr ⟨hnone, _, _, _, hin, hkey, rfl, hdata.symm⟩
  · intro h
    rcases h with ⟨hkey, hdata⟩ | ⟨hnone, _, _, _, hin, hkey, rfl, hdata⟩
    · exact .own hkey hdata
    · exact .inner hnone hin hkey hdata.symm

/-! ## When the readers agree -/

/-- Of a plain APK only its own libraries count; of a bundle, every library of every readable APK
inside it. -/
structure ReadersAgree (env : Env) (zip : ZipArchive) (info : PackageInfo)
    (libraries : Libraries) : Prop where
  objects : info.kind ≠ .bundle → ∀ path bytes, (path, bytes) ∈ usable env libraries →
    ∃ abi, (abi, path) ∈ libNames zip ∧ readMember zip path = .ok bytes
  abis : info.kind ≠ .bundle → ∀ dir ∈ availableAbis libraries,
    ∃ key ∈ libNames zip, key.1.asStr = dir
  bundled : info.kind = .bundle → ∀ key content, InnerLibrary env zip key content →
    ∃ bytes, content = .ok bytes ∧ libraries[key]? = some bytes

/-- The archives both tests treat alike. -/
structure OneKind (env : Env) (zip : ZipArchive) : Prop where
  /-- An archive with a manifest but no library has none inside that can be read either. -/
  plain : "AndroidManifest.xml" ∈ zip.fileNames → libNames zip = [] →
    ∀ key bytes, ¬ InnerLibrary env zip key (.ok bytes)
  /-- Without a manifest and a library, all libraries inside can be read, and those that belong under
  one key are the same. -/
  bundle : "AndroidManifest.xml" ∉ zip.fileNames → libNames zip = [] →
    ∀ key content, InnerLibrary env zip key content →
      ∃ bytes, content = .ok bytes ∧ ∀ bytes', InnerLibrary env zip key (.ok bytes') → bytes' = bytes
  /-- Without a manifest but with libraries, these are all there is inside as well. -/
  mixed : "AndroidManifest.xml" ∉ zip.fileNames → libNames zip ≠ [] →
    ∀ key content, InnerLibrary env zip key content →
      ∃ bytes, content = .ok bytes ∧ key ∈ libNames zip ∧ readMember zip key.2 = .ok bytes

/-- What is kept under a key is shipped under it. -/
theorem ships_of_getElem? (h : nativeLibraries env data = .ok libraries)
    (hzip : env.apk.zip data = .ok zip) {key : Abi × String} {bytes : Bytes}
    (hget : libraries[key]? = some bytes) : Ships env zip key bytes := by
  rw [getElem?_nativeLibraries h hzip] at hget
  exact mem_shipped.mp (mem_of_lastUnder hget)

/-- What is the only thing shipped under a key is kept under it. -/
theorem getElem?_of_ships (h : nativeLibraries env data = .ok libraries)
    (hzip : env.apk.zip data = .ok zip) {key : Abi × String} {bytes : Bytes}
    (hships : Ships env zip key bytes) (honly : ∀ bytes', Ships env zip key bytes' → bytes' = bytes) :
    libraries[key]? = some bytes := by
  rw [getElem?_nativeLibraries h hzip]
  exact lastUnder_of_agree (mem_shipped.mpr hships) fun bytes' h' => honly bytes' (mem_shipped.mp h')

theorem ReadersAgree.oneKind (hinfo : Apk.inspect env.apk data = .ok info)
    (hlibs : nativeLibraries env data = .ok libraries) (hzip : env.apk.zip data = .ok zip)
    (h : ReadersAgree env zip info libraries) : OneKind env zip := by
  have hkind := Apk.kind_eq_bundle_iff hinfo hzip
  refine ⟨?_, ?_, ?_⟩
  · intro hmanifest hnone key bytes hin
    have hplain : info.kind ≠ .bundle := fun hk => hkind.mp hk hmanifest
    have hdir : key.1.asStr ∈ availableAbis libraries :=
      (mem_availableAbis_shipped hlibs hzip).mpr ⟨key, bytes, ships_iff.mpr (.inr ⟨hnone, hin⟩), rfl⟩
    obtain ⟨own, hown, -⟩ := h.abis hplain _ hdir
    rw [hnone] at hown
    cases hown
  · intro hmanifest hnone key content hin
    obtain ⟨bytes, hcontent, hget⟩ := h.bundled (hkind.mpr hmanifest) key content hin
    refine ⟨bytes, hcontent, ?_⟩
    intro bytes' hin'
    obtain ⟨bytes'', hcontent', hget'⟩ := h.bundled (hkind.mpr hmanifest) key _ hin'
    cases hcontent'
    rw [hget] at hget'
    exact (Option.some.inj hget').symm
  · intro hmanifest hsome key content hin
    obtain ⟨bytes, hcontent, hget⟩ := h.bundled (hkind.mpr hmanifest) key content hin
    refine ⟨bytes, hcontent, ?_⟩
    exact (ships_iff.mp (ships_of_getElem? hlibs hzip hget)).resolve_right fun h => hsome h.1

/-- A plain archive ships nothing but its own libraries. -/
theorem OneKind.own (h : OneKind env zip) (hmanifest : "AndroidManifest.xml" ∈ zip.fileNames)
    {key : Abi × String} {bytes : Bytes} (hships : Ships env zip key bytes) :
    key ∈ libNames zip ∧ readMember zip key.2 = .ok bytes :=
  (ships_iff.mp hships).resolve_right fun ⟨hnone, hin⟩ => h.plain hmanifest hnone key bytes hin

/-- A bundle keeps every library of every readable APK inside it. -/
theorem OneKind.kept (h : OneKind env zip) (hlibs : nativeLibraries env data = .ok libraries)
    (hzip : env.apk.zip data = .ok zip) (hmanifest : "AndroidManifest.xml" ∉ zip.fileNames)
    {key : Abi × String} {content : Except Error Bytes} (hin : InnerLibrary env zip key content) :
    ∃ bytes, content = .ok bytes ∧ libraries[key]? = some bytes := by
  by_cases hnone : libNames zip = []
  · obtain ⟨bytes, rfl, honly⟩ := h.bundle hmanifest hnone key content hin
    refine ⟨bytes, rfl, ?_⟩
    apply getElem?_of_ships hlibs hzip (ships_iff.mpr (.inr ⟨hnone, hin⟩))
    intro bytes' hships
    rcases ships_iff.mp hships with ⟨hkey, -⟩ | ⟨-, hin'⟩
    · rw [hnone] at hkey
      cases hkey
    · exact honly bytes' hin'
  · obtain ⟨bytes, rfl, hkey, hread⟩ := h.mixed hmanifest hnone key content hin
    refine ⟨bytes, rfl, ?_⟩
    apply getElem?_of_ships hlibs hzip (.own hkey hread)
    intro bytes' hships
    rcases ships_iff.mp hships with ⟨-, hread'⟩ | ⟨hnone', -⟩
    · rw [hread] at hread'
      exact (Except.ok.inj hread').symm
    · exact absurd hnone' hnone

theorem readersAgree_iff (hinfo : Apk.inspect env.apk data = .ok info)
    (hlibs : nativeLibraries env data = .ok libraries) (hzip : env.apk.zip data = .ok zip) :
    ReadersAgree env zip info libraries ↔ OneKind env zip := by
  have hkind := Apk.kind_eq_bundle_iff hinfo hzip
  have hplain : info.kind ≠ .bundle → "AndroidManifest.xml" ∈ zip.fileNames :=
    fun hk => not_not.mp (mt hkind.mpr hk)
  constructor
  · intro h
    exact h.oneKind hinfo hlibs hzip
  · intro h
    refine ⟨?_, ?_, ?_⟩
    · intro hk path bytes hmem
      obtain ⟨host, -, hget⟩ := mem_usable.mp hmem
      exact ⟨host, h.own (hplain hk) (ships_of_getElem? hlibs hzip hget)⟩
    · intro hk dir hdir
      obtain ⟨key, bytes, hships, hname⟩ := (mem_availableAbis_shipped hlibs hzip).mp hdir
      exact ⟨key, (h.own (hplain hk) hships).1, hname⟩
    · intro hbundle key content hin
      exact h.kept hlibs hzip (hkind.mp hbundle) hin

/-! ## An APK with a plugin

A plain APK without libraries that carries another APK among its assets. -/

def pluginMembers : List Stored :=
  [⟨"AndroidManifest.xml", 0x66ea8750, Apk.Axml.smallDocument.bytes⟩,
    ⟨"assets/plugin.apk", 0xe57c1924, smallApk⟩]

def pluginApk : Bytes := Stored.zip pluginMembers

def pluginZip : ZipArchive := Stored.archive pluginMembers (by decide)

theorem nodup_smallMembers : (smallMembers.map Stored.name).Nodup := by decide

def pluginEnv : Env :=
  knownEnv [(pluginApk, pluginZip), (smallApk, Stored.archive smallMembers nodup_smallMembers)]
    [(pluginApk,
      [0xf9, 0xd5, 0xf9, 0x55, 0xdd, 0xcb, 0x45, 0x2e, 0x74, 0x37, 0x73, 0x85, 0xb8, 0x55,
        0x95, 0x94, 0x00, 0x19, 0x65, 0x2b, 0x47, 0x2d, 0x07, 0x4f, 0xbc, 0x71, 0xc2, 0x5e,
        0xd4, 0x5a, 0x41, 0xcf])]
    [(elfBytes appSymbols, ⟨.x86_64, appSymbols⟩), (elfBytes engineSymbols, ⟨.x86_64, engineSymbols⟩)]

theorem zip_pluginEnv : pluginEnv.apk.zip pluginApk = .ok pluginZip := by
  rw [pluginEnv, zip_knownEnv, Apk.Env.zip_known_head]

theorem inspect_pluginEnv : ∃ info, Apk.inspect pluginEnv.apk pluginApk = .ok info ∧
    info.kind = .apk :=
  Apk.Modules.inspect_smallDocument ⟨rfl, rfl⟩ zip_pluginEnv rfl

theorem nativeLibraries_pluginEnv : ∃ libraries,
    nativeLibraries pluginEnv pluginApk = .ok libraries ∧
      (availableAbis libraries, (usable pluginEnv libraries).map (·.1)) =
        (["x86_64"], ["assets/plugin.apk!lib/x86_64/libapp.so",
          "assets/plugin.apk!lib/x86_64/libengine.so"]) :=
  map_eq_ok.mp (by decide +kernel)

theorem readersAgree_iff_pluginEnv : ∃ info libraries,
    Apk.inspect pluginEnv.apk pluginApk = .ok info ∧
      nativeLibraries pluginEnv pluginApk = .ok libraries ∧
        (ReadersAgree pluginEnv pluginZip info libraries ↔ OneKind pluginEnv pluginZip) := by
  obtain ⟨info, hinfo, -⟩ := inspect_pluginEnv
  obtain ⟨libraries, hlibs, -⟩ := nativeLibraries_pluginEnv
  exact ⟨info, libraries, hinfo, hlibs, readersAgree_iff hinfo hlibs zip_pluginEnv⟩

/-- The libraries of the plugin are taken for the app's. -/
theorem plugin_libraries_collected : ∃ info libraries,
    Apk.inspect pluginEnv.apk pluginApk = .ok info ∧ info.kind = .apk ∧
      nativeLibraries pluginEnv pluginApk = .ok libraries ∧
        availableAbis libraries = ["x86_64"] ∧ libNames pluginZip = [] ∧
          ¬ ReadersAgree pluginEnv pluginZip info libraries := by
  obtain ⟨info, hinfo, hkind⟩ := inspect_pluginEnv
  obtain ⟨libraries, hlibs, hsays⟩ := nativeLibraries_pluginEnv
  obtain ⟨habis, -⟩ := Prod.mk.inj hsays
  have hnone : libNames pluginZip = [] := by decide
  refine ⟨info, libraries, hinfo, hkind, hlibs, habis, hnone, ?_⟩
  intro hagree
  have hmem : "x86_64" ∈ availableAbis libraries := by simp [habis]
  obtain ⟨key, hkey, -⟩ := hagree.abis (by simp [hkind]) _ hmem
  rw [hnone] at hkey
  cases hkey

end Xylitol.Shim
