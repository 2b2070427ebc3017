import Xylitol.Apk.Axml.RoundTrip
import Xylitol.Apk.Inspect
import Xylitol.Apkpure.Model

/-!
# The local library

What has been downloaded, and what it is. A handle reads the index file once, when it is opened, and
keeps the map in memory; every change goes to that map first and then writes the whole map back:

    index file ──openAt──▶ map in memory ──add / remove──▶ map' ──save──▶ index file

Each call is one step here, and takes with it the faults the file system may raise while it runs.
The JSON library is a parameter: what the index file holds is a `J`, and all that is asked of it is
that an index which was written reads back.
-/

namespace Xylitol.Library

open Apk (PackageInfo)
open Apkpure (Variant)

/-- One downloaded file. -/
structure Entry where
  path : Path
  info : PackageInfo
  source : Option Variant
  added : String
  verified : Bool
  deriving DecidableEq, Repr

/-! ## Keys -/

/-- What distinguishes this file from others of the same package and version. -/
def discriminator (info : PackageInfo) : String :=
  match info.split with
  | some split => split
  | none =>
    if info.kind = .bundle then "bundle"
    else if info.abis.isEmpty then "base"
    else "+".intercalate info.abis

/-- A stable identifier, as shown by `library list` and taken by `remove`. -/
def key (info : PackageInfo) : String :=
  info.package ++ "@" ++ toString (info.versionCode.getD (-1)) ++ "#" ++ discriminator info

def Entry.key (e : Entry) : String := Library.key e.info

/-! ## The index and its file -/

/-- The index, a `BTreeMap` from keys to entries. -/
abbrev Index := Std.ExtTreeMap String Entry

/-- Every path of the index is text, so it can be written as JSON. -/
def Utf8 (index : Index) : Prop :=
  ∀ (k : String) (e : Entry), index[k]? = some e → Path.isUtf8 e.path

theorem utf8_empty : Utf8 ∅ := by
  intro k e he
  simp at he

theorem Utf8.insert {index : Index} (h : Utf8 index) (k : String) (e : Entry)
    (he : Path.isUtf8 e.path) : Utf8 (index.insert k e) := by
  intro k' e' he'
  rw [Std.ExtTreeMap.getElem?_insert] at he'
  split at he'
  · cases he'
    exact he
  · exact h k' e' he'

/-- `serde_json` at the type of the index. -/
structure SerdeJson (J : Type) where
  toVecPretty : Index → Option J
  fromSlice : J → Option Index
  isSome_toVecPretty : ∀ index, (toVecPretty index).isSome ↔ Utf8 index
  fromSlice_toVecPretty : ∀ index j, toVecPretty index = some j → fromSlice j = some index

/-- The files the library looks at: the index file and the package files. The temporary file of
`save` is written before it is renamed and never read, so it is left out. -/
structure World (J : Type) where
  index : Option J
  files : Path → Option Bytes

/-- Which of the file system calls of one operation fail. -/
structure Faults where
  readIndex : Bool
  createDir : Bool
  writeTmp : Bool
  rename : Bool
  removeFile : Bool
  deriving DecidableEq, Repr

/-- No fault at all. -/
def Faults.none : Faults := ⟨false, false, false, false, false⟩

inductive Error where
  | read
  | inspect (e : Apk.Error)
  | createDir
  | serialize
  | write
  | rename
  deriving DecidableEq, Repr

variable {J : Type} (json : SerdeJson J)

/-! ## Operations -/

/-- `Library::open_at`: what cannot be parsed is an empty index, and entries whose file is gone are
dropped. -/
def openAt (faults : Faults) (world : World J) : Except Error Index :=
  if faults.readIndex then .error .read
  else
    let index := (world.index.bind json.fromSlice).getD ∅
    .ok (index.filter fun _ e => (world.files e.path).isSome)

/-- `save`: write, then rename. -/
def save (faults : Faults) (index : Index) (world : World J) : Except Error Unit × World J :=
  if faults.createDir then (.error .createDir, world)
  else
    match json.toVecPretty index with
    | none => (.error .serialize, world)
    | some j =>
      if faults.writeTmp then (.error .write, world)
      else if faults.rename then (.error .rename, world)
      else (.ok (), { world with index := some j })

/-- What a call of `add` or `remove` asks for. `now` is what the clock says. -/
inductive Call where
  | add (path : Path) (source : Option Variant) (verified : Bool) (now : String)
  | remove (key : String) (deleteFile : Bool)
  deriving DecidableEq, Repr

/-- What such a call returns when it succeeds. -/
inductive Reply where
  | added (entry : Entry)
  | removed (found : Bool)
  deriving DecidableEq, Repr

/-- What a call leaves behind, whether it succeeded or not. -/
structure Outcome (J : Type) where
  result : Except Error Reply
  index : Index
  world : World J

/-- The entry `add` builds: the file is inspected as it is now. -/
def newEntry (env : Apk.Env) (world : World J) (path : Path) (source : Option Variant)
    (verified : Bool) (now : String) : Except Error Entry :=
  match world.files path with
  | none => .error (.inspect (.io "No such file or directory (os error 2)"))
  | some data => do
    let info ← (Apk.inspect env data).mapError .inspect
    return ⟨path, info, source, now, verified⟩

/-- Inspect `path` and record it. Replaces any entry for the same build. -/
def add (env : Apk.Env) (faults : Faults) (index : Index) (world : World J) (path : Path)
    (source : Option Variant) (verified : Bool) (now : String) : Outcome J :=
  match newEntry env world path source verified now with
  | .error e => ⟨.error e, index, world⟩
  | .ok entry =>
    let index := index.insert entry.key entry
    let (saved, world) := save json faults index world
    ⟨saved.map fun _ => .added entry, index, world⟩

/-- Remove an entry, and optionally the file it points at. -/
def remove (faults : Faults) (index : Index) (world : World J) (key : String)
    (deleteFile : Bool) : Outcome J :=
  match index[key]? with
  | none => ⟨.ok (.removed false), index, world⟩
  | some entry =>
    let index := index.erase key
    let world :=
      if deleteFile && !faults.removeFile then
        { world with files := Function.update world.files entry.path none }
      else world
    let (saved, world) := save json faults index world
    ⟨saved.map fun _ => .removed true, index, world⟩

def Call.run (env : Apk.Env) (faults : Faults) (index : Index) (world : World J) :
    Call → Outcome J
  | .add path source verified now => Library.add json env faults index world path source verified now
  | .remove key deleteFile => Library.remove json faults index world key deleteFile

/-! ## What the operations do -/

/-- A save either writes the whole index or changes nothing. -/
theorem save_cases (faults : Faults) (index : Index) (world : World J) :
    (∃ j, json.toVecPretty index = some j ∧
      save json faults index world = (.ok (), { world with index := some j })) ∨
    ∃ e, save json faults index world = (.error e, world) := by
  unfold save
  split
  · exact Or.inr ⟨_, rfl⟩
  · split
    · exact Or.inr ⟨_, rfl⟩
    · next j hj =>
        split
        · exact Or.inr ⟨_, rfl⟩
        · split
          · exact Or.inr ⟨_, rfl⟩
          · exact Or.inl ⟨j, hj, rfl⟩

/-- Everything `add` can do: fail before any change, or insert the entry and save. -/
theorem add_cases (env : Apk.Env) (faults : Faults) (index : Index) (world : World J) (path : Path)
    (source : Option Variant) (verified : Bool) (now : String) :
    (∃ e, newEntry env world path source verified now = .error e ∧
      add json env faults index world path source verified now = ⟨.error e, index, world⟩) ∨
    ∃ entry, newEntry env world path source verified now = .ok entry ∧
      ((∃ j, json.toVecPretty (index.insert entry.key entry) = some j ∧
        add json env faults index world path source verified now
          = ⟨.ok (.added entry), index.insert entry.key entry, { world with index := some j }⟩) ∨
      ∃ e, add json env faults index world path source verified now
        = ⟨.error e, index.insert entry.key entry, world⟩) := by
  unfold add
  cases newEntry env world path source verified now with
  | error e => exact Or.inl ⟨e, rfl, rfl⟩
  | ok entry =>
      refine Or.inr ⟨entry, rfl, ?_⟩
      rcases save_cases json faults (index.insert entry.key entry) world with
        ⟨j, hj, hsave⟩ | ⟨e, hsave⟩
      · refine Or.inl ⟨j, hj, ?_⟩
        simp only [hsave]
        rfl
      · refine Or.inr ⟨e, ?_⟩
        simp only [hsave]
        rfl

theorem newEntry_of_inspect {env : Apk.Env} {world : World J} {path : Path} {data : Bytes}
    {info : PackageInfo} (hfile : world.files path = some data)
    (hinfo : Apk.inspect env data = .ok info) (source : Option Variant) (verified : Bool)
    (now : String) :
    newEntry env world path source verified now = .ok ⟨path, info, source, now, verified⟩ := by
  simp only [newEntry, hfile, hinfo]
  rfl

/-- Where nothing fails, `add` inserts what it has inspected and saves. -/
theorem add_of_inspect {env : Apk.Env} {index : Index} {world : World J} {path : Path}
    {data : Bytes} {info : PackageInfo} {j : J} {source : Option Variant} {verified : Bool}
    {now : String} (hfile : world.files path = some data)
    (hinfo : Apk.inspect env data = .ok info) (entry : Entry)
    (hentry : ⟨path, info, source, now, verified⟩ = entry)
    (hj : json.toVecPretty (index.insert entry.key entry) = some j) :
    add json env .none index world path source verified now
      = ⟨.ok (.added entry), index.insert entry.key entry, { world with index := some j }⟩ := by
  simp only [add, newEntry_of_inspect hfile hinfo, hentry, save, hj]
  rfl

/-- Where the index is then no longer text, the entry stays in memory and the save fails. -/
theorem add_of_not_utf8 {env : Apk.Env} {index : Index} {world : World J} {path : Path}
    {data : Bytes} {info : PackageInfo} {source : Option Variant} {verified : Bool} {now : String}
    (hfile : world.files path = some data) (hinfo : Apk.inspect env data = .ok info)
    (entry : Entry) (hentry : ⟨path, info, source, now, verified⟩ = entry)
    (hbad : ¬ Utf8 (index.insert entry.key entry)) :
    add json env .none index world path source verified now
      = ⟨.error .serialize, index.insert entry.key entry, world⟩ := by
  have hnone : json.toVecPretty (index.insert entry.key entry) = none := by
    rw [← Option.not_isSome_iff_eq_none, json.isSome_toVecPretty]
    exact hbad
  simp only [add, newEntry_of_inspect hfile hinfo, hentry, save, hnone]
  rfl

/-- The world after the file of a removed entry was deleted, or not. -/
def World.withoutFile (world : World J) (entry : Entry) (deleted : Bool) : World J :=
  if deleted then { world with files := Function.update world.files entry.path none } else world

/-- Everything `remove` can do: find nothing, or erase the entry, perhaps its file, and save. -/
theorem remove_cases (faults : Faults) (index : Index) (world : World J) (key : String)
    (deleteFile : Bool) :
    (index[key]? = none ∧
      remove json faults index world key deleteFile = ⟨.ok (.removed false), index, world⟩) ∨
    ∃ entry, index[key]? = some entry ∧
      ((∃ j, json.toVecPretty (index.erase key) = some j ∧
        remove json faults index world key deleteFile
          = ⟨.ok (.removed true), index.erase key,
              { world.withoutFile entry (deleteFile && !faults.removeFile) with index := some j }⟩) ∨
      ∃ e, remove json faults index world key deleteFile
        = ⟨.error e, index.erase key,
            world.withoutFile entry (deleteFile && !faults.removeFile)⟩) := by
  unfold remove
  cases index[key]? with
  | none => exact Or.inl ⟨rfl, rfl⟩
  | some entry =>
      refine Or.inr ⟨entry, rfl, ?_⟩
      rcases save_cases json faults (index.erase key)
        (world.withoutFile entry (deleteFile && !faults.removeFile)) with ⟨j, hj, hsave⟩ | ⟨e, hsave⟩
      · refine Or.inl ⟨j, hj, ?_⟩
        simp only [World.withoutFile] at hsave ⊢
        simp only [hsave]
        rfl
      · refine Or.inr ⟨e, ?_⟩
        simp only [World.withoutFile] at hsave ⊢
        simp only [hsave]
        rfl

/-- What a call makes of the map and the package files before it saves, and what it answers when the
save succeeds. -/
inductive Call.Edits (env : Apk.Env) (faults : Faults) (index : Index) (world : World J) :
    Call → Index → World J → Reply → Prop where
  | add {path : Path} {source : Option Variant} {verified : Bool} {now : String} {entry : Entry}
      (hentry : newEntry env world path source verified now = .ok entry) :
      Edits env faults index world (.add path source verified now) (index.insert entry.key entry)
        world (.added entry)
  | remove {key : String} {deleteFile : Bool} {entry : Entry} (hentry : index[key]? = some entry) :
      Edits env faults index world (.remove key deleteFile) (index.erase key)
        (world.withoutFile entry (deleteFile && !faults.removeFile)) (.removed true)

/-- Everything a call can do: return with nothing changed, or edit, then save or fail to. -/
theorem Call.run_cases (env : Apk.Env) (faults : Faults) (index : Index) (world : World J)
    (call : Call) :
    (∃ r, call.run json env faults index world = ⟨r, index, world⟩) ∨
    ∃ index' world' reply, call.Edits env faults index world index' world' reply ∧
      ((∃ j, json.toVecPretty index' = some j ∧
        call.run json env faults index world
          = ⟨.ok reply, index', { world' with index := some j }⟩) ∨
      ∃ e, call.run json env faults index world = ⟨.error e, index', world'⟩) := by
  cases call with
  | add path source verified now =>
      rcases add_cases json env faults index world path source verified now with
        ⟨e, -, hrun⟩ | ⟨entry, hentry, hsaved⟩
      · exact Or.inl ⟨_, hrun⟩
      · exact Or.inr ⟨_, _, _, .add hentry, hsaved⟩
  | remove key deleteFile =>
      rcases remove_cases json faults index world key deleteFile with
        ⟨-, hrun⟩ | ⟨entry, hentry, hsaved⟩
      · exact Or.inl ⟨_, hrun⟩
      · exact Or.inr ⟨_, _, _, .remove hentry, hsaved⟩

/-- An edit leaves the index file alone. -/
theorem Call.Edits.index_eq {env : Apk.Env} {faults : Faults} {index index' : Index}
    {world world' : World J} {call : Call} {reply : Reply}
    (h : call.Edits env faults index world index' world' reply) : world'.index = world.index := by
  cases h with
  | add hentry => rfl
  | remove hentry =>
      unfold World.withoutFile
      split <;> rfl

/-! ## Small packages

An APK that is nothing but the small manifest, and two bundles of it that differ in their ABI split
only, byte for byte; and libraries that read these three files as the real ones do. -/

def baseMembers : List Apk.Stored :=
  [⟨"AndroidManifest.xml", 0x66ea8750, Apk.Axml.smallDocument.bytes⟩]

def baseApk : Bytes := Apk.Stored.zip baseMembers

def bundleMembers (split : String) : List Apk.Stored :=
  [⟨"base.apk", 0x5633f2f2, baseApk⟩, ⟨split, 0, []⟩]

def armBundle : Bytes := Apk.Stored.zip (bundleMembers "config.arm64_v8a.apk")
def x86Bundle : Bytes := Apk.Stored.zip (bundleMembers "config.x86_64.apk")

def baseDigest : Bytes :=
  [0x81, 0x4f, 0x76, 0xf8, 0x6d, 0x45, 0xc5, 0x42, 0x6e, 0x2d, 0x22, 0xa0,
    0x98, 0xf8, 0xd3, 0x7e, 0x77, 0x1e, 0x25, 0x6e, 0xc6, 0x30, 0x26, 0x65,
    0x23, 0x0b, 0x1d, 0x1f, 0xf0, 0x8a, 0x78, 0xb0]

def armDigest : Bytes :=
  [0x95, 0x66, 0x40, 0x8b, 0x66, 0xac, 0x3c, 0xf9, 0xf4, 0x29, 0xd4, 0xaf,
    0x43, 0xa9, 0x84, 0xde, 0xf6, 0xf8, 0xe5, 0x54, 0x56, 0xbe, 0x9e, 0x32,
    0x2a, 0xf4, 0x8a, 0x5e, 0x07, 0x92, 0x6e, 0x29]

def x86Digest : Bytes :=
  [0xc8, 0xfb, 0xec, 0x6f, 0x8e, 0x3e, 0x50, 0xef, 0x15, 0x79, 0x83, 0xb1,
    0xa9, 0x63, 0x67, 0xdd, 0xe7, 0xf7, 0x7a, 0x1d, 0xb0, 0x44, 0x68, 0xdc,
    0x64, 0xbf, 0x54, 0xa8, 0xb2, 0x4f, 0x18, 0xd7]

def smallEnv : Apk.Env where
  width := .w64
  zip := fun data =>
    if data = baseApk then .ok (Apk.Stored.archive baseMembers (by decide))
    else if data = armBundle then
      .ok (Apk.Stored.archive (bundleMembers "config.arm64_v8a.apk") (by decide))
    else if data = x86Bundle then
      .ok (Apk.Stored.archive (bundleMembers "config.x86_64.apk") (by decide))
    else .error (.other "invalid Zip archive")
  sha256 := fun data =>
    if data = baseApk then baseDigest else if data = armBundle then armDigest else x86Digest
  showFloat := fun _ => ""

/-- What `inspect` says of the APK. -/
def baseInfo : PackageInfo where
  kind := .apk
  package := "a.b"
  versionName := none
  versionCode := none
  label := none
  minSdk := some 23
  targetSdk := none
  split := none
  abis := []
  permissions := []
  launchableActivities := []
  containedApks := []
  fileSize := 417
  sha256 := "814f76f86d45c5426e2d22a098f8d37e771e256ec6302665230b1d1ff08a78b0"

/-- What `inspect` says of a bundle of it. -/
def bundleInfo (abi split : String) (fileSize : Nat) (sha256 : String) : PackageInfo :=
  { baseInfo with
    kind := .bundle
    abis := [abi]
    containedApks := ["base.apk", split]
    fileSize := fileSize
    sha256 := sha256 }

def armInfo : PackageInfo :=
  bundleInfo "arm64-v8a" "config.arm64_v8a.apk" 647
    "9566408b66ac3cf9f429d4af43a984def6f8e55456be9e322af48a5e07926e29"

def x86Info : PackageInfo :=
  bundleInfo "x86-64" "config.x86_64.apk" 641
    "c8fbec6f8e3e50ef157983b1a96367dde7f77a1db04468dc64bf54a8b24f18d7"

theorem inspect_baseApk : Apk.inspect smallEnv baseApk = .ok baseInfo := by decide +kernel
theorem inspect_armBundle : Apk.inspect smallEnv armBundle = .ok armInfo := by decide +kernel
theorem inspect_x86Bundle : Apk.inspect smallEnv x86Bundle = .ok x86Info := by decide +kernel

/-- An index file that holds what its text says. -/
def plainJson : SerdeJson Index where
  toVecPretty index :=
    if index.toList.all (fun entry => entry.2.path.isUtf8) then some index else none
  fromSlice := some
  isSome_toVecPretty index := by
    rw [Option.isSome_ite, List.all_eq_true, Utf8]
    constructor
    · intro h k e hk
      exact h (k, e) (Std.ExtTreeMap.mem_toList_iff_getElem?_eq_some.mpr hk)
    · rintro h ⟨k, e⟩ hk
      exact h k e (Std.ExtTreeMap.mem_toList_iff_getElem?_eq_some.mp hk)
  fromSlice_toVecPretty index j h := by
    split at h
    · exact h.symm
    · cases h

theorem toVecPretty_plainJson {index : Index} (h : Utf8 index) :
    plainJson.toVecPretty index = some index := by
  obtain ⟨j, hj⟩ := Option.isSome_iff_exists.mp ((plainJson.isSome_toVecPretty index).mpr h)
  cases plainJson.fromSlice_toVecPretty index j hj
  exact hj

/-- With such an index file, a package under a path that is text can always be added. -/
theorem add_plainJson {env : Apk.Env} {index : Index} {world : World Index} {path : Path}
    {data : Bytes} {info : PackageInfo} {source : Option Variant} {verified : Bool} {now : String}
    (hindex : Utf8 index) (hpath : Path.isUtf8 path) (hfile : world.files path = some data)
    (hinfo : Apk.inspect env data = .ok info) (entry : Entry)
    (hentry : ⟨path, info, source, now, verified⟩ = entry) :
    add plainJson env .none index world path source verified now
      = ⟨.ok (.added entry), index.insert entry.key entry,
          ⟨some (index.insert entry.key entry), world.files⟩⟩ := by
  have hentryPath : Path.isUtf8 entry.path := hentry ▸ hpath
  have hsaved := toVecPretty_plainJson (hindex.insert entry.key entry hentryPath)
  rw [add_of_inspect plainJson hfile hinfo entry hentry hsaved]

end Xylitol.Library
