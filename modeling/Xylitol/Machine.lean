import Xylitol.Apkpure.Download.Scraped
import Xylitol.Apkpure.Files
import Xylitol.Cli.Select
import Xylitol.Library.Invariant
import Xylitol.Library.Newest

/-!
# The machine both front-ends work on

The command line and the window have the disk and the index file in common. An entry comes into the
index where a file is recorded, and what it says has been so: at some moment the file in its place was
the one it describes, and a variant it names was in a list that the client had returned. `Vouched`
says it of one entry and `Sound` of an index, given what has happened so far, the `Past`.
-/

namespace Xylitol

open Apkpure

/-- The libraries the program is built with, and where its downloads go by default. -/
structure Tools (J : Type) where
  fmt : Cli.Fmt
  web : Web
  json : Library.SerdeJson J
  env : Apk.Env
  sha1 : Bytes → Bytes
  downloadDir : Path

/-- The files of the machine, and what the index file holds. -/
structure Machine (J : Type) where
  disk : Disk Path
  index : Option J

variable {J : Type} {tools : Tools J} {m : Machine J}

def Machine.world (m : Machine J) : Library.World J := ⟨m.index, m.disk.read⟩

/-- The machine after a call of the library, which writes no file but its own and may delete some. -/
def Machine.settle (m : Machine J) (world : Library.World J) : Machine J :=
  ⟨m.disk.keep fun p => (world.files p).isSome, world.index⟩

/-! ## Calls of the library -/

/-- A call that deletes nothing leaves the disk as it is. -/
theorem Machine.settle_same (m : Machine J) (index : Option J) :
    m.settle { m.world with index := index } = { m with index := index } := by
  rw [settle, world, m.disk.keep_read]

/-- The index that is on file. -/
def Machine.recorded (tools : Tools J) (m : Machine J) : Library.Index :=
  Library.recorded tools.json m.world

theorem recorded_write {index : Library.Index} {j : J}
    (hj : tools.json.toVecPretty index = some j) (disk : Disk Path) :
    Machine.recorded tools ⟨disk, some j⟩ = index := by
  rw [Machine.recorded, Library.recorded]
  show ((some j).bind tools.json.fromSlice).getD ∅ = index
  rw [Option.bind_some, tools.json.fromSlice_toVecPretty index j hj, Option.getD_some]

/-- What is listed when the library is opened: the recorded entries of which the file is there. -/
def Machine.listed (tools : Tools J) (m : Machine J) : Library.Index :=
  (m.recorded tools).filter fun _ e => (m.disk.read e.path).isSome

theorem openAt_eq_ok {faults : Library.Faults} {index : Library.Index}
    (h : Library.openAt tools.json faults m.world = .ok index) : index = m.listed tools := by
  unfold Library.openAt at h
  split at h
  · cases h
  · cases h
    rfl

theorem newEntry_eq_ok {world : Library.World J} {path : Path} {source : Option Variant}
    {verified : Bool} {now : String} {entry : Library.Entry}
    (h : Library.newEntry tools.env world path source verified now = .ok entry) :
    ∃ content info, world.files path = some content ∧ Apk.inspect tools.env content = .ok info ∧
      entry = ⟨path, info, source, now, verified⟩ := by
  unfold Library.newEntry at h
  split at h
  · cases h
  · next content hcontent =>
      obtain ⟨info, hinfo, h⟩ := bind_eq_ok.mp h
      cases h
      exact ⟨content, info, hcontent, mapError_eq_ok.mp hinfo, rfl⟩

/-- An `add` on a machine leaves every file but the index file alone: it cannot read the package, or
it puts a new entry into the map and then writes the map or fails to. -/
theorem add_settle (tools : Tools J) (index : Library.Index) (m : Machine J)
    (faults : Library.Faults) (path : Path) (source : Option Variant) (verified : Bool)
    (now : String) :
    let after := Library.add tools.json tools.env faults index m.world path source verified now
    (∃ e, after.result = .error e ∧ after.index = index ∧ m.settle after.world = m) ∨
      ∃ content info,
        let entry : Library.Entry := ⟨path, info, source, now, verified⟩
        m.disk.read path = some content ∧ Apk.inspect tools.env content = .ok info ∧
        after.index = index.insert entry.key entry ∧
        ((∃ e, after.result = .error e ∧ m.settle after.world = m) ∨
          ∃ j, tools.json.toVecPretty after.index = some j ∧ after.result = .ok (.added entry) ∧
            m.settle after.world = ⟨m.disk, some j⟩) := by
  rcases Library.add_cases tools.json tools.env faults index m.world path source verified
    now with ⟨e, -, hadd⟩ | ⟨entry, hentry, ⟨j, hj, hadd⟩ | ⟨e, hadd⟩⟩
  · rw [hadd]
    exact Or.inl ⟨e, rfl, rfl, m.settle_same m.index⟩
  · obtain ⟨content, info, hcontent, hinfo, rfl⟩ := newEntry_eq_ok hentry
    rw [hadd]
    exact Or.inr ⟨content, info, hcontent, hinfo, rfl, Or.inr ⟨j, hj, rfl, m.settle_same (some j)⟩⟩
  · obtain ⟨content, info, hcontent, hinfo, rfl⟩ := newEntry_eq_ok hentry
    rw [hadd]
    exact Or.inr ⟨content, info, hcontent, hinfo, rfl, Or.inl ⟨e, rfl, m.settle_same m.index⟩⟩

/-- A `remove` on a machine takes an entry out of the map and its file away or not, and then writes
the map or fails to; no other file is touched. -/
theorem remove_settle (tools : Tools J) (index : Library.Index) (m : Machine J)
    (faults : Library.Faults) (key : String) (deleteFile : Bool) :
    let after := Library.remove tools.json faults index m.world key deleteFile
    let m' := m.settle after.world
    (after.index = index ∧ m' = m) ∨
      ∃ entry, index[key]? = some entry ∧ after.index = index.erase key ∧
        (∀ p, p ≠ entry.path → Disk.SameAt p m.disk m'.disk) ∧
        (∀ p x, m'.disk.read p = some x → m.disk.read p = some x) ∧
        (m'.index = m.index ∨
          ∃ j, tools.json.toVecPretty after.index = some j ∧ m'.index = some j) := by
  have hfiles : ∀ (entry : Library.Entry) (delete : Bool) (i : Option J),
      let m' := m.settle { m.world.withoutFile entry delete with index := i }
      (∀ p, p ≠ entry.path → Disk.SameAt p m.disk m'.disk) ∧
        ∀ p x, m'.disk.read p = some x → m.disk.read p = some x := by
    intro entry delete i
    constructor
    · intro p hp
      apply Disk.sameAt_keep
      unfold Library.World.withoutFile
      split
      · exact congrArg Option.isSome (Function.update_of_ne hp _ _)
      · rfl
    · intro p x hx
      rw [Machine.settle, Disk.read_keep] at hx
      split at hx
      · exact hx
      · cases hx
  have hindex : ∀ (entry : Library.Entry) (delete : Bool),
      (m.world.withoutFile entry delete).index = m.index := by
    intro entry delete
    unfold Library.World.withoutFile
    split <;> rfl
  rcases Library.remove_cases tools.json faults index m.world key deleteFile with
    ⟨-, hremove⟩ | ⟨entry, hget, ⟨j, hj, hremove⟩ | ⟨e, hremove⟩⟩
  · rw [hremove]
    exact Or.inl ⟨rfl, m.settle_same m.index⟩
  · rw [hremove]
    obtain ⟨hothers, hreads⟩ := hfiles entry (deleteFile && !faults.removeFile) (some j)
    exact Or.inr ⟨entry, hget, rfl, hothers, hreads, Or.inr ⟨j, hj, rfl⟩⟩
  · rw [hremove]
    have hsame := hindex entry (deleteFile && !faults.removeFile)
    obtain ⟨hothers, hreads⟩ := hfiles entry (deleteFile && !faults.removeFile) m.index
    rw [← hsame] at hothers hreads
    exact Or.inr ⟨entry, hget, rfl, hothers, hreads, Or.inl hsame⟩

theorem listed_listed_iff {e : Library.Entry} : Library.Listed (m.listed tools) e ↔
    Library.Listed (m.recorded tools) e ∧ (m.disk.read e.path).isSome := by
  constructor
  · rintro ⟨k, hk⟩
    rw [Machine.listed, Std.ExtTreeMap.getElem?_filter, Option.pfilter_eq_some_iff] at hk
    exact ⟨⟨k, hk.1⟩, hk.2⟩
  · rintro ⟨⟨k, hk⟩, hfile⟩
    refine ⟨k, ?_⟩
    rw [Machine.listed, Std.ExtTreeMap.getElem?_filter, Option.pfilter_eq_some_iff]
    exact ⟨hk, hfile⟩

/-- The machine after an entry was removed, with its file or without. -/
def Machine.without (m : Machine J) (entry : Library.Entry) (delete : Bool) (j : J) : Machine J :=
  m.settle { m.world.withoutFile entry delete with index := some j }

theorem read_without (m : Machine J) (entry : Library.Entry) (delete : Bool) (j : J) (p : Path) :
    (m.without entry delete j).disk.read p =
      if delete = true ∧ p = entry.path then none else m.disk.read p := by
  rw [Machine.without, Machine.settle, Disk.read_keep, Library.World.withoutFile]
  cases delete with
  | false =>
      rw [if_neg (show ¬ (false = true) by decide), if_neg (show ¬ (false = true ∧ _) by simp)]
      show (if (m.disk.read p).isSome then m.disk.read p else none) = m.disk.read p
      cases m.disk.read p <;> rfl
  | true =>
      rw [if_pos rfl]
      show (if (Function.update m.disk.read entry.path none p).isSome then m.disk.read p else none) = _
      rw [Function.update_apply]
      by_cases hp : p = entry.path
      · simp [hp]
      · cases hread : m.disk.read p <;> simp [hp]

/-! ## What an entry says -/

/-- The client asks for the files of a package, and the site answers. -/
structure Fetch where
  package : String
  version : Option String
  page : Nat → Option Response

/-- The list that the client returns has the file. -/
def Fetch.Lists (web : Web) (r : Fetch) (v : Variant) : Prop :=
  ∃ all, Client.fetchVariants web r.package r.version r.page = .ok all ∧ v ∈ all

theorem Fetch.Lists.scraped {web : Web} {r : Fetch} {v : Variant} (h : r.Lists web v) :
    v.Scraped web.parseSize r.package := by
  obtain ⟨all, hall, hmem⟩ := h
  exact Client.scraped_of_fetchVariants hall hmem

/-- What has happened so far: what there was in the place of an entry at a moment when the entry was
there, and what the site was asked. -/
structure Past where
  held : Library.Entry → Bytes → Prop
  asked : Fetch → Prop

/-- Nothing is forgotten. -/
structure Past.Before (past later : Past) : Prop where
  held : ∀ e content, past.held e content → later.held e content
  asked : ∀ r, past.asked r → later.asked r

/-- What the entry says is so of this content: it is a package of this description, and, where it was
downloaded, a file that one of the requests has listed, under the name the client gives it, with every
digest that the site published. -/
def Describes (tools : Tools J) (asked : Fetch → Prop) (e : Library.Entry) (content : Bytes) :
    Prop :=
  Apk.inspect tools.env content = .ok e.info ∧
    match e.source with
    | none => e.verified = false
    | some v => (∃ r, asked r ∧ r.Lists tools.web v) ∧ (∃ dir, e.path = Job.finalPath ⟨v, dir⟩) ∧
        e.verified = v.sha1.isSome ∧ ∀ s ∈ v.sha1, Text.hex (tools.sha1 content) = s

/-- What the entry says was so of the file in its place while it was there. -/
def Vouched (tools : Tools J) (past : Past) (e : Library.Entry) : Prop :=
  ∃ content, past.held e content ∧ Describes tools past.asked e content

/-- Every entry of the index is under its own key, can be written, and is vouched for. -/
structure Sound (tools : Tools J) (past : Past) (index : Library.Index) : Prop where
  keyed : Library.Keyed index
  utf8 : Library.Utf8 index
  vouched : ∀ (k : String) (e : Library.Entry), index[k]? = some e → Vouched tools past e

section

variable {past later : Past}

theorem Describes.imp {asked asked' : Fetch → Prop} {e : Library.Entry} {content : Bytes}
    (h : Describes tools asked e content) (hasked : ∀ r, asked r → asked' r) :
    Describes tools asked' e content := by
  refine ⟨h.1, ?_⟩
  have hsource := h.2
  split
  · next hnone =>
      rw [hnone] at hsource
      exact hsource
  · next v hv =>
      rw [hv] at hsource
      obtain ⟨⟨r, hr, hlists⟩, hrest⟩ := hsource
      exact ⟨⟨r, hasked r hr, hlists⟩, hrest⟩

/-- What was vouched for stays so. -/
theorem Vouched.kept {e : Library.Entry} (h : Vouched tools past e) (hlater : past.Before later) :
    Vouched tools later e := by
  obtain ⟨content, hheld, hdescribes⟩ := h
  exact ⟨content, hlater.held e content hheld, hdescribes.imp hlater.asked⟩

theorem Sound.kept {index : Library.Index} (h : Sound tools past index)
    (hlater : past.Before later) : Sound tools later index :=
  ⟨h.keyed, h.utf8, fun k e he => (h.vouched k e he).kept hlater⟩

theorem sound_empty : Sound tools past ∅ := by
  refine ⟨Library.keyed_empty, Library.utf8_empty, ?_⟩
  intro k e he
  simp at he

theorem Sound.filter {index : Library.Index} (h : Sound tools past index)
    (keep : String → Library.Entry → Bool) : Sound tools past (index.filter keep) := by
  have hsub : ∀ (k : String) (e : Library.Entry), (index.filter keep)[k]? = some e →
      index[k]? = some e := by
    intro k e he
    rw [Std.ExtTreeMap.getElem?_filter, Option.pfilter_eq_some_iff] at he
    exact he.1
  exact ⟨Library.keyed_filter h.keyed keep, fun k e he => h.utf8 k e (hsub k e he),
    fun k e he => h.vouched k e (hsub k e he)⟩

theorem Sound.erase {index : Library.Index} (h : Sound tools past index) (key : String) :
    Sound tools past (index.erase key) := by
  have hsub : ∀ (k : String) (e : Library.Entry), (index.erase key)[k]? = some e →
      index[k]? = some e := by
    intro k e he
    rw [Std.ExtTreeMap.getElem?_erase] at he
    split at he
    · cases he
    · exact he
  exact ⟨Library.keyed_erase h.keyed key, fun k e he => h.utf8 k e (hsub k e he),
    fun k e he => h.vouched k e (hsub k e he)⟩

/-- What is written is text. -/
theorem sound_of_written {index : Library.Index} {j : J} (hkeyed : Library.Keyed index)
    (hvouched : ∀ (k : String) (e : Library.Entry), index[k]? = some e → Vouched tools past e)
    (hj : tools.json.toVecPretty index = some j) : Sound tools past index := by
  refine ⟨hkeyed, ?_, hvouched⟩
  rw [← tools.json.isSome_toVecPretty, hj]
  rfl

theorem vouched_insert {index : Library.Index} {entry : Library.Entry}
    (h : ∀ (k : String) (e : Library.Entry), index[k]? = some e → Vouched tools past e)
    (hvouched : Vouched tools past entry) (k : String) (e : Library.Entry)
    (he : (index.insert entry.key entry)[k]? = some e) : Vouched tools past e := by
  rw [Std.ExtTreeMap.getElem?_insert] at he
  split at he
  · cases he
    exact hvouched
  · exact h k e he

theorem Sound.insert {index : Library.Index} {entry : Library.Entry} {j : J}
    (h : Sound tools past index) (hvouched : Vouched tools past entry)
    (hj : tools.json.toVecPretty (index.insert entry.key entry) = some j) :
    Sound tools past (index.insert entry.key entry) :=
  sound_of_written (Library.keyed_insert h.keyed entry) (vouched_insert h.vouched hvouched) hj

end

/-- The entry of a download describes what was fetched. -/
theorem describes_download {asked : Fetch → Prop} {r : Fetch} {v : Variant} {dir : Path}
    {content : Bytes} {info : Apk.PackageInfo} {digest now : String} {verified : Bool}
    (hasked : asked r) (hlists : r.Lists tools.web v)
    (hverdict : Verdict ⟨v, dir⟩ digest verified) (hdigest : digest = Text.hex (tools.sha1 content))
    (hinfo : Apk.inspect tools.env content = .ok info) :
    Describes tools asked ⟨Job.finalPath ⟨v, dir⟩, info, some v, now, verified⟩ content := by
  obtain ⟨hverified, hsha1⟩ := Verdict.of_scraped hlists.scraped hverdict
  rw [hdigest] at hsha1
  exact ⟨hinfo, ⟨r, hasked, hlists⟩, ⟨dir, rfl⟩, hverified, hsha1⟩

theorem recorded_congr {m m' : Machine J} (h : m'.index = m.index) :
    m'.recorded tools = m.recorded tools := by
  rw [Machine.recorded, Machine.recorded, Library.recorded, Library.recorded]
  show (m'.index.bind _).getD ∅ = (m.index.bind _).getD ∅
  rw [h]

/-! ## The list -/

theorem mem_entries_iff {index : Library.Index} {e : Library.Entry} :
    e ∈ Library.entries index ↔ Library.Listed index e := by
  constructor
  · intro h
    rw [Library.entries, List.mem_insertionSort, List.mem_map] at h
    obtain ⟨⟨k, e'⟩, hmem, rfl⟩ := h
    exact ⟨k, Std.ExtTreeMap.mem_toList_iff_getElem?_eq_some.mp hmem⟩
  · rintro ⟨k, hk⟩
    exact Library.mem_entries hk

theorem openAt_none (m : Machine J) :
    Library.openAt tools.json .none m.world = .ok (m.listed tools) := rfl

end Xylitol
