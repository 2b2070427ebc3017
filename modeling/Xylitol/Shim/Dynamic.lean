import Xylitol.Segments
import Xylitol.Shim.Elf

/-!
# The dynamic table, as the loader reads it

A dynamic table ends at its first `DT_NULL`; what stands behind it is spare room that a linker left,
and a tag counts with all of its 64 bits. The code reads every entry of the section and looks at the
low half of each tag. `dynamicOf_eq_loader_iff` says for which tables that makes no difference.
-/

namespace Xylitol.Shim.Elf

def DT_NULL : UInt64 := 0

namespace DynamicEntry

/-- The text the value names, as far as it names one. -/
def text (e : DynamicEntry) : Option String := e.string.map fromUtf8Lossy

@[simp] theorem text_eq_none {e : DynamicEntry} : e.text = none ↔ e.string = none :=
  Option.map_eq_none_iff

/-- The tag, read from its low 32 bits. -/
def LooksLike (e : DynamicEntry) (tag : UInt32) : Prop := e.tag.toUInt32 = tag

/-- The tag with all of its bits. -/
def Is (e : DynamicEntry) (tag : UInt32) : Prop := e.tag = tag.toUInt64

instance (e : DynamicEntry) (tag : UInt32) : Decidable (e.LooksLike tag) :=
  inferInstanceAs (Decidable (e.tag.toUInt32 = tag))

instance (e : DynamicEntry) (tag : UInt32) : Decidable (e.Is tag) :=
  inferInstanceAs (Decidable (e.tag = tag.toUInt64))

theorem Is.looksLike {tag : UInt32} {e : DynamicEntry} (h : e.Is tag) : e.LooksLike tag := by
  rw [LooksLike, h]
  exact UInt32.toUInt32_toUInt64 tag

end DynamicEntry

variable {entries : List DynamicEntry}

/-! ## What the loader reads -/

/-- The entries in front of the first `DT_NULL`. -/
def live (entries : List DynamicEntry) : List DynamicEntry :=
  entries.takeWhile (·.tag ≠ DT_NULL)

/-- The first `DT_NULL` and what stands behind it. -/
def spare (entries : List DynamicEntry) : List DynamicEntry :=
  entries.dropWhile (·.tag ≠ DT_NULL)

/-- The object's own last name for itself. -/
def ownName (entries : List DynamicEntry) : Option DynamicEntry :=
  ((live entries).filter (·.Is DT_SONAME)).getLast?

/-- The name of the object and the libraries it needs. -/
def loaderView (entries : List DynamicEntry) : Option String × List String :=
  ((ownName entries).bind DynamicEntry.text,
    ((live entries).filter (·.Is DT_NEEDED)).filterMap DynamicEntry.text)

/-! ## What the code reads -/

/-- The last entry of the section that looks like a name and has one. -/
def lastName (entries : List DynamicEntry) : Option DynamicEntry :=
  (entries.filter fun e => e.LooksLike DT_SONAME ∧ e.string.isSome).getLast?

/-- The loader skips nothing the code reads: no tag with high bits and no entry behind the terminator
names a library, and the name the code finds last is what the object calls itself. -/
structure Tidy (entries : List DynamicEntry) : Prop where
  live : ∀ e ∈ live entries, e.LooksLike DT_NEEDED → ¬ e.Is DT_NEEDED → e.string = none
  spare : ∀ e ∈ spare entries, e.LooksLike DT_NEEDED → e.string = none
  soname : ∀ e, lastName entries = some e → (ownName entries).bind DynamicEntry.text = e.text

/-- One entry: a name replaces the one so far, a library is added. -/
theorem dynamicEntry_eq (acc : Option String × List String) (e : DynamicEntry) :
    dynamicEntry acc e = ((if e.LooksLike DT_SONAME then e.text else none).or acc.1,
      acc.2 ++ (if e.LooksLike DT_NEEDED then e.text else none).toList) := by
  have hne : DT_SONAME ≠ DT_NEEDED := by decide
  by_cases hname : e.LooksLike DT_SONAME
  · have htag : e.tag.toUInt32 = DT_SONAME := hname
    have hneeded : ¬ e.LooksLike DT_NEEDED := fun h => hne (htag.symm.trans h)
    rw [if_pos hname, if_neg hneeded, dynamicEntry, htag]
    cases hstring : e.string <;> simp [DynamicEntry.text, hstring]
  · have htag : ¬ e.tag.toUInt32 = DT_SONAME := hname
    rw [if_neg hname, dynamicEntry]
    by_cases hneeded : e.LooksLike DT_NEEDED
    · have hneededTag : e.tag.toUInt32 = DT_NEEDED := hneeded
      rw [if_pos hneeded, if_neg htag, if_pos hneededTag]
      cases hstring : e.string <;> simp [DynamicEntry.text, hstring]
    · have hneededTag : ¬ e.tag.toUInt32 = DT_NEEDED := hneeded
      rw [if_neg hneeded, if_neg htag, if_neg hneededTag]
      simp

theorem lastName_concat (entries : List DynamicEntry) (e : DynamicEntry) :
    (lastName (entries ++ [e])).bind DynamicEntry.text
      = (if e.LooksLike DT_SONAME then e.text else none).or
        ((lastName entries).bind DynamicEntry.text) := by
  rw [lastName, List.filter_append]
  by_cases hname : e.LooksLike DT_SONAME
  · cases hstring : e.string with
    | none => simp [hname, hstring, DynamicEntry.text, lastName]
    | some s => simp [hname, hstring, DynamicEntry.text]
  · simp [hname, lastName]

/-- What the loop over a table has read. -/
theorem foldl_dynamicEntry (entries : List DynamicEntry) (acc : Option String × List String) :
    entries.foldl dynamicEntry acc = (((lastName entries).bind DynamicEntry.text).or acc.1,
      acc.2 ++ entries.filterMap fun e => if e.LooksLike DT_NEEDED then e.text else none) := by
  induction entries using List.reverseRecOn with
  | nil => simp [lastName]
  | append_singleton entries e ih =>
    rw [List.foldl_append, ih, List.foldl_cons, List.foldl_nil, dynamicEntry_eq, lastName_concat,
      Option.or_assoc, List.append_assoc, List.filterMap_append]
    congr 3

/-! ## When the two agree -/

theorem needed_eq_iff : (entries.filterMap fun e => if e.LooksLike DT_NEEDED then e.text else none)
      = (loaderView entries).2 ↔
    (∀ e ∈ live entries, e.LooksLike DT_NEEDED → ¬ e.Is DT_NEEDED → e.string = none) ∧
      ∀ e ∈ spare entries, e.LooksLike DT_NEEDED → e.string = none := by
  have hsplit : live entries ++ spare entries = entries := List.takeWhile_append_dropWhile
  have hle : ∀ e ∈ live entries, ∀ s, (if e.Is DT_NEEDED then e.text else none) = some s →
      (if e.LooksLike DT_NEEDED then e.text else none) = some s := by
    intro e _ s h
    split at h
    · next hneeded => rw [if_pos hneeded.looksLike, h]
    · cases h
  have hview : (loaderView entries).2
      = (live entries).filterMap fun e => if e.Is DT_NEEDED then e.text else none := by
    rw [loaderView, List.filterMap_filter]
    simp only [decide_eq_true_eq]
  rw [hview]
  conv_lhs => lhs; rw [← hsplit]
  rw [filterMap_append_eq_iff hle]
  refine and_congr (forall₂_congr fun e _ => ?_) (forall₂_congr fun e _ => ?_)
  · by_cases his : e.Is DT_NEEDED
    · simp [his, his.looksLike]
    · simp [his]
  · simp

/-- What the code looks for last is there when the loader finds a name. -/
theorem soname_eq_iff :
    (lastName entries).bind DynamicEntry.text = (loaderView entries).1 ↔
      ∀ e, lastName entries = some e → (ownName entries).bind DynamicEntry.text = e.text := by
  show _ = (ownName entries).bind DynamicEntry.text ↔ _
  cases hlast : lastName entries with
  | some e => simp [eq_comm]
  | none =>
    -- the object's own name looks like one, so it has no string either
    have hown : (ownName entries).bind DynamicEntry.text = none := by
      cases hname : ownName entries with
      | none => rfl
      | some own =>
        obtain ⟨hlive, his⟩ := List.mem_filter.mp (List.mem_of_getLast? hname)
        have hmem : own ∈ entries := (List.takeWhile_sublist _).subset hlive
        have hnone := List.filter_eq_nil_iff.mp (List.getLast?_eq_none_iff.mp hlast) own hmem
        have hlooks : own.LooksLike DT_SONAME := (of_decide_eq_true his).looksLike
        simpa [hlooks, DynamicEntry.text] using hnone
    simp [hown]

/-- The code reads a table as the loader does exactly when the table is tidy. -/
theorem dynamicOf_eq_loader_iff (table : DynamicTable) :
    dynamicOf [table] (none, []) = .ok (loaderView table.entries) ↔
      table.strings = .ok () ∧ Tidy table.entries := by
  cases hstrings : table.strings with
  | error reason => simp [dynamicOf, hstrings]
  | ok u =>
    have hread : dynamicOf [table] (none, []) = .ok ((lastName table.entries).bind DynamicEntry.text,
        table.entries.filterMap fun e => if e.LooksLike DT_NEEDED then e.text else none) := by
      rw [dynamicOf, hstrings, ok_bind, dynamicOf, foldl_dynamicEntry, Option.or_none,
        List.nil_append]
    rw [hread, Except.ok.injEq, and_iff_right rfl]
    constructor
    · intro h
      obtain ⟨hlive, hspare⟩ := needed_eq_iff.mp (congrArg Prod.snd h)
      exact ⟨hlive, hspare, soname_eq_iff.mp (congrArg Prod.fst h)⟩
    · intro h
      exact Prod.ext (soname_eq_iff.mpr h.soname) (needed_eq_iff.mpr ⟨h.live, h.spare⟩)

/-- A table with spare room that still names a library, and a tag with its high bits set. -/
def untidy : DynamicTable where
  strings := .ok ()
  entries :=
    [⟨1, some (utf8Bytes "libc.so")⟩, ⟨14, some (utf8Bytes "libapp.so")⟩,
      ⟨0x6ffffff5_00000001, some (utf8Bytes "libhigh.so")⟩, ⟨0, some []⟩,
      ⟨1, some (utf8Bytes "libold.so")⟩, ⟨14, some (utf8Bytes "libwas.so")⟩]

/-- The loader needs one library, the code lists three and takes the name from the spare room. -/
theorem spare_entries_are_read :
    loaderView untidy.entries = (some "libapp.so", ["libc.so"]) ∧
      dynamicOf [untidy] (none, [])
        = .ok (some "libwas.so", ["libc.so", "libhigh.so", "libold.so"]) ∧
      dynamicOf [untidy] (none, []) ≠ .ok (loaderView untidy.entries) := by
  have hlive : live untidy.entries = untidy.entries.take 3 := rfl
  have hloader : loaderView untidy.entries = (some "libapp.so", ["libc.so"]) := by
    rw [loaderView, ownName, hlive]
    simp [untidy, DynamicEntry.Is, DynamicEntry.text, DT_NEEDED, DT_SONAME,
      fromUtf8Lossy_utf8Bytes]
  have hcode : dynamicOf [untidy] (none, [])
      = .ok (some "libwas.so", ["libc.so", "libhigh.so", "libold.so"]) := by
    simp [untidy, dynamicOf, dynamicEntry, DT_NEEDED, DT_SONAME, fromUtf8Lossy_utf8Bytes]
  refine ⟨hloader, hcode, ?_⟩
  rw [hloader, hcode]
  decide

end Xylitol.Shim.Elf
