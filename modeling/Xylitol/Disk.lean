import Xylitol.Bytes

/-!
# Files, names and handles

A disk is a set of files and the names that refer to them. Opening a name gives a handle on the file
behind it, and the handle stays on that file whatever happens to the name: a rename moves the name,
a second `create` empties the file under both handles.

    name ──names──▶ file ──data──▶ bytes          handle ─────▶ file
-/

namespace Xylitol

/-- The names of a disk and what the files hold. A file has at most one name, and files from `next`
on are not in use. -/
structure Disk (P : Type) where
  names : P → Option Nat
  data : Nat → Bytes
  next : Nat
  names_lt : ∀ p i, names p = some i → i < next
  names_inj : ∀ p q i, names p = some i → names q = some i → p = q

/-- A file opened for writing: at an offset of its own, or always at the end. -/
structure Handle where
  file : Nat
  offset : Option Nat
  deriving DecidableEq, Repr

/-- A disk with no files. -/
def Disk.empty (P : Type) : Disk P where
  names _ := none
  data _ := []
  next := 0
  names_lt _ _ h := nomatch h
  names_inj _ _ _ h := nomatch h

/-- Writing `ys` at offset `o`; a gap is filled with zeros. -/
def overwrite (xs : Bytes) (o : Nat) (ys : Bytes) : Bytes :=
  if ys = [] then xs
  else xs.take o ++ List.replicate (o - xs.length) 0 ++ ys ++ xs.drop (o + ys.length)

theorem overwrite_length (xs ys : Bytes) : overwrite xs xs.length ys = xs ++ ys := by
  unfold overwrite
  split
  · next h => rw [h, List.append_nil]
  · simp

namespace Disk

variable {P : Type} {d : Disk P} {p q : P}

/-! ## Reading and writing -/

/-- What the file with this name holds. -/
def read (d : Disk P) (p : P) : Option Bytes := (d.names p).map d.data

/-- Puts `xs` into a file. -/
def put (d : Disk P) (i : Nat) (xs : Bytes) : Disk P :=
  { d with data := Function.update d.data i xs }

/-- Writes all bytes through a handle. -/
def write (d : Disk P) (h : Handle) (ys : Bytes) : Disk P × Handle :=
  match h.offset with
  | none => (d.put h.file (d.data h.file ++ ys), h)
  | some o => (d.put h.file (overwrite (d.data h.file) o ys), ⟨h.file, some (o + ys.length)⟩)

theorem read_put_of_ne {i : Nat} {xs : Bytes} (h : d.names q ≠ some i) :
    (d.put i xs).read q = d.read q := by
  unfold read put
  cases hq : d.names q with
  | none => rfl
  | some j =>
      have hji : j ≠ i := fun hji => h (hji ▸ hq)
      exact congrArg some (Function.update_of_ne hji _ _)

/-- The handle is on the file called `p`, which holds `xs`, and what is written next goes to its
end. -/
structure Opened (d : Disk P) (p : P) (h : Handle) (xs : Bytes) : Prop where
  named : d.names p = some h.file
  holds : d.data h.file = xs
  atEnd : ∀ o, h.offset = some o → o = xs.length

theorem opened_append {i : Nat} (h : d.names p = some i) : Opened d p ⟨i, none⟩ (d.data i) := by
  refine ⟨h, rfl, ?_⟩
  rintro o ⟨⟩

theorem Opened.read {h : Handle} {xs : Bytes} (hopen : Opened d p h xs) : d.read p = some xs := by
  rw [Disk.read, hopen.named, Option.map_some, hopen.holds]

theorem Opened.write {h : Handle} {xs : Bytes} (hopen : Opened d p h xs) (ys : Bytes) :
    Opened (d.write h ys).1 p (d.write h ys).2 (xs ++ ys) := by
  unfold Disk.write
  split
  · next hoff =>
      refine ⟨hopen.named, ?_, ?_⟩
      · show Function.update d.data h.file _ h.file = xs ++ ys
        rw [Function.update_self, hopen.holds]
      · intro o ho
        rw [hoff] at ho
        cases ho
  · next o hoff =>
      have ho : o = xs.length := hopen.atEnd o hoff
      subst ho
      refine ⟨hopen.named, ?_, ?_⟩
      · show Function.update d.data h.file _ h.file = xs ++ ys
        rw [Function.update_self, hopen.holds, overwrite_length]
      · rintro o ⟨⟩
        rw [List.length_append]

theorem Opened.read_write_of_ne {h : Handle} {xs : Bytes} (hopen : Opened d p h xs) (ys : Bytes)
    (hq : q ≠ p) : (d.write h ys).1.read q = d.read q := by
  have hne : d.names q ≠ some h.file := fun hqf => hq (d.names_inj q p _ hqf hopen.named)
  unfold Disk.write
  split
  · exact read_put_of_ne hne
  · exact read_put_of_ne hne

/-! ## Names -/

/-- Takes every name away that is not kept. -/
def keep (d : Disk P) (kept : P → Bool) : Disk P where
  names p := if kept p then d.names p else none
  data := d.data
  next := d.next
  names_lt q i h := by
    split at h
    · exact d.names_lt q i h
    · cases h
  names_inj q r i hq hr := by
    split at hq
    · split at hr
      · exact d.names_inj q r i hq hr
      · cases hr
    · cases hq

theorem read_keep (d : Disk P) (kept : P → Bool) (p : P) :
    (d.keep kept).read p = if kept p then d.read p else none := by
  show (if kept p then d.names p else none).map d.data = _
  split
  · rfl
  · rfl

/-- Nothing is taken away where every name is kept. -/
theorem keep_read (d : Disk P) : (d.keep fun p => (d.read p).isSome) = d := by
  obtain ⟨names, data, next, hlt, hinj⟩ := d
  have hnames : ∀ p, (if ((names p).map data).isSome then names p else none) = names p := by
    intro p
    cases names p <;> rfl
  rw [keep, Disk.mk.injEq]
  exact ⟨funext hnames, rfl, rfl⟩

variable [DecidableEq P]

/-- Opens a name for writing, with an empty file behind it. -/
def create (d : Disk P) (p : P) : Disk P × Handle :=
  match d.names p with
  | some i => (d.put i [], ⟨i, some 0⟩)
  | none =>
    ({ names := Function.update d.names p (some d.next)
       data := Function.update d.data d.next []
       next := d.next + 1
       names_lt := by
         intro q i h
         rw [Function.update_apply] at h
         split at h
         · cases h
           exact Nat.lt_succ_self _
         · exact Nat.lt_succ_of_lt (d.names_lt q i h)
       names_inj := by
         intro q r i hq hr
         rw [Function.update_apply] at hq hr
         split at hq <;> split at hr
         · next h₁ h₂ => rw [h₁, h₂]
         · -- a file in use is not the new one
           cases hq
           exact absurd (d.names_lt r _ hr) (Nat.lt_irrefl _)
         · cases hr
           exact absurd (d.names_lt q _ hq) (Nat.lt_irrefl _)
         · exact d.names_inj q r i hq hr },
      ⟨d.next, some 0⟩)

/-- Takes a name away. -/
def remove (d : Disk P) (p : P) : Disk P where
  names := Function.update d.names p none
  data := d.data
  next := d.next
  names_lt q i h := by
    rw [Function.update_apply] at h
    split at h
    · cases h
    · exact d.names_lt q i h
  names_inj q r i hq hr := by
    rw [Function.update_apply] at hq hr
    split at hq
    · cases hq
    · split at hr
      · cases hr
      · exact d.names_inj q r i hq hr

theorem names_remove (d : Disk P) (p : P) :
    (d.remove p).names = Function.update d.names p none := rfl

/-- Gives the file `i` of a name that is taken away another name. -/
def link (d : Disk P) (p q : P) (i : Nat) (h : d.names p = some i) : Disk P where
  names := Function.update (d.remove p).names q (some i)
  data := d.data
  next := d.next
  names_lt r j hr := by
    rw [Function.update_apply] at hr
    split at hr
    · cases hr
      exact d.names_lt p i h
    · exact (d.remove p).names_lt r j hr
  names_inj r s j hr hs := by
    have hgone : ∀ t, (d.remove p).names t ≠ some i := by
      intro t ht
      rw [names_remove, Function.update_apply] at ht
      split at ht
      · cases ht
      · next hne => exact hne (d.names_inj t p i ht h)
    rw [Function.update_apply] at hr hs
    split at hr <;> split at hs
    · next h₁ h₂ => rw [h₁, h₂]
    · cases hr
      exact absurd hs (hgone s)
    · cases hs
      exact absurd hr (hgone r)
    · exact (d.remove p).names_inj r s j hr hs

/-- Renames `p` to `q`, over what had that name; nothing when there is no `p`. -/
def rename (d : Disk P) (p q : P) : Option (Disk P) :=
  match h : d.names p with
  | none => none
  | some i => some (d.link p q i h)

/-! ## What the names show afterwards -/

theorem read_remove_self : (d.remove p).read p = none := by
  rw [read, names_remove, Function.update_self]
  rfl

theorem read_remove_of_ne (h : q ≠ p) : (d.remove p).read q = d.read q := by
  rw [read, names_remove, Function.update_of_ne h]
  rfl

theorem read_create_of_ne (h : q ≠ p) : (d.create p).1.read q = d.read q := by
  unfold create
  split
  · next i hi =>
      apply read_put_of_ne
      intro hq
      exact h (d.names_inj q p i hq hi)
  · show (Function.update d.names p (some d.next) q).map (Function.update d.data d.next [])
      = (d.names q).map d.data
    rw [Function.update_of_ne h]
    cases hq : d.names q with
    | none => rfl
    | some j =>
        have hj : j ≠ d.next := Nat.ne_of_lt (d.names_lt q j hq)
        exact congrArg some (Function.update_of_ne hj _ _)

theorem rename_eq_none_iff : d.rename p q = none ↔ d.read p = none := by
  unfold rename read
  split
  · next h => simp [h]
  · next h => simp [h]

/-- A rename moves what was read under the old name, and touches no third name. -/
theorem rename_eq_some {e : Disk P} (h : d.rename p q = some e) (hpq : p ≠ q) :
    e.read q = d.read p ∧ e.read p = none ∧ ∀ r, r ≠ p → r ≠ q → e.read r = d.read r := by
  unfold rename at h
  split at h
  · cases h
  · next i hi =>
      cases h
      refine ⟨?_, ?_, ?_⟩
      · show (Function.update (d.remove p).names q (some i) q).map d.data = (d.names p).map d.data
        rw [Function.update_self, hi]
      · show (Function.update (d.remove p).names q (some i) p).map d.data = none
        rw [Function.update_of_ne hpq, names_remove, Function.update_self]
        rfl
      · intro r hrp hrq
        show (Function.update (d.remove p).names q (some i) r).map d.data = (d.names r).map d.data
        rw [Function.update_of_ne hrq, names_remove, Function.update_of_ne hrp]

theorem opened_create : Opened (d.create p).1 p (d.create p).2 [] := by
  unfold create
  split
  · next i hi =>
      refine ⟨hi, Function.update_self .., ?_⟩
      rintro o ⟨⟩
      rfl
  · refine ⟨Function.update_self .., Function.update_self .., ?_⟩
    rintro o ⟨⟩
    rfl

/-! ## What happens to other names -/

omit [DecidableEq P]

/-- A name stands for the same file on both disks, and the file holds the same. -/
structure SameAt (p : P) (d e : Disk P) : Prop where
  names : e.names p = d.names p
  data : ∀ i, d.names p = some i → e.data i = d.data i

variable {e : Disk P}

theorem SameAt.refl (d : Disk P) (p : P) : SameAt p d d := ⟨rfl, fun _ _ => rfl⟩

theorem SameAt.read (h : SameAt p d e) : e.read p = d.read p := by
  unfold Disk.read
  rw [h.names]
  cases hp : d.names p with
  | none => rfl
  | some i => exact congrArg some (h.data i hp)

theorem SameAt.opened {hd : Handle} {xs : Bytes} (h : SameAt p d e) (hopen : Opened d p hd xs) :
    Opened e p hd xs :=
  ⟨h.names.trans hopen.named, (h.data _ hopen.named).trans hopen.holds, hopen.atEnd⟩

theorem sameAt_put {i : Nat} {xs : Bytes} (h : d.names q ≠ some i) : SameAt q d (d.put i xs) := by
  refine ⟨rfl, ?_⟩
  intro j hj
  have hji : j ≠ i := fun hji => h (hji ▸ hj)
  exact Function.update_of_ne hji _ _

theorem Opened.sameAt_write {hd : Handle} {xs : Bytes} (hopen : Opened d p hd xs) (ys : Bytes)
    (hq : q ≠ p) : SameAt q d (d.write hd ys).1 := by
  have hne : d.names q ≠ some hd.file := fun hqf => hq (d.names_inj q p _ hqf hopen.named)
  unfold Disk.write
  split
  · exact sameAt_put hne
  · exact sameAt_put hne

theorem sameAt_keep {kept : P → Bool} (h : kept p = (d.read p).isSome) :
    SameAt p d (d.keep kept) := by
  refine ⟨?_, fun _ _ => rfl⟩
  show (if kept p then d.names p else none) = d.names p
  rw [h, Disk.read]
  cases d.names p <;> rfl

variable [DecidableEq P]

theorem sameAt_create (h : q ≠ p) : SameAt q d (d.create p).1 := by
  unfold create
  split
  · next i hi => exact sameAt_put fun hq => h (d.names_inj q p i hq hi)
  · refine ⟨Function.update_of_ne h _ _, ?_⟩
    intro j hj
    exact Function.update_of_ne (Nat.ne_of_lt (d.names_lt q j hj)) _ _

theorem sameAt_remove (h : q ≠ p) : SameAt q d (d.remove p) :=
  ⟨Function.update_of_ne h _ _, fun _ _ => rfl⟩

theorem sameAt_rename {r : P} (h : d.rename p q = some e) (hrp : r ≠ p) (hrq : r ≠ q) :
    SameAt r d e := by
  unfold rename at h
  split at h
  · cases h
  · next i hi =>
    cases h
    refine ⟨?_, fun _ _ => rfl⟩
    show Function.update (d.remove p).names q (some i) r = d.names r
    rw [Function.update_of_ne hrq, names_remove, Function.update_of_ne hrp]

end Disk

end Xylitol
