import Xylitol.Utf

/-!
# File paths

A path is its bytes, as on the systems the program runs on. Only the three `Path` operations the
program uses are here, for paths whose last component is a name (not empty, `.` or `..`).
-/

namespace Xylitol

abbrev Path := Bytes

namespace Path

def slash : UInt8 := 0x2F
def dot : UInt8 := 0x2E

/-- Whether the path is text: decoding it and encoding it again changes nothing. -/
def isUtf8 (p : Path) : Bool := utf8Bytes (fromUtf8Lossy p) == p

/-- `dir.join(name)`. -/
def join (dir name : Path) : Path :=
  if name.head? = some slash ∨ dir = [] then name
  else if dir.getLast? = some slash then dir ++ name
  else dir ++ slash :: name

/-- What stands after the last slash. -/
def fileName (p : Path) : Bytes := (p.reverse.takeWhile (· ≠ slash)).reverse

/-- The file name up to its last dot, unless that dot is its first character. -/
def fileStem (p : Path) : Bytes :=
  match (p.fileName.reverse.dropWhile (· ≠ dot)).reverse.dropLast with
  | [] => p.fileName
  | stem => stem

/-- `p.with_extension(ext)`. -/
def withExtension (p : Path) (ext : Bytes) : Path :=
  p.take (p.length - p.fileName.length) ++ p.fileStem ++ dot :: ext

@[simp] theorem isUtf8_utf8Bytes (s : String) : isUtf8 (utf8Bytes s) := by
  rw [isUtf8, fromUtf8Lossy_utf8Bytes]
  exact beq_self_eq_true _

/-- A path is what stands before its file name and the file name. -/
theorem take_append_fileName (p : Path) :
    p.take (p.length - p.fileName.length) ++ p.fileName = p := by
  have hsplit : (p.reverse.dropWhile (· ≠ slash)).reverse ++ p.fileName = p := by
    rw [fileName, ← List.reverse_append, List.takeWhile_append_dropWhile, List.reverse_reverse]
  have hlen := congrArg List.length hsplit
  rw [List.length_append] at hlen
  have htake : p.take (p.length - p.fileName.length)
      = (p.reverse.dropWhile (· ≠ slash)).reverse := by
    conv_lhs => rw [← hsplit]
    rw [List.take_append_of_le_length (by rw [hsplit]; omega), List.take_of_length_le]
    rw [hsplit]
    omega
  rw [htake, hsplit]

theorem fileName_append {p ys : Bytes} (h : ∀ b ∈ ys, b ≠ slash) :
    fileName (p ++ ys) = fileName p ++ ys := by
  have hall : ∀ b ∈ ys.reverse, decide (b ≠ slash) := by
    intro b hb
    exact decide_eq_true (h b (List.mem_reverse.mp hb))
  rw [fileName, List.reverse_append, List.takeWhile_append_of_pos hall, List.reverse_append,
    List.reverse_reverse]
  rfl

theorem fileName_ne_nil {p : Path} (hne : p ≠ []) (hlast : p.getLast? ≠ some slash) :
    p.fileName ≠ [] := by
  obtain ⟨init, b, rfl⟩ := (List.eq_nil_or_concat p).resolve_left hne
  rw [List.concat_eq_append, List.getLast?_concat] at hlast
  have hb : b ≠ slash := fun h => hlast (congrArg some h)
  rw [List.concat_eq_append, fileName_append (by simpa using hb)]
  simp

/-- With a name that ends in `.ext`, replacing the extension by `ext` and more appends the rest. -/
theorem withExtension_append {p ext more : Bytes} (hext : ∀ b ∈ ext, b ≠ dot ∧ b ≠ slash)
    (hne : p ≠ []) (hlast : p.getLast? ≠ some slash) :
    withExtension (p ++ dot :: ext) (ext ++ more) = (p ++ dot :: ext) ++ more := by
  have hslash : ∀ b ∈ dot :: ext, b ≠ slash := by
    intro b hb
    rcases List.mem_cons.mp hb with rfl | hb
    · decide
    · exact (hext b hb).2
  have hname : fileName (p ++ dot :: ext) = fileName p ++ dot :: ext := fileName_append hslash
  have hstem : fileStem (p ++ dot :: ext) = fileName p := by
    have hdots : ∀ b ∈ ext.reverse, decide (b ≠ dot) := by
      intro b hb
      exact decide_eq_true (hext b (List.mem_reverse.mp hb)).1
    have hdrop : ((fileName p ++ dot :: ext).reverse.dropWhile (· ≠ dot)).reverse.dropLast
        = fileName p := by
      rw [List.reverse_append, List.reverse_cons, List.append_assoc,
        List.dropWhile_append_of_pos hdots]
      simp
    rw [fileStem, hname, hdrop]
    split
    · next hnil => exact absurd hnil (fileName_ne_nil hne hlast)
    · rfl
  have hprefix : (p ++ dot :: ext).take ((p ++ dot :: ext).length
      - (fileName p ++ dot :: ext).length) = p.take (p.length - (fileName p).length) := by
    rw [List.length_append, List.length_append, Nat.add_sub_add_right,
      List.take_append_of_le_length (Nat.sub_le _ _)]
  rw [withExtension, hname, hstem, hprefix, take_append_fileName, List.append_assoc]
  rfl

/-- An extension with a dot in it is not what stands behind the last dot of a name. -/
theorem withExtension_ne {p : Path} {ext : Bytes} (hdot : dot ∈ ext) : withExtension p ext ≠ p := by
  intro h
  have hname : p.fileStem ++ dot :: ext = p.fileName := by
    apply List.append_cancel_left
    rw [take_append_fileName, ← List.append_assoc]
    exact h
  -- the last dot of the extension is the last dot of the name
  obtain ⟨e₂, e₁, hext, hlast⟩ := List.eq_append_cons_of_mem (List.mem_reverse.mpr hdot)
  have hdrop : ((p.fileName.reverse.dropWhile (· ≠ dot)).reverse.dropLast)
      = p.fileStem ++ dot :: e₁.reverse := by
    have hdots : ∀ b ∈ e₂, decide (b ≠ dot) := by
      intro b hb
      exact decide_eq_true fun hbd => hlast (hbd ▸ hb)
    have hconcat : (dot :: (e₁.reverse ++ [dot])).dropLast = dot :: e₁.reverse := by
      rw [← List.cons_append, List.dropLast_concat]
    rw [← hname, List.reverse_append, List.reverse_cons, hext, List.append_assoc,
      List.append_assoc, List.dropWhile_append_of_pos hdots]
    simp [hconcat]
  have hstem : p.fileStem = p.fileStem ++ dot :: e₁.reverse := by
    conv_lhs => rw [fileStem, hdrop]
    split
    · next hnil => simp at hnil
    · rfl
  simpa using congrArg List.length hstem

/-! ## Joining -/

theorem join_append {dir name rest : Path} (hne : name ≠ []) :
    join dir (name ++ rest) = join dir name ++ rest := by
  have hhead : (name ++ rest).head? = name.head? := by
    cases name with
    | nil => exact absurd rfl hne
    | cons b name => rfl
  unfold join
  rw [hhead]
  split
  · rfl
  · split
    · rw [List.append_assoc]
    · rw [List.append_assoc, List.cons_append]

/-- A joined path ends as the name does. -/
theorem getLast?_join {dir name : Path} (hne : name ≠ []) :
    (join dir name).getLast? = name.getLast? := by
  unfold join
  split
  · rfl
  · split
    · exact List.getLast?_append_of_ne_nil _ hne
    · rw [List.getLast?_append_of_ne_nil _ (List.cons_ne_nil _ _)]
      obtain ⟨b, name, rfl⟩ := List.exists_cons_of_ne_nil hne
      rfl

/-- Names that are both absolute or both not are told apart by the joined paths. -/
theorem join_inj {dir x y : Path} (hhead : x.head? = y.head?) : join dir x = join dir y ↔ x = y := by
  unfold join
  rw [hhead]
  split
  · rfl
  · split
    · exact List.append_right_inj dir
    · rw [List.append_right_inj, List.cons.injEq, and_iff_right rfl]

/-- Only the character `/` is encoded with the byte of a slash. -/
theorem slash_notMem_utf8EncodeChar {c : Char} (hc : c ≠ '/') : slash ∉ String.utf8EncodeChar c := by
  have hval : c.val.toNat ≠ 0x2F := by
    intro h
    exact hc (Char.ext (UInt32.toNat_inj.mp h))
  have hbyte : ∀ n, UInt8.ofNat n = slash → n % 256 = 0x2F := by
    intro n h
    exact congrArg UInt8.toNat h
  intro hmem
  unfold String.utf8EncodeChar at hmem
  dsimp only at hmem
  split at hmem
  · rcases List.mem_singleton.mp hmem with h
    have := hbyte _ h.symm
    omega
  · -- every byte of a longer encoding has its highest bit set
    split at hmem
    · simp only [List.mem_cons, List.not_mem_nil, or_false] at hmem
      rcases hmem with h | h <;> have := hbyte _ h.symm <;> omega
    · split at hmem
      · simp only [List.mem_cons, List.not_mem_nil, or_false] at hmem
        rcases hmem with h | h | h <;> have := hbyte _ h.symm <;> omega
      · simp only [List.mem_cons, List.not_mem_nil, or_false] at hmem
        rcases hmem with h | h | h | h <;> have := hbyte _ h.symm <;> omega

theorem slash_notMem_utf8Bytes {s : String} (hs : '/' ∉ s.toList) : slash ∉ utf8Bytes s := by
  intro hmem
  obtain ⟨c, hc, hbyte⟩ := List.mem_flatMap.mp hmem
  refine slash_notMem_utf8EncodeChar ?_ hbyte
  rintro rfl
  exact hs hc

theorem slash_mem_utf8Bytes {s : String} : slash ∈ utf8Bytes s ↔ '/' ∈ s.toList := by
  constructor
  · intro hmem
    by_contra hs
    exact slash_notMem_utf8Bytes hs hmem
  · intro hs
    exact List.mem_flatMap.mpr ⟨'/', hs, List.mem_singleton_self slash⟩

end Path

end Xylitol
