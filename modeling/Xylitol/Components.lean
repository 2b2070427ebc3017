import Xylitol.Path

/-!
# Path components

A path names a file one component after the other, so these say where it leads: up for `..`, and to
the root for a slash in front, wherever the path is appended.
-/

namespace Xylitol

namespace Path

inductive Component where
  | rootDir
  | curDir
  | parentDir
  | normal (name : Bytes)
  deriving DecidableEq, Repr

/-- What stands between two slashes. -/
def Component.ofPart (part : Bytes) : Option Component :=
  if part = [] ∨ part = [dot] then none
  else if part = [dot, dot] then some .parentDir
  else some (.normal part)

/-- What the path begins with: a slash, or a dot that is all of its first part. -/
def leading (p : Path) : List Component :=
  if p.head? = some slash then [.rootDir]
  else if (p.splitOn slash).head? = some [dot] then [.curDir]
  else []

/-- `p.components()`. -/
def components (p : Path) : List Component :=
  p.leading ++ (p.splitOn slash).filterMap Component.ofPart

/-- A path that is one name. -/
structure IsName (name : Path) : Prop where
  nonempty : name ≠ []
  ne_dot : name ≠ [dot]
  ne_dots : name ≠ [dot, dot]
  noSlash : slash ∉ name

/-- `p` is a name in the directory `dir`. -/
def IsChild (dir p : Path) : Prop := ∃ name, p.components = dir.components ++ [.normal name]

theorem Component.ofPart_eq_normal {part name : Bytes} : ofPart part = some (.normal name) ↔
    part = name ∧ part ≠ [] ∧ part ≠ [dot] ∧ part ≠ [dot, dot] := by
  unfold ofPart
  split
  · simp
    grind
  · grind

theorem notMem_of_mem_splitOn {p part : Bytes} (hpart : part ∈ p.splitOn slash) :
    slash ∉ part := by
  induction p generalizing part with
  | nil =>
    rw [List.splitOn_nil, List.mem_singleton] at hpart
    rw [hpart]
    exact List.not_mem_nil
  | cons b p ih =>
    obtain ⟨first, rest, hsplit⟩ := List.exists_cons_of_ne_nil (List.splitOn_ne_nil slash p)
    rw [hsplit] at ih
    rw [List.splitOn_cons_eq_if_modifyHead, hsplit, List.modifyHead_cons] at hpart
    grind

/-- A component that is a name is one on its own. -/
theorem isName_of_mem_components {p : Path} {name : Bytes} (h : .normal name ∈ p.components) :
    IsName name := by
  have hmem : .normal name ∈ (p.splitOn slash).filterMap Component.ofPart := by
    rcases List.mem_append.mp h with hlead | hmem
    · unfold leading at hlead
      grind
    · exact hmem
  obtain ⟨part, hpart, hnormal⟩ := List.mem_filterMap.mp hmem
  obtain ⟨rfl, hne, hdot, hdots⟩ := Component.ofPart_eq_normal.mp hnormal
  exact ⟨hne, hdot, hdots, notMem_of_mem_splitOn hpart⟩

theorem IsName.ofPart_eq {name : Path} (h : IsName name) :
    Component.ofPart name = some (.normal name) :=
  Component.ofPart_eq_normal.mpr ⟨rfl, h.nonempty, h.ne_dot, h.ne_dots⟩

theorem IsName.head?_ne {name : Path} (h : IsName name) : name.head? ≠ some slash :=
  fun hs => h.noSlash (List.mem_of_head? hs)

/-- A name stays one when enough is appended to it that it is no dots. -/
theorem IsName.append {name rest : Path} (h : IsName name) (hslash : slash ∉ rest)
    (hlong : 2 ≤ rest.length) : IsName (name ++ rest) := by
  have hlen : 3 ≤ (name ++ rest).length := by
    have hpos : 0 < name.length := List.length_pos_iff.mpr h.nonempty
    rw [List.length_append]
    omega
  have hne : ∀ short : Path, short.length < 3 → name ++ rest ≠ short := by
    rintro short hshort rfl
    omega
  refine ⟨hne [] (by simp), hne [dot] (by simp), hne [dot, dot] (by simp), ?_⟩
  rw [List.mem_append]
  exact not_or.mpr ⟨h.noSlash, hslash⟩

theorem IsName.components_eq {name : Path} (h : IsName name) : name.components = [.normal name] := by
  have hsplit : name.splitOn slash = [name] := List.splitOn_eq_singleton h.noSlash
  have hlead : name.leading = [] := by
    rw [leading, if_neg h.head?_ne, hsplit, if_neg (by simpa using h.ne_dot)]
  rw [components, hlead, hsplit]
  simp [h.ofPart_eq]

/-- The paths that are a single component. -/
theorem components_eq_singleton {p : Path} : p.components = [.normal p] ↔ IsName p := by
  constructor
  · intro h
    exact isName_of_mem_components (by rw [h]; exact List.mem_singleton_self _)
  · exact IsName.components_eq

theorem leading_append_slash (p q : Path) :
    leading (p ++ slash :: q) = leading (p ++ [slash]) := by
  have hhead : (p ++ slash :: q).head? = (p ++ [slash]).head? := by
    cases p <;> rfl
  have hpart : ((p ++ slash :: q).splitOn slash).head? = ((p ++ [slash]).splitOn slash).head? := by
    have hne := List.splitOn_ne_nil slash p
    rw [List.splitOn_append_cons_self, List.splitOn_append_cons_self,
      List.head?_append_of_ne_nil _ hne, List.head?_append_of_ne_nil _ hne]
  rw [leading, leading, hhead, hpart]

/-- What comes behind a slash is read part by part. -/
theorem components_append_slash (p q : Path) : components (p ++ slash :: q)
    = components (p ++ [slash]) ++ (q.splitOn slash).filterMap Component.ofPart := by
  rw [components, components, leading_append_slash, List.splitOn_append_cons_self,
    List.splitOn_append_cons_self, List.filterMap_append, List.filterMap_append,
    List.append_assoc, List.append_assoc]
  rfl

/-- A slash at the end of a path says nothing, unless it is the path. -/
theorem components_concat_slash {p : Path} (hne : p ≠ []) :
    components (p ++ [slash]) = components p := by
  have hlead : leading (p ++ [slash]) = leading p := by
    rw [leading, leading, List.head?_append_of_ne_nil _ hne, List.splitOn_append_cons_self,
      List.head?_append_of_ne_nil _ (List.splitOn_ne_nil slash p)]
  rw [components, components, hlead, List.splitOn_append_cons_self, List.filterMap_append]
  simp [Component.ofPart]

/-- Joining a name goes down one directory. -/
theorem components_join {dir name : Path} (h : IsName name) :
    components (join dir name) = components dir ++ [.normal name] := by
  have hpart : (name.splitOn slash).filterMap Component.ofPart = [.normal name] := by
    rw [List.splitOn_eq_singleton h.noSlash]
    simp [h.ofPart_eq]
  by_cases hdir : dir = []
  · subst hdir
    rw [join, if_pos (Or.inr rfl), h.components_eq]
    rfl
  · rw [join, if_neg (by simp [h.head?_ne, hdir])]
    split
    · next hlast =>
      obtain ⟨parent, hparent⟩ := List.getLast?_eq_some_iff.mp hlast
      rw [hparent, List.append_assoc, List.singleton_append, components_append_slash, hpart]
    · rw [components_append_slash, components_concat_slash hdir, hpart]

theorem isChild_join {dir name : Path} (h : IsName name) : IsChild dir (join dir name) :=
  ⟨name, components_join h⟩

end Path

end Xylitol
