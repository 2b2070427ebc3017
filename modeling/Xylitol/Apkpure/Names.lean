import Xylitol.Apkpure.Model
import Xylitol.Separators

/-!
# When two files share a name

The suggested name of a file is made of four texts and the extension:

    package _ version name _ version code _ architecture . extension

Blanks and slashes of the version name and of the architecture become dashes, an architecture that is
not published is `universal`, and the screen density is not in the name. The code contains no
underscore, but the version name and the architecture may. `suggestedFilename_eq_iff` lists every
pair of files of one package with one name.
-/

namespace Xylitol.Apkpure

variable {u v : Variant}

/-! ## Fields -/

/-- The version name as the file name shows it. -/
def Variant.shownVersion (v : Variant) : String := dashed v.versionName

/-- The architecture as the file name shows it. -/
def Variant.shownArch (v : Variant) : String := dashed (v.arch.getD "universal")

/-- The five fields by which the files of a package are told apart. -/
structure SameFile (u v : Variant) : Prop where
  versionName : u.versionName = v.versionName
  versionCode : u.versionCode = v.versionCode
  kind : u.kind = v.kind
  arch : u.arch = v.arch
  dpi : u.dpi = v.dpi

/-- The version name of `v` goes on where that of `u` ends, with the code of `u` and the start `t` of
its architecture, and that architecture goes on with the code and the architecture of `v`. -/
def Variant.Shifted (u v : Variant) : Prop :=
  ∃ t, v.shownVersion ++ "_" = u.shownVersion ++ "_" ++ toString u.versionCode ++ "_" ++ t ∧
    u.shownArch = t ++ toString v.versionCode ++ "_" ++ v.shownArch

/-- One kind of file, one code, and texts that are one up to dashes; or all of it shifted. -/
structure LookAlike (u v : Variant) : Prop where
  kind : u.kind = v.kind
  fields : (u.shownVersion = v.shownVersion ∧ u.versionCode = v.versionCode ∧
      u.shownArch = v.shownArch) ∨ u.Shifted v ∨ v.Shifted u

theorem underscore_notMem_code (v : Variant) : '_' ∉ (toString v.versionCode).toList := by
  intro h
  rcases Text.isDigit_or_dash_of_mem_repr h with h | h
  · exact absurd h (by decide)
  · exact absurd h (by decide)

theorem Variant.shifted_iff : u.Shifted v ↔ ∃ t : List Char,
    v.shownVersion.toList ++ ['_']
      = u.shownVersion.toList ++ '_' :: ((toString u.versionCode).toList ++ '_' :: t) ∧
    u.shownArch.toList
      = t ++ ((toString v.versionCode).toList ++ '_' :: v.shownArch.toList) := by
  unfold Shifted
  simp only [← String.toList_inj]
  constructor
  · rintro ⟨t, hversion, harch⟩
    refine ⟨t.toList, ?_, ?_⟩
    · simpa using hversion
    · simpa using harch
  · rintro ⟨t, hversion, harch⟩
    refine ⟨String.ofList t, ?_, ?_⟩
    · simpa using hversion
    · simpa using harch

/-! ## Names -/

theorem toList_fileBase (v : Variant) : v.fileBase.toList = (v.package ++ "_").toList
    ++ (v.shownVersion.toList ++ '_' :: ((toString v.versionCode).toList
      ++ '_' :: v.shownArch.toList)) := by
  simp [Variant.fileBase, Variant.shownVersion, Variant.shownArch]

theorem suggestedFilename_ne (hu : u.kind = .apk) (hv : v.kind = .xapk) :
    u.suggestedFilename ≠ v.suggestedFilename := by
  intro h
  -- the last four characters of the names
  have hlist : u.fileBase.toList ++ ['.', 'a', 'p', 'k']
      = v.fileBase.toList ++ ['.'] ++ ['x', 'a', 'p', 'k'] := by
    simpa [Variant.suggestedFilename, FileKind.extension, hu, hv, ← String.toList_inj] using h
  have hend := (List.append_inj' hlist rfl).2
  simp at hend

theorem kind_of_suggestedFilename_eq (h : u.suggestedFilename = v.suggestedFilename) :
    u.kind = v.kind := by
  cases hu : u.kind <;> cases hv : v.kind
  · rfl
  · exact absurd h (suggestedFilename_ne hu hv)
  · exact absurd h.symm (suggestedFilename_ne hv hu)
  · rfl

theorem fileBase_eq_iff (hpackage : u.package = v.package) : u.fileBase = v.fileBase ↔
    (u.shownVersion = v.shownVersion ∧ u.versionCode = v.versionCode ∧ u.shownArch = v.shownArch) ∨
      u.Shifted v ∨ v.Shifted u := by
  have hcode : toString u.versionCode = toString v.versionCode ↔ u.versionCode = v.versionCode :=
    Int.repr_inj
  rw [← String.toList_inj, toList_fileBase, toList_fileBase, hpackage, List.append_cancel_left_eq,
    one_sep_eq_iff (underscore_notMem_code u) (underscore_notMem_code v), Variant.shifted_iff,
    Variant.shifted_iff, String.toList_inj, String.toList_inj, String.toList_inj, hcode]

/-- Every pair of files of one package with one name. -/
theorem suggestedFilename_eq_iff (hpackage : u.package = v.package) :
    u.suggestedFilename = v.suggestedFilename ↔ LookAlike u v := by
  constructor
  · intro h
    have hkind := kind_of_suggestedFilename_eq h
    refine ⟨hkind, (fileBase_eq_iff hpackage).mp ?_⟩
    rw [Variant.suggestedFilename, Variant.suggestedFilename, hkind, String.append_assoc,
      String.append_assoc, String.append_left_inj] at h
    exact h
  · rintro ⟨hkind, hfields⟩
    rw [Variant.suggestedFilename, Variant.suggestedFilename,
      (fileBase_eq_iff hpackage).mpr hfields, hkind]

end Xylitol.Apkpure
