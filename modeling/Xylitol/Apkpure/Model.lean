import Xylitol.Path
import Xylitol.Text

/-!
# What the site publishes for an app

A `Variant` is one downloadable file. Its suggested file name is where a download of it ends up, so
two variants with one name share their finished and their partial file.
-/

namespace Xylitol.Apkpure

/-- Whether a file is a single APK or an XAPK/APKS bundle. -/
inductive FileKind where
  | apk
  | xapk
  deriving DecidableEq, Repr

namespace FileKind

def asPathSegment : FileKind → String
  | apk => "APK"
  | xapk => "XAPK"

def extension : FileKind → String
  | apk => "apk"
  | xapk => "xapk"

/-- `Display` writes the path segment; a width in the format string has no effect on it. -/
instance : ToString FileKind := ⟨asPathSegment⟩

end FileKind

/-- A single downloadable file: the thing the user actually picks. -/
structure Variant where
  package : String
  versionName : String
  versionCode : Int
  kind : FileKind
  size : Option Nat
  published : Option String
  arch : Option String
  dpi : Option String
  minAndroid : Option String
  sha1 : Option String
  signature : Option String
  uploader : Option String
  downloadUrl : String
  deriving DecidableEq, Repr

/-- One app returned by a search. -/
structure SearchHit where
  package : String
  title : String
  iconUrl : Option String
  installs : Option String
  latestVersion : Option String
  latestSize : Option Nat
  deriving DecidableEq, Repr

/-- What makes this file different from its siblings: what the picker shows in each row. -/
def Variant.descriptor (v : Variant) : String :=
  let dpi := match v.dpi with
    | some dpi => if dpi ≠ "nodpi" then [dpi] else []
    | none => []
  " · ".intercalate (v.arch.getD "universal" :: dpi ++ [toString v.kind])

/-- `.replace([' ', '/'], "-")`. -/
def dashed (s : String) : String := Text.replaceChar (Text.replaceChar s ' ' '-') '/' '-'

/-- The file name without its extension. -/
def Variant.fileBase (v : Variant) : String :=
  v.package ++ "_" ++ dashed v.versionName ++ "_" ++ toString v.versionCode ++ "_"
    ++ dashed (v.arch.getD "universal")

/-- The filename Xylitol saves this variant as. -/
def Variant.suggestedFilename (v : Variant) : String := v.fileBase ++ "." ++ v.kind.extension

theorem slash_notMem_dashed (s : String) : '/' ∉ (dashed s).toList := by
  intro h
  rw [dashed, Text.replaceChar, String.toList_ofList, List.mem_map] at h
  obtain ⟨c, -, hc⟩ := h
  split at hc
  · exact absurd hc (by decide)
  · next hne => exact hne hc

/-- The file name is a base and the extension; the base is not empty and does not end in a slash. -/
theorem Variant.utf8Bytes_suggestedFilename (v : Variant) : ∃ base : Bytes,
    utf8Bytes v.suggestedFilename = base ++ Path.dot :: utf8Bytes v.kind.extension ∧
    base ≠ [] ∧ base.getLast? ≠ some Path.slash := by
  let tail := "_" ++ dashed (v.arch.getD "universal")
  have hne : utf8Bytes tail ≠ [] := by
    rw [utf8Bytes_append]
    exact List.append_ne_nil_of_left_ne_nil (by decide) _
  have hslash : Path.slash ∉ utf8Bytes tail := by
    apply Path.slash_notMem_utf8Bytes
    rw [String.toList_append, List.mem_append]
    rintro (h | h)
    · exact absurd h (by decide)
    · exact slash_notMem_dashed _ h
  have hsplit : v.fileBase = v.package ++ "_" ++ dashed v.versionName ++ "_"
      ++ toString v.versionCode ++ tail := by
    simp only [fileBase, tail, String.append_assoc]
  refine ⟨utf8Bytes v.fileBase, ?_, ?_, ?_⟩
  · rw [suggestedFilename, utf8Bytes_append, utf8Bytes_append, List.append_assoc]
    rfl
  · rw [hsplit, utf8Bytes_append]
    exact List.append_ne_nil_of_right_ne_nil _ hne
  · rw [hsplit, utf8Bytes_append, List.getLast?_append_of_ne_nil _ hne]
    intro hlast
    exact hslash (List.mem_of_getLast? hlast)

end Xylitol.Apkpure
