import Xylitol.Components
import Xylitol.Apkpure.Download.Directory

/-!
# What a download can reach

The name of a file is joined to the directory it is downloaded into. Blanks and slashes of the version
name and of the architecture become dashes, the package stands in the name as it was given, so it is
the package that decides where the two paths lead.
-/

namespace Xylitol.Apkpure

variable {sha1 : Bytes → Bytes}

/-- A download keeps to its directory: the name is a single component, both paths are names in the
directory, and whatever attempts are made, no file that is not in the directory is touched. -/
structure Job.Confined (job : Job) : Prop where
  single : Path.components (utf8Bytes job.variant.suggestedFilename)
    = [.normal (utf8Bytes job.variant.suggestedFilename)]
  final : Path.IsChild job.dir job.finalPath
  part : Path.IsChild job.dir job.partPath
  appended : job.partPath = job.finalPath ++ utf8Bytes ".part"
  untouched : ∀ (sha1 : Bytes → Bytes) (s : Session) (events : List Happening), s.call = none →
    ∀ p, ¬ Path.IsChild job.dir p →
      (Runs.run (Session.step sha1 job) s events).disk.read p = s.disk.read p

/-! ## The name -/

theorem Variant.slash_mem_suggestedFilename (v : Variant) :
    '/' ∈ v.suggestedFilename.toList ↔ '/' ∈ v.package.toList := by
  have hversion := slash_notMem_dashed v.versionName
  have harch := slash_notMem_dashed (v.arch.getD "universal")
  have hcode : '/' ∉ v.versionCode.repr.toList := by
    intro h
    rcases Text.isDigit_or_dash_of_mem_repr h with h | h
    · exact absurd h (by decide)
    · exact absurd h (by decide)
  have hext : '/' ∉ v.kind.extension.toList := by
    cases v.kind <;> decide
  simp [suggestedFilename, fileBase, hversion, harch, hcode, hext]

theorem Variant.isName_suggestedFilename_iff (v : Variant) :
    Path.IsName (utf8Bytes v.suggestedFilename) ↔ '/' ∉ v.package.toList := by
  rw [← v.slash_mem_suggestedFilename, ← Path.slash_mem_utf8Bytes]
  constructor
  · intro h
    exact h.noSlash
  · intro hslash
    -- the extension sets it apart from the names of directories
    obtain ⟨base, hname, hne, -⟩ := v.utf8Bytes_suggestedFilename
    have hlast : (utf8Bytes v.suggestedFilename).getLast? = some 0x6B := by
      rw [hname, List.getLast?_append_of_ne_nil _ (List.cons_ne_nil _ _)]
      cases v.kind <;> decide
    refine ⟨?_, ?_, ?_, hslash⟩
    · intro h
      rw [h] at hlast
      cases hlast
    · intro h
      rw [h] at hlast
      exact absurd hlast (by decide)
    · intro h
      rw [h] at hlast
      exact absurd hlast (by decide)

/-! ## The two paths -/

variable {job : Job}

theorem Job.isChild_finalPath (h : '/' ∉ job.variant.package.toList) :
    Path.IsChild job.dir job.finalPath :=
  Path.isChild_join (job.variant.isName_suggestedFilename_iff.mpr h)

theorem Job.isChild_partPath (h : '/' ∉ job.variant.package.toList) :
    Path.IsChild job.dir job.partPath := by
  have hname := job.variant.isName_suggestedFilename_iff.mpr h
  have hpart := hname.append (show Path.slash ∉ utf8Bytes ".part" by decide)
    (by decide)
  rw [Job.partPath_eq, finalPath, ← Path.join_append hname.nonempty]
  exact Path.isChild_join hpart

/-! ## Attempts -/

/-- Attempts made one after the other touch the two names and no other. -/
theorem Session.read_run_of_ne {p : Path} (hpart : p ≠ job.partPath) (hfinal : p ≠ job.finalPath)
    {s : Session} (h : s.Undisturbed sha1 job) (events : List Happening) :
    (Runs.run (Session.step sha1 job) s events).disk.read p = s.disk.read p := by
  induction events generalizing s with
  | nil => rfl
  | cons e rest ih =>
    rw [Runs.run_cons, ih (Session.undisturbed_step h e)]
    exact Session.read_step_of_ne h e hpart hfinal

/-- A download keeps to its directory exactly when there is no slash in the package. -/
theorem Job.confined_iff (job : Job) : job.Confined ↔ '/' ∉ job.variant.package.toList := by
  rw [← job.variant.isName_suggestedFilename_iff]
  constructor
  · intro h
    exact Path.components_eq_singleton.mp h.single
  · intro hname
    have hpackage := job.variant.isName_suggestedFilename_iff.mp hname
    refine ⟨hname.components_eq, Job.isChild_finalPath hpackage, Job.isChild_partPath hpackage,
      job.partPath_eq, ?_⟩
    intro sha1 s events hcall p hp
    have hpart : p ≠ job.partPath := fun h => hp (h ▸ Job.isChild_partPath hpackage)
    have hfinal : p ≠ job.finalPath := fun h => hp (h ▸ Job.isChild_finalPath hpackage)
    exact Session.read_run_of_ne hpart hfinal (Session.undisturbed_of_none hcall) events

/-- A search result that calls itself `/etc/cron.d/up`. -/
def strayJob : Job := ⟨{ sampleVariant none with package := "/etc/cron.d/up" }, utf8Bytes "/d"⟩

/-- The finished file leaves the directory altogether. -/
theorem stray_download : strayJob.finalPath = utf8Bytes "/etc/cron.d/up_1.0_7_arm64-v8a.apk" ∧
    ¬ Path.IsChild strayJob.dir strayJob.finalPath ∧ ¬ strayJob.Confined := by
  have hchild : ¬ Path.IsChild strayJob.dir strayJob.finalPath := by
    rintro ⟨name, h⟩
    have hlen := congrArg List.length h
    rw [List.length_append, List.length_singleton] at hlen
    exact absurd hlen (by decide)
  exact ⟨by decide, hchild, fun h => hchild h.final⟩

end Xylitol.Apkpure
