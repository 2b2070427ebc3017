import Xylitol.Apkpure.Download.Resume
import Xylitol.Apkpure.Names

/-!
# Several files in one directory

The files of a package are downloaded into one directory, one at a time. A download touches the
partial and the finished file of its own name, and nothing else:

    download u, … , crash, download v, …        u.apk.part  u.apk │ v.apk.part  v.apk

So two files are kept apart exactly when they do not share a name: `saved_apart_iff`. The screen
density is not in the name, and two files that differ in it only are one file on disk:
`saved_over_each_other`.
-/

namespace Xylitol.Apkpure

variable {sha1 : Bytes → Bytes} {u v : Variant} {dir : Path}

/-! ## Paths -/

/-- Both names begin with the package. -/
theorem Job.finalPath_inj (hpackage : u.package = v.package) :
    Job.finalPath ⟨u, dir⟩ = Job.finalPath ⟨v, dir⟩ ↔
      u.suggestedFilename = v.suggestedFilename := by
  have hhead : ∀ w : Variant, (utf8Bytes w.suggestedFilename).head?
      = (utf8Bytes (w.package ++ "_")).head? := by
    intro w
    have hsplit : w.suggestedFilename = (w.package ++ "_") ++ (w.shownVersion ++ "_"
        ++ toString w.versionCode ++ "_" ++ w.shownArch ++ "." ++ w.kind.extension) := by
      simp [Variant.suggestedFilename, Variant.fileBase, Variant.shownVersion, Variant.shownArch,
        String.append_assoc]
    have hne : utf8Bytes (w.package ++ "_") ≠ [] := by
      rw [utf8Bytes_append]
      exact List.append_ne_nil_of_right_ne_nil _ (by decide)
    rw [hsplit, utf8Bytes_append, List.head?_append_of_ne_nil _ hne]
  unfold Job.finalPath
  rw [Path.join_inj, utf8Bytes_inj]
  rw [hhead, hhead, hpackage]

theorem Job.partPath_inj (hpackage : u.package = v.package) :
    Job.partPath ⟨u, dir⟩ = Job.partPath ⟨v, dir⟩ ↔
      u.suggestedFilename = v.suggestedFilename := by
  rw [Job.partPath_eq, Job.partPath_eq, List.append_left_inj, Job.finalPath_inj hpackage]

theorem Job.getLast?_finalPath (job : Job) : job.finalPath.getLast? = some 0x6B := by
  obtain ⟨base, hname, hne, -⟩ := job.variant.utf8Bytes_suggestedFilename
  rw [Job.finalPath, Path.getLast?_join, hname, List.getLast?_append_of_ne_nil]
  · cases job.variant.kind <;> decide
  · simp
  · simp [hname]

/-- A finished file and a partial one never share a name. -/
theorem Job.finalPath_ne_partPath (i j : Job) : i.finalPath ≠ j.partPath := by
  intro h
  have hlast := congrArg List.getLast? h
  rw [i.getLast?_finalPath, j.partPath_eq, List.getLast?_append_of_ne_nil _ (by decide)] at hlast
  exact absurd hlast (by decide)

/-! ## Downloads, one after the other -/

/-- The variant downloaded last, and how far that is. -/
structure Directory where
  variant : Variant
  session : Session

/-- What happens next: a download is begun, or something happens to the one under way. -/
inductive Errand where
  | download (v : Variant)
  | advance (a : Answer)
  | crash (size : Nat)
  deriving DecidableEq, Repr

def Directory.job (dir : Path) (s : Directory) : Job := ⟨s.variant, dir⟩

/-- No download begins before the last one has returned. -/
def Directory.step (sha1 : Bytes → Bytes) (dir : Path) (s : Directory) : Errand → Directory
  | .download v =>
    match s.session.call with
    | none => ⟨v, s.session.step sha1 ⟨v, dir⟩ .attempt⟩
    | some ⟨.done _, _⟩ => ⟨v, s.session.step sha1 ⟨v, dir⟩ .attempt⟩
    | some _ => s
  | .advance a => { s with session := s.session.step sha1 (s.job dir) (.advance a) }
  | .crash size => { s with session := s.session.step sha1 (s.job dir) (.crash size) }

/-- What a download of `u` does in this step leaves the partial and the finished file of `v` as they
are. -/
def Directory.Spares (sha1 : Bytes → Bytes) (dir : Path) (u v : Variant) (s : Directory)
    (e : Errand) : Prop :=
  (s.step sha1 dir e).variant = u →
    (s.step sha1 dir e).session.disk.read (Job.partPath ⟨v, dir⟩)
        = s.session.disk.read (Job.partPath ⟨v, dir⟩) ∧
      (s.step sha1 dir e).session.disk.read (Job.finalPath ⟨v, dir⟩)
        = s.session.disk.read (Job.finalPath ⟨v, dir⟩)

/-- Two files are kept apart: by their names, by the names of their partial files, and in every
sequence of downloads into one directory. -/
structure SavedApart (u v : Variant) : Prop where
  names : u.suggestedFilename ≠ v.suggestedFilename
  parts : ∀ dir, Job.partPath ⟨u, dir⟩ ≠ Job.partPath ⟨v, dir⟩
  runs : ∀ (sha1 : Bytes → Bytes) (dir : Path) (s : Directory) (events : List Errand),
    s.session.call = none →
      Runs.Along (Directory.step sha1 dir)
        (fun s e => s.Spares sha1 dir u v e ∧ s.Spares sha1 dir v u e) s events

/-! ## One step -/

theorem read_tear_of_ne {job : Job} {disk : Disk Path} {phase : Phase} {p : Path} (size : Nat)
    (h : Faithful sha1 job disk phase) (hp : p ≠ job.partPath) :
    (tear size disk phase).read p = disk.read p := by
  unfold tear
  split
  · obtain ⟨old, -, hopen⟩ := h
    exact hopen.read_write_of_ne _ hp
  · rfl

/-- An attempt touches no name but its own two. -/
theorem Session.read_step_of_ne {job : Job} {s : Session} {p : Path}
    (h : s.Undisturbed sha1 job) (e : Happening) (hpart : p ≠ job.partPath)
    (hfinal : p ≠ job.finalPath) : (s.step sha1 job e).disk.read p = s.disk.read p := by
  cases e with
  | attempt => rcases s.step_attempt with hstep | hstep <;> rw [hstep]
  | advance a =>
      unfold step
      dsimp only
      split
      · rfl
      · next call hcall =>
          have hmove := step_moves sha1 job a call s.disk
          rcases move_read_of_ne (h call hcall) hpart hmove with hsame | ⟨hp, -⟩
          · exact hsame
          · exact absurd hp hfinal
  | crash size =>
      unfold step
      dsimp only
      split
      · rfl
      · next call hcall => exact read_tear_of_ne size (h call hcall) hpart

def Directory.Undisturbed (sha1 : Bytes → Bytes) (dir : Path) (s : Directory) : Prop :=
  s.session.Undisturbed sha1 (s.job dir)

/-- A download that is begun has touched nothing yet. -/
theorem Directory.step_download (s : Directory) (w : Variant) :
    s.step sha1 dir (.download w) = ⟨w, { s.session with call := some .start }⟩ ∨
      s.step sha1 dir (.download w) = s := by
  unfold step
  dsimp only
  split
  · next hcall => simp [Session.step, hcall]
  · next hcall => simp [Session.step, hcall]
  · exact Or.inr rfl

theorem Directory.undisturbed_step {s : Directory} (h : s.Undisturbed sha1 dir) (e : Errand) :
    (s.step sha1 dir e).Undisturbed sha1 dir := by
  cases e with
  | download w =>
      rcases s.step_download w with hstep | hstep
      · rw [hstep]
        rintro call ⟨⟩
        trivial
      · rw [hstep]
        exact h
  | advance a => exact Session.undisturbed_step h (.advance a)
  | crash size => exact Session.undisturbed_step h (.crash size)

theorem Directory.spares_of_ne {s : Directory} (h : s.Undisturbed sha1 dir) (e : Errand)
    (hpackage : u.package = v.package) (hne : u.suggestedFilename ≠ v.suggestedFilename) :
    s.Spares sha1 dir u v e := by
  have hparts : Job.partPath ⟨v, dir⟩ ≠ Job.partPath ⟨u, dir⟩ := by
    intro heq
    exact hne ((Job.partPath_inj hpackage).mp heq.symm)
  have hfinals : Job.finalPath ⟨v, dir⟩ ≠ Job.finalPath ⟨u, dir⟩ := by
    intro heq
    exact hne ((Job.finalPath_inj hpackage).mp heq.symm)
  -- a step of an attempt, with `u` as the variant under way
  have hattempt : ∀ e, s.variant = u → ∀ p, p = Job.partPath ⟨v, dir⟩ ∨ p = Job.finalPath ⟨v, dir⟩ →
      (s.session.step sha1 (s.job dir) e).disk.read p = s.session.disk.read p := by
    intro e hu p hp
    have hjob : s.job dir = ⟨u, dir⟩ := by rw [job, hu]
    have hsession : s.session.Undisturbed sha1 ⟨u, dir⟩ := hjob ▸ h
    rw [hjob]
    rcases hp with hp | hp
    · rw [hp]
      exact Session.read_step_of_ne hsession e hparts (Job.finalPath_ne_partPath _ _).symm
    · rw [hp]
      exact Session.read_step_of_ne hsession e (Job.finalPath_ne_partPath _ _) hfinals
  intro hvariant
  cases e with
  | download w =>
      rcases s.step_download w with hstep | hstep
      · rw [hstep]
        exact ⟨rfl, rfl⟩
      · rw [hstep]
        exact ⟨rfl, rfl⟩
  | advance a =>
      exact ⟨hattempt (.advance a) hvariant _ (Or.inl rfl),
        hattempt (.advance a) hvariant _ (Or.inr rfl)⟩
  | crash size =>
      exact ⟨hattempt (.crash size) hvariant _ (Or.inl rfl),
        hattempt (.crash size) hvariant _ (Or.inr rfl)⟩

/-! ## Runs -/

/-- Two files of a package are kept apart exactly when they do not look alike. -/
theorem saved_apart_iff (hpackage : u.package = v.package) : SavedApart u v ↔ ¬ LookAlike u v := by
  rw [← suggestedFilename_eq_iff hpackage]
  constructor
  · intro h
    exact h.names
  · intro hne
    refine ⟨hne, ?_, ?_⟩
    · intro dir hpart
      exact hne ((Job.partPath_inj hpackage).mp hpart)
    · intro sha1 dir s events hcall
      have hstart : s.Undisturbed sha1 dir := Session.undisturbed_of_none hcall
      have hspares : ∀ (s : Directory) (e : Errand), s.Undisturbed sha1 dir →
          s.Spares sha1 dir u v e ∧ s.Spares sha1 dir v u e := by
        intro s e h
        exact ⟨Directory.spares_of_ne h e hpackage hne,
          Directory.spares_of_ne h e hpackage.symm (Ne.symm hne)⟩
      exact Runs.along_of_invariant (fun _ e h => Directory.undisturbed_step h e) hspares hstart
        events

/-! ## Two screen densities, two architectures -/

def forDensity (dpi : String) : Variant := { sampleVariant none with dpi := some dpi }

def forArch (arch : String) : Variant := { sampleVariant none with arch := some arch }

/-- Two files that differ in the screen density only. -/
theorem saved_over_each_other :
    (forDensity "160dpi").package = (forDensity "480dpi").package ∧
      ¬ SameFile (forDensity "160dpi") (forDensity "480dpi") ∧
      (forDensity "160dpi").suggestedFilename = (forDensity "480dpi").suggestedFilename ∧
      ¬ SavedApart (forDensity "160dpi") (forDensity "480dpi") := by
  refine ⟨rfl, ?_, rfl, ?_⟩
  · intro h
    exact absurd h.dpi (by decide)
  · intro h
    exact h.names rfl

theorem saved_apart_iff_arch :
    SavedApart (forArch "arm64-v8a") (forArch "armeabi-v7a") := by
  have hpackage : (forArch "arm64-v8a").package = (forArch "armeabi-v7a").package := rfl
  apply (saved_apart_iff hpackage).mpr
  rw [← suggestedFilename_eq_iff hpackage]
  decide

end Xylitol.Apkpure
