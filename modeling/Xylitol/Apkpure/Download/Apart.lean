import Xylitol.Apkpure.Download.Alone
import Xylitol.Apkpure.Download.Concurrent
import Xylitol.Apkpure.Download.Directory

/-!
# Calls for different files at a time

Calls that save different files run side by side on one disk, in any order of steps:

    steady_move    what a call knows of its two names stays true when it takes a step
    sameAt_move    a step of a call leaves every other name as it is
    Steady.congr   so it stays true when another call takes one

What a call says when it returns `Ok` is then true, and it stays true whatever the others go on to do.
-/

namespace Xylitol.Apkpure

variable {sha1 : Bytes → Bytes} {job : Job} {a : Answer} {disk after : Disk Path}
  {phase phase' : Phase}

/-! ## Names of others -/

/-- A step of a call leaves every name that is not its own as it is. -/
theorem sameAt_move {p : Path} (h : Faithful sha1 job disk phase) (hpart : p ≠ job.partPath)
    (hfinal : p ≠ job.finalPath) (hmove : Move sha1 job a disk phase phase' after) :
    Disk.SameAt p disk after := by
  cases hmove with
  | created => exact Disk.sameAt_create hpart
  | wrote | torn =>
    obtain ⟨old, -, hopen⟩ := h
    exact hopen.sameAt_write _ hpart
  | removed =>
    split
    · exact Disk.SameAt.refl _ _
    · exact Disk.sameAt_remove hpart
  | renamed hrename => exact Disk.sameAt_rename hrename hpart hfinal
  | failed | dirCreated | measured | resumed | restarted | opened | hashed | rehashed | appending
  | received | ended | accepted | rejected | rest => exact Disk.SameAt.refl _ _

theorem Faithful.congr (h : Faithful sha1 job disk phase)
    (hsame : Disk.SameAt job.partPath disk after) : Faithful sha1 job after phase := by
  cases phase with
  | rehash startAt total body file offset hashed =>
    obtain ⟨hfile, hhashed⟩ := h
    refine ⟨hsame.names.trans hfile, ?_⟩
    rw [hsame.data file hfile]
    exact hhashed
  | openAppend => exact hsame.read.trans h
  | next | flush => exact hsame.opened h
  | write =>
    obtain ⟨old, hhashed, hopen⟩ := h
    exact ⟨old, hhashed, hsame.opened hopen⟩
  | rename =>
    obtain ⟨held, hread, hrest⟩ := h
    exact ⟨held, hsame.read.trans hread, hrest⟩
  | createDir | metadata | send | openExisting | create | removePart | done => trivial

theorem Counted.congr (h : Counted job disk phase) (hpart : Disk.SameAt job.partPath disk after)
    (hfinal : Disk.SameAt job.finalPath disk after) : Counted job after phase := by
  cases phase with
  | send =>
    rcases h with hzero | ⟨x, hread, hlen⟩
    · exact Or.inl hzero
    · exact Or.inr ⟨x, hpart.read.trans hread, hlen⟩
  | openExisting | rehash | openAppend | rename =>
    obtain ⟨x, hread, hlen⟩ := h
    exact ⟨x, hpart.read.trans hread, hlen⟩
  | next | write | flush => exact h
  | done result =>
    cases result with
    | error => trivial
    | ok d =>
      obtain ⟨x, hread, hlen⟩ := h
      exact ⟨x, hfinal.read.trans hread, hlen⟩
  | createDir | metadata | create | removePart => trivial

/-! ## One call among others -/

/-- What a call knows of its two names is true. Its finished file may be gone. -/
structure Reliable (sha1 : Bytes → Bytes) (job : Job) (disk : Disk Path) (phase : Phase) :
    Prop where
  faithful : Faithful sha1 job disk phase
  judged : Judged job phase
  result : ∀ d, phase = .done (.ok d) → d.path = job.finalPath ∧
    ∀ x, disk.read job.finalPath = some x → d.sha1 = Text.hex (sha1 x)

/-- The same, and its finished file is there. -/
structure Steady (sha1 : Bytes → Bytes) (job : Job) (disk : Disk Path) (phase : Phase) : Prop
    extends Reliable sha1 job disk phase where
  counted : Counted job disk phase
  noPart : ∀ d, phase = .done (.ok d) → disk.read job.partPath = none

theorem reliable_start : Reliable sha1 job disk Call.start.phase := ⟨trivial, trivial, nofun⟩

theorem steady_start : Steady sha1 job disk Call.start.phase := ⟨reliable_start, trivial, nofun⟩

/-- A call that has returned rests. -/
theorem move_done {result : Except Error Downloaded}
    (hmove : Move sha1 job a disk (.done result) phase' after) :
    phase' = .done result ∧ after = disk := by
  cases hmove with
  | failed hnot => exact False.elim hnot
  | rest => exact ⟨rfl, rfl⟩

theorem reliable_move (h : Reliable sha1 job disk phase)
    (hmove : Move sha1 job a disk phase phase' after) : Reliable sha1 job after phase' := by
  by_cases hdone : ∃ result, phase = .done result
  · obtain ⟨result, rfl⟩ := hdone
    obtain ⟨rfl, rfl⟩ := move_done hmove
    exact h
  · refine ⟨move_faithful h.faithful hmove, judged_step h.judged hmove, ?_⟩
    rintro d rfl
    obtain ⟨held, hfinal, -, -, hpath, hsha1, -⟩ :=
      move_done_ok h.faithful (fun result hr => hdone ⟨result, hr⟩) hmove
    refine ⟨hpath, ?_⟩
    intro x hx
    rw [hfinal] at hx
    cases hx
    exact hsha1

theorem steady_move (h : Steady sha1 job disk phase)
    (hmove : Move sha1 job a disk phase phase' after) : Steady sha1 job after phase' := by
  by_cases hdone : ∃ result, phase = .done result
  · obtain ⟨result, rfl⟩ := hdone
    obtain ⟨rfl, rfl⟩ := move_done hmove
    exact h
  · refine ⟨reliable_move h.toReliable hmove, move_counted h.faithful h.counted hmove, ?_⟩
    rintro d rfl
    obtain ⟨held, -, hpart, -⟩ :=
      move_done_ok h.faithful (fun result hr => hdone ⟨result, hr⟩) hmove
    exact hpart

/-- Others may take the finished file away. -/
theorem Reliable.congr (h : Reliable sha1 job disk phase)
    (hpart : Disk.SameAt job.partPath disk after)
    (hfinal : ∀ x, after.read job.finalPath = some x → disk.read job.finalPath = some x) :
    Reliable sha1 job after phase := by
  refine ⟨h.faithful.congr hpart, h.judged, ?_⟩
  intro d hd
  obtain ⟨hpath, hsha1⟩ := h.result d hd
  exact ⟨hpath, fun x hx => hsha1 x (hfinal x hx)⟩

theorem Steady.congr (h : Steady sha1 job disk phase)
    (hpart : Disk.SameAt job.partPath disk after) (hfinal : Disk.SameAt job.finalPath disk after) :
    Steady sha1 job after phase := by
  refine ⟨h.toReliable.congr hpart (fun x hx => hfinal.read.symm.trans hx),
    h.counted.congr hpart hfinal, ?_⟩
  intro d hd
  rw [hpart.read]
  exact h.noPart d hd

theorem Verdict.verified_iff {digest : String} {verified : Bool} (h : Verdict job digest verified) :
    verified = true ↔ Matches job digest := by
  refine ⟨h.matching, ?_⟩
  rintro ⟨expected, hexpected, hne, -⟩
  by_contra hnot
  have hempty := h.skipped (Bool.eq_false_iff.mpr hnot)
  rw [hexpected] at hempty
  exact hne hempty

/-- What a call says when it has returned `Ok`. -/
theorem Steady.finished {d : Downloaded} (h : Steady sha1 job disk phase)
    (hd : phase = .done (.ok d)) : ∃ content, Finished sha1 job content disk d := by
  have hcounted := h.counted
  have hjudged := h.judged
  obtain ⟨hpath, hsha1⟩ := h.result d hd
  rw [hd] at hcounted hjudged
  obtain ⟨x, hread, hlen⟩ := hcounted
  exact ⟨x, hpath, hread, h.noPart d hd, hlen.symm, hsha1 x hread, Verdict.verified_iff hjudged⟩

/-- Others do not set a call back. -/
theorem rank_congr (h : Faithful sha1 job disk phase)
    (hsame : Disk.SameAt job.partPath disk after) : rank after phase = rank disk phase := by
  cases phase with
  | rehash startAt total body file offset hashed =>
    rw [rank, rank, hsame.data file h.1]
  | _ => rfl

/-- Two jobs that save different files share no name. -/
theorem Job.names_ne {i j : Job} (h : i.finalPath ≠ j.finalPath) :
    i.partPath ≠ j.partPath ∧ i.partPath ≠ j.finalPath ∧ i.finalPath ≠ j.partPath := by
  refine ⟨?_, (Job.finalPath_ne_partPath j i).symm, Job.finalPath_ne_partPath i j⟩
  intro hpart
  rw [Job.partPath_eq, Job.partPath_eq, List.append_left_inj] at hpart
  exact h hpart

/-- A step of a call for another file disturbs nothing. -/
theorem Steady.other {i j : Job} {phase₁ : Phase} (h : Steady sha1 i disk phase₁)
    (hne : i.finalPath ≠ j.finalPath) (hfaithful : Faithful sha1 j disk phase)
    (hmove : Move sha1 j a disk phase phase' after) : Steady sha1 i after phase₁ := by
  obtain ⟨hpart, hpartFinal, hfinalPart⟩ := Job.names_ne hne
  exact h.congr (sameAt_move hfaithful hpart hpartFinal hmove)
    (sameAt_move hfaithful hfinalPart hne hmove)

/-! ## Calls side by side -/

variable {I : Type} [DecidableEq I] {jobs : I → Job}

/-- One of the calls takes a step, each for its own file. -/
def Downloads.stepEach (sha1 : Bytes → Bytes) (jobs : I → Job) (s : Downloads I) (e : I × Answer) :
    Downloads I := s.step sha1 (jobs e.1) e

/-- Every call knows its two names, and the other names are as they were on `disk₀`. -/
structure Beside (sha1 : Bytes → Bytes) (jobs : I → Job) (disk₀ : Disk Path) (s : Downloads I) :
    Prop where
  steady : ∀ i, Steady sha1 (jobs i) s.disk (s.calls i).phase
  others : ∀ p, (∀ i, p ≠ (jobs i).partPath ∧ p ≠ (jobs i).finalPath) → s.disk.read p = disk₀.read p

theorem beside_step (hapart : ∀ i j, i ≠ j → (jobs i).finalPath ≠ (jobs j).finalPath)
    {disk₀ : Disk Path} {s : Downloads I} (h : Beside sha1 jobs disk₀ s) (e : I × Answer) :
    Beside sha1 jobs disk₀ (s.stepEach sha1 jobs e) := by
  have hmove := step_moves sha1 (jobs e.1) e.2 (s.calls e.1) s.disk
  have hfaithful := (h.steady e.1).faithful
  constructor
  · refine (Function.forall_update_iff s.calls fun i call =>
      Steady sha1 (jobs i) (s.stepEach sha1 jobs e).disk call.phase).mpr ⟨?_, ?_⟩
    · exact steady_move (h.steady e.1) hmove
    · intro j hj
      exact (h.steady j).other (hapart j e.1 hj) hfaithful hmove
  · intro p hp
    rw [← h.others p hp]
    exact (sameAt_move hfaithful (hp e.1).1 (hp e.1).2 hmove).read

/-- Whatever the servers send to any number of calls for different files, whichever of their file
system calls fail and in whichever order they take their steps: what a call says when it returns `Ok`
is on disk from then on, and no name but theirs is touched. -/
theorem downloads_beside (sha1 : Bytes → Bytes)
    (hapart : ∀ i j, i ≠ j → (jobs i).finalPath ≠ (jobs j).finalPath) (disk : Disk Path)
    (events : List (I × Answer)) :
    let s := Runs.run (Downloads.stepEach sha1 jobs) ⟨fun _ => .start, disk⟩ events
    (∀ i d, (s.calls i).phase = .done (.ok d) →
      ∃ content, Finished sha1 (jobs i) content s.disk d) ∧
    ∀ p, (∀ i, p ≠ (jobs i).partPath ∧ p ≠ (jobs i).finalPath) → s.disk.read p = disk.read p := by
  intro s
  have hstart : Beside sha1 jobs disk ⟨fun _ => .start, disk⟩ :=
    ⟨fun _ => steady_start, fun _ _ => rfl⟩
  have hstep : ∀ (s : Downloads I) (e : I × Answer), Beside sha1 jobs disk s →
      Beside sha1 jobs disk (s.stepEach sha1 jobs e) := fun _ e h => beside_step hapart h e
  have hrun : Beside sha1 jobs disk s := Runs.invariant_every_run hstep hstart events
  exact ⟨fun i d hd => (hrun.steady i).finished hd, hrun.others⟩

/-- Two architectures of one version. -/
def twoJobs : Bool → Job
  | true => sampleJob
  | false => ⟨forArch "armeabi-v7a", sampleJob.dir⟩

/-- Both calls have sent their requests; then they take turns. -/
def turns : List (Bool × Answer) :=
  request true ++ request false ++
    (List.replicate 8 [(true, smooth none), (false, smooth none)]).flatten

theorem downloads_beside_turns :
    let s := Runs.run (Downloads.stepEach sampleSha1 twoJobs) twoDownloads turns
    (∃ content, Finished sampleSha1 sampleJob content s.disk sampleDone) ∧
      s.disk.read (utf8Bytes "/d") = none := by
  have hapart : ∀ i j, i ≠ j → (twoJobs i).finalPath ≠ (twoJobs j).finalPath := by decide
  have hrun := downloads_beside sampleSha1 hapart emptyDisk turns
  exact ⟨hrun.1 true sampleDone (by decide), hrun.2 (utf8Bytes "/d") (by decide)⟩

end Xylitol.Apkpure
