import Xylitol.Apkpure.Download.Resume
import Xylitol.Sharing

/-!
# Several downloads of one file

Nothing keeps two calls for one variant from sharing the partial file: they open it by its name, each
writes at an offset of its own, and each hashes what it has received.

    A: create ─ write c₁ ──────────── write c₂ ─ hash ok ─ rename     final file: a hole, then c₂
    B: ──────────────────── create

A call holds the partial file from its own first open of it to its return. As long as no call opens
it while another one holds it, a call works as if it were alone: `verified_file_kept`.
-/

namespace Xylitol.Apkpure

variable {I : Type} [DecidableEq I] {sha1 : Bytes → Bytes} {job : Job} {a : Answer}
  {disk after : Disk Path} {phase phase' : Phase}

/-! ## The system -/

/-- Any number of calls for one variant into one directory. -/
structure Downloads (I : Type) where
  calls : I → Call
  disk : Disk Path

/-- One call takes one step. -/
def Downloads.step (sha1 : Bytes → Bytes) (job : Job) (s : Downloads I) (e : I × Answer) :
    Downloads I where
  calls := Function.update s.calls e.1 ((s.calls e.1).step sha1 job e.2 s.disk).1
  disk := ((s.calls e.1).step sha1 job e.2 s.disk).2

/-- The call has opened the partial file and not returned. -/
def Phase.holds : Phase → Bool
  | .rehash .. | .openAppend .. | .next _ | .write .. | .flush _ | .removePart .. | .rename .. => true
  | .createDir | .metadata | .send _ | .openExisting .. | .create .. | .done _ => false

/-- The next step opens the partial file for the first time. -/
def Phase.opens (job : Job) (disk : Disk Path) (a : Answer) : Phase → Bool
  | .openExisting .. => !a.fault && (disk.names job.partPath).isSome
  | .create .. => !a.fault
  | _ => false

/-- The next step renames the partial file. -/
def Phase.renames (a : Answer) : Phase → Bool
  | .rename .. => !a.fault
  | _ => false

/-- Nobody opens the partial file while another call holds it. -/
def Exclusive (job : Job) (s : Downloads I) (e : I × Answer) : Prop :=
  (s.calls e.1).phase.opens job s.disk e.2 → ∀ j, j ≠ e.1 → ¬ (s.calls j).phase.holds

/-- The step renames nothing over the final file. -/
def NoRename (s : Downloads I) (e : I × Answer) : Prop := ¬ (s.calls e.1).phase.renames e.2

/-- The final file has the published checksum. -/
def Certified (sha1 : Bytes → Bytes) (job : Job) (disk : Disk Path) : Prop :=
  ∃ held, disk.read job.finalPath = some held ∧ Matches job (Text.hex (sha1 held))

instance [Fintype I] (s : Downloads I) (e : I × Answer) : Decidable (Exclusive job s e) :=
  inferInstanceAs (Decidable (_ → _))

omit [DecidableEq I] in
instance (s : Downloads I) (e : I × Answer) : Decidable (NoRename s e) :=
  inferInstanceAs (Decidable (¬ _))

/-! ## One call at a time -/

/-- A call holds the file only because it did so before or has just opened it. -/
theorem holds_of_move (hmove : Move sha1 job a disk phase phase' after) (h : phase'.holds) :
    phase.holds ∨ phase.opens job disk a := by
  cases hmove with
  | opened hfault hfile => exact Or.inr (by simp [Phase.opens, hfault, hfile])
  | created hfault => exact Or.inr (by simp [Phase.opens, hfault])
  | failed | dirCreated | measured | resumed | restarted | torn | removed | renamed | rest =>
      simp [Phase.holds] at h
  | hashed | rehashed | appending | received | ended | wrote | accepted | rejected =>
      exact Or.inl rfl

/-- A call that neither holds the file nor opens it leaves the disk as it is. -/
theorem disk_of_move (hmove : Move sha1 job a disk phase phase' after) (hholds : ¬ phase.holds)
    (hopens : ¬ phase.opens job disk a) : after = disk := by
  cases hmove with
  | created hfault => simp [Phase.opens, hfault] at hopens
  | wrote | torn | removed | renamed => simp [Phase.holds] at hholds
  | failed | dirCreated | measured | resumed | restarted | opened | hashed | rehashed | appending
  | received | ended | accepted | rejected | rest => rfl

/-- Only a call that holds the file knows anything of it. -/
theorem faithful_of_not_holds (h : ¬ phase.holds) : Faithful sha1 job disk phase := by
  cases phase with
  | rehash | openAppend | next | write | flush | removePart | rename => simp [Phase.holds] at h
  | createDir | metadata | send | openExisting | create | done => trivial

/-- At most one call holds the partial file, and it knows what the file holds. -/
structure Downloads.Inv (sha1 : Bytes → Bytes) (job : Job) (s : Downloads I) : Prop where
  alone : ∀ i j, i ≠ j → (s.calls i).phase.holds → ¬ (s.calls j).phase.holds
  faithful : ∀ i, Faithful sha1 job s.disk (s.calls i).phase

omit [DecidableEq I] in
theorem Downloads.inv_start {s : Downloads I} (hstart : ∀ i, s.calls i = .start) :
    s.Inv sha1 job := by
  constructor
  · intro i j _ hi
    rw [hstart i] at hi
    cases hi
  · intro i
    rw [hstart i]
    trivial

theorem Downloads.inv_step {s : Downloads I} {e : I × Answer} (hinv : s.Inv sha1 job)
    (hexclusive : Exclusive job s e) : (s.step sha1 job e).Inv sha1 job := by
  have hmove := step_moves sha1 job e.2 (s.calls e.1) s.disk
  have hsole : Sharing.Sole (fun call : Call => call.phase.holds = true)
      (fun call disk => Faithful sha1 job disk call.phase) s.calls s.disk :=
    ⟨hinv.alone, hinv.faithful⟩
  obtain ⟨halone, hfaithful⟩ := hsole.update (fun _ hholds _ => faithful_of_not_holds hholds)
    (move_faithful (hinv.faithful e.1) hmove) (holds_of_move hmove) (disk_of_move hmove) hexclusive
  exact ⟨halone, hfaithful⟩

/-! ## The certified file -/

/-- A certified file stays certified while nobody renames. -/
theorem certified_step {s : Downloads I} {e : I × Answer} (hinv : s.Inv sha1 job)
    (hnorename : NoRename s e) (h : Certified sha1 job s.disk) :
    Certified sha1 job (s.step sha1 job e).disk := by
  obtain ⟨held, hread, hmatch⟩ := h
  refine ⟨held, ?_, hmatch⟩
  have hmove := step_moves sha1 job e.2 (s.calls e.1) s.disk
  rcases move_final (hinv.faithful e.1) hmove with hsame | ⟨bytes, digest, verified, hphase⟩
  · exact hsame.trans hread
  · -- a rename that fails moves nothing
    have hfault : e.2.fault = true := by
      rw [NoRename, hphase] at hnorename
      simpa [Phase.renames] using hnorename
    have hdisk : (s.step sha1 job e).disk = s.disk := by
      show ((s.calls e.1).step sha1 job e.2 s.disk).2 = s.disk
      rw [Call.step, hphase]
      simp [hfault]
    rw [hdisk]
    exact hread

theorem certified_run {s : Downloads I} {events : List (I × Answer)} (hinv : s.Inv sha1 job)
    (hexclusive : Runs.Along (Downloads.step sha1 job) (Exclusive job) s events)
    (hnorename : Runs.Along (Downloads.step sha1 job) NoRename s events)
    (h : Certified sha1 job s.disk) :
    Certified sha1 job (Runs.run (Downloads.step sha1 job) s events).disk := by
  induction events generalizing s with
  | nil => exact h
  | cons e rest ih =>
      apply ih (Downloads.inv_step hinv hexclusive.1) hexclusive.2 hnorename.2
      exact certified_step hinv hnorename.1 h

/-- The step in which a call returns `Ok` with `verified` certifies the file. -/
theorem certified_of_returns {s : Downloads I} {i : I} {d : Downloaded} (hinv : s.Inv sha1 job)
    (hrunning : ∀ result, (s.calls i).phase ≠ .done result)
    (hreturns : ((s.step sha1 job (i, a)).calls i).phase = .done (.ok d))
    (hverified : d.verified = true) : Certified sha1 job (s.step sha1 job (i, a)).disk := by
  have hmove := step_moves sha1 job a (s.calls i) s.disk
  have hself : (s.step sha1 job (i, a)).calls i = ((s.calls i).step sha1 job a s.disk).1 :=
    Function.update_self ..
  rw [hself] at hreturns
  rw [hreturns] at hmove
  obtain ⟨held, hfinal, -, -, -, hdigest, hmatch⟩ := move_done_ok (hinv.faithful i) hrunning hmove
  exact ⟨held, hfinal, hdigest ▸ hmatch.mp hverified⟩

/-- In a run in which nobody opens the partial file while another call holds it, the final file has
the published checksum when a call returns `Ok` with `verified`, and until somebody renames over
it. -/
theorem verified_file_kept {s : Downloads I} {i : I} {d : Downloaded}
    {before later : List (I × Answer)} (hstart : ∀ j, s.calls j = .start)
    (hexclusive : Runs.Along (Downloads.step sha1 job) (Exclusive job) s
      (before ++ (i, a) :: later))
    (hrunning : ∀ result,
      ((Runs.run (Downloads.step sha1 job) s before).calls i).phase ≠ .done result)
    (hreturns : ((Runs.run (Downloads.step sha1 job) s (before ++ [(i, a)])).calls i).phase
      = .done (.ok d))
    (hverified : d.verified = true)
    (hnorename : Runs.Along (Downloads.step sha1 job) NoRename
      (Runs.run (Downloads.step sha1 job) s (before ++ [(i, a)])) later) :
    Certified sha1 job (Runs.run (Downloads.step sha1 job) s (before ++ (i, a) :: later)).disk := by
  obtain ⟨hbefore, hstep, hlater⟩ := Runs.along_append.mp hexclusive
  have hinv : (Runs.run (Downloads.step sha1 job) s before).Inv sha1 job :=
    Runs.invariant_run (fun _ _ => Downloads.inv_step) (Downloads.inv_start hstart) hbefore
  rw [Runs.run_append] at hreturns hnorename
  rw [Runs.run_append, Runs.run_cons]
  apply certified_run (Downloads.inv_step hinv hstep) hlater hnorename
  exact certified_of_returns hinv hrunning hreturns hverified

/-! ## Two downloads -/

def twoDownloads : Downloads Bool := ⟨fun _ => .start, emptyDisk⟩

def steps (i : Bool) (n : Nat) : List (Bool × Answer) := List.replicate n (i, smooth none)

/-- A call up to and including its request, which is answered with the whole body. -/
def request (i : Bool) : List (Bool × Answer) := steps i 2 ++ [(i, smooth (some wholeBody))]

def sampleDone : Downloaded :=
  ⟨sampleJob.finalPath, 5, "11966ab9c099f8fabefac54c08d5be2bd8c903af", true⟩

/-- One call downloads the file; then the other one starts and writes its first chunk. -/
theorem verified_file_kept_in_turn : Certified sampleSha1 sampleJob
    (Runs.run (Downloads.step sampleSha1 sampleJob) twoDownloads
      ((request true ++ steps true 7)
        ++ (true, smooth none) :: (request false ++ steps false 3))).disk := by
  have hphase : ((Runs.run (Downloads.step sampleSha1 sampleJob) twoDownloads
      (request true ++ steps true 7)).calls true).phase = .rename 5 sampleDone.sha1 true := by
    decide
  refine verified_file_kept (d := sampleDone) (fun _ => rfl) (by decide) ?_
    (by decide) rfl (by decide)
  intro result h
  rw [hphase] at h
  cases h

/-- Both calls have sent their requests before either has written anything. The second one opens the
partial file when the first has written its first chunk, and never does anything again. -/
def overlapping : List (Bool × Answer) :=
  request false ++ (request true ++ steps true 3) ++ (steps false 1 ++ steps true 5)

/-- The first call returns `Ok` with `verified`, and the file it has left is a hole with the second
chunk behind it. -/
theorem verified_hole :
    Answers sampleBody 0 wholeBody ∧
    ((Runs.run (Downloads.step sampleSha1 sampleJob) twoDownloads overlapping).calls true).phase
      = .done (.ok sampleDone) ∧
    (Runs.run (Downloads.step sampleSha1 sampleJob) twoDownloads overlapping).disk.read
      sampleJob.finalPath = some [0, 0, 3, 4, 5] ∧
    ¬ Certified sampleSha1 sampleJob
      (Runs.run (Downloads.step sampleSha1 sampleJob) twoDownloads overlapping).disk := by
  have hread : (Runs.run (Downloads.step sampleSha1 sampleJob) twoDownloads overlapping).disk.read
      sampleJob.finalPath = some [0, 0, 3, 4, 5] := by decide
  refine ⟨Or.inl ⟨rfl, [3, 4, 5], rfl, [], rfl, rfl⟩, by decide, hread, ?_⟩
  rintro ⟨held, hheld, expected, hexpected, -, hmatch⟩
  rw [hread] at hheld
  cases hheld
  cases hexpected
  exact absurd hmatch (by decide)

end Xylitol.Apkpure
