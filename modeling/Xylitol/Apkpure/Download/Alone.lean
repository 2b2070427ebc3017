import Xylitol.Apkpure.Download.Finish
import Xylitol.Apkpure.Download.Scraped

/-!
# A call from its start to its end

A program that makes a call waits for it, or is gone before it returns. While nobody else is in the
directory, what the call says when it returns is what is on disk, and what it has touched are its own
two files, whatever the server sends and whichever file system call fails:

    counted     the bytes counted are the bytes of the partial file
    others      no other name is touched
    final       the finished file is as it was until the call returns `Ok`
-/

namespace Xylitol.Apkpure

variable {sha1 : Bytes → Bytes} {job : Job} {a : Answer} {disk disk₀ after : Disk Path}
  {phase phase' : Phase}

/-! ## Counting -/

/-- What has been counted is what the file holds, or will hold when the chunk is written. -/
def Counted (job : Job) (disk : Disk Path) : Phase → Prop
  | .send already => already = 0 ∨ ∃ x, disk.read job.partPath = some x ∧ x.length = already
  | .openExisting startAt .. | .rehash startAt .. | .openAppend startAt .. =>
    ∃ x, disk.read job.partPath = some x ∧ x.length = startAt
  | .next t | .flush t => t.downloaded = t.hashed.length
  | .write t chunk => t.downloaded + chunk.length = t.hashed.length
  | .rename bytes _ _ => ∃ x, disk.read job.partPath = some x ∧ x.length = bytes
  | .done (.ok d) => ∃ x, disk.read job.finalPath = some x ∧ x.length = d.bytes
  | _ => True

theorem counted_measured (fault : Bool) : Counted job disk
    (.send (if fault then 0 else ((disk.read job.partPath).map List.length).getD 0)) := by
  cases fault with
  | true => exact Or.inl rfl
  | false =>
      cases hread : disk.read job.partPath with
      | none => exact Or.inl rfl
      | some x => exact Or.inr ⟨x, hread, rfl⟩

theorem move_counted (hfaithful : Faithful sha1 job disk phase) (h : Counted job disk phase)
    (hmove : Move sha1 job a disk phase phase' after) : Counted job after phase' := by
  cases hmove with
  | measured => exact counted_measured a.fault
  | resumed hresponse hok hresume =>
      rcases h with hzero | hread
      · omega
      · exact hread
  | @appending startAt total body hashed file hfile =>
      -- what was hashed is what the partial file holds
      obtain ⟨x, hread, hlen⟩ := h
      have hhashed : disk.read job.partPath = some hashed := hfaithful
      rw [hread, Option.some.injEq] at hhashed
      subst hhashed
      exact hlen.symm
  | created => rfl
  | @received t bytes rest hbody =>
      have hcount : t.downloaded = t.hashed.length := h
      show t.downloaded + bytes.length = (t.hashed ++ bytes).length
      rw [List.length_append, hcount]
  | @accepted t verified hmatch hpublished =>
      have hcount : t.downloaded = t.hashed.length := h
      exact ⟨t.hashed, Disk.Opened.read hfaithful, hcount.symm⟩
  | renamed hrename =>
      obtain ⟨x, hread, hlen⟩ := h
      obtain ⟨hfinal, -, -⟩ := Disk.rename_eq_some hrename job.partPath_ne_finalPath
      exact ⟨x, hfinal.trans hread, hlen⟩
  | opened | hashed | rehashed | ended | wrote | rest => exact h
  | failed | dirCreated | restarted | torn | rejected | removed => trivial

/-! ## What a call leaves behind -/

/-- The result of a call is true of the disk it leaves, where `content` is the finished file. -/
structure Finished (sha1 : Bytes → Bytes) (job : Job) (content : Bytes) (disk : Disk Path)
    (d : Downloaded) : Prop where
  path : d.path = job.finalPath
  file : disk.read job.finalPath = some content
  noPart : disk.read job.partPath = none
  bytes : d.bytes = content.length
  sha1 : d.sha1 = Text.hex (sha1 content)
  verified : d.verified = true ↔ Matches job d.sha1

/-- What holds of a call and the disk it has to itself, which was `disk₀` when it was made. -/
structure Alone (sha1 : Bytes → Bytes) (job : Job) (disk₀ : Disk Path) (s : Call × Disk Path) :
    Prop where
  faithful : Faithful sha1 job s.2 s.1.phase
  counted : Counted job s.2 s.1.phase
  judged : Judged job s.1.phase
  others : ∀ p, p ≠ job.partPath → p ≠ job.finalPath → s.2.read p = disk₀.read p
  final : (∀ d, s.1.phase ≠ .done (.ok d)) → s.2.read job.finalPath = disk₀.read job.finalPath
  finished : ∀ d, s.1.phase = .done (.ok d) → ∃ content, Finished sha1 job content s.2 d

/-- A step that ends a call with `Ok` has finished the file. -/
theorem move_finished {d : Downloaded} (hfaithful : Faithful sha1 job disk phase)
    (hcounted : Counted job disk phase) (hrunning : ∀ result, phase ≠ .done result)
    (hmove : Move sha1 job a disk phase (.done (.ok d)) after) :
    ∃ content, Finished sha1 job content after d := by
  obtain ⟨held, hfinal, hpart, -, hpath, hsha1, hverified⟩ :=
    move_done_ok hfaithful hrunning hmove
  obtain ⟨x, hread, hlen⟩ := move_counted hfaithful hcounted hmove
  rw [hfinal, Option.some.injEq] at hread
  subst hread
  exact ⟨held, hpath, hfinal, hpart, hlen.symm, hsha1, hverified⟩

theorem alone_step {s : Call × Disk Path} (h : Alone sha1 job disk₀ s) :
    Alone sha1 job disk₀ (soloStep sha1 job s a) := by
  by_cases hdone : ∃ result, s.1.phase = .done result
  · -- a call that has returned rests
    obtain ⟨result, hresult⟩ := hdone
    have hrest : soloStep sha1 job s a = s := by simp [soloStep, Call.step, hresult]
    rw [hrest]
    exact h
  · have hmove := step_moves sha1 job a s.1 s.2
    have hrunning : ∀ result, s.1.phase ≠ .done result := fun result hr => hdone ⟨result, hr⟩
    constructor
    · exact move_faithful h.faithful hmove
    · exact move_counted h.faithful h.counted hmove
    · exact judged_step h.judged hmove
    · intro p hpart hfinal
      rw [← h.others p hpart hfinal]
      rcases move_read_of_ne h.faithful hpart hmove with hsame | ⟨hp, -⟩
      · exact hsame
      · exact absurd hp hfinal
    · intro hnotOk
      rw [← h.final fun d hd => hrunning _ hd]
      rcases move_final h.faithful hmove with hsame | ⟨bytes, digest, verified, hphase⟩
      · exact hsame
      · -- the rename has failed, it has not led to `Ok`
        unfold soloStep at hnotOk ⊢
        rw [hphase] at hmove
        generalize s.1.step sha1 job a s.2 = next at hmove hnotOk ⊢
        obtain ⟨⟨phase', reported'⟩, after⟩ := next
        cases hmove with
        | failed => rfl
        | renamed => exact absurd rfl (hnotOk _)
    · intro d hd
      have hd' : (s.1.step sha1 job a s.2).1.phase = .done (.ok d) := hd
      rw [hd'] at hmove
      exact move_finished h.faithful h.counted hrunning hmove

theorem alone_run (sha1 : Bytes → Bytes) (job : Job) (disk : Disk Path) (answers : List Answer) :
    Alone sha1 job disk (Runs.run (soloStep sha1 job) (.start, disk) answers) := by
  have hstart : Alone sha1 job disk (.start, disk) :=
    ⟨trivial, trivial, trivial, fun _ _ _ => rfl, fun _ => rfl, fun _ hd => nomatch hd⟩
  exact Runs.invariant_every_run (fun _ _ h => alone_step h) hstart answers

end Xylitol.Apkpure
