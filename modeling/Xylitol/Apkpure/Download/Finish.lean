import Xylitol.Apkpure.Download.Resume

/-!
# Whether an attempt can finish

Every call returns, whatever it is answered: each step lowers a rank. What it returns, when nothing
goes wrong and the server follows the range rules, depends on how much is already there:

    part holds    nothing      some of b, not all      all of b
    request       no range     bytes=k-                bytes=n-
    answer        200, b       206, the rest           416
    result        Ok           Ok                      Err, and the same again on every retry

`attempt_finishes_iff` is this table, for a body and a published checksum that agree or not.
-/

namespace Xylitol.Apkpure

variable {sha1 : Bytes → Bytes} {job : Job} {a : Answer} {disk after : Disk Path}
  {phase phase' : Phase} {b : Bytes} {k : Nat}

/-- A call that has the disk to itself. -/
def soloStep (sha1 : Bytes → Bytes) (job : Job) (s : Call × Disk Path) (a : Answer) :
    Call × Disk Path :=
  s.1.step sha1 job a s.2

/-! ## Every call returns -/

/-- How far a call is from its end: the stage, and what is left of the loop it is in. -/
def rank (disk : Disk Path) : Phase → ℕ ×ₗ ℕ
  | .createDir => toLex (9, 0)
  | .metadata => toLex (8, 0)
  | .send _ => toLex (7, 0)
  | .openExisting .. => toLex (6, 0)
  | .rehash _ _ _ file offset _ => toLex (5, (disk.data file).length - offset)
  | .openAppend .. | .create .. => toLex (4, 0)
  | .next t => toLex (3, 2 * t.body.length)
  | .write t _ => toLex (3, 2 * t.body.length + 1)
  | .flush _ => toLex (2, 0)
  | .removePart .. | .rename .. => toLex (1, 0)
  | .done _ => toLex (0, 0)

theorem rank_lt_of_stage {m n x y : ℕ} (h : m < n) : (toLex (m, x) : ℕ ×ₗ ℕ) < toLex (n, y) :=
  Prod.Lex.toLex_lt_toLex.mpr (Or.inl h)

theorem rank_lt_of_left {n x y : ℕ} (h : x < y) : (toLex (n, x) : ℕ ×ₗ ℕ) < toLex (n, y) :=
  Prod.Lex.toLex_lt_toLex.mpr (Or.inr ⟨rfl, h⟩)

theorem length_readBytes_le {file offset : Nat} :
    (readBytes a disk file offset).length ≤ (disk.data file).length - offset := by
  rw [readBytes, List.length_take, List.length_drop]
  exact Nat.min_le_right _ _

theorem move_rank (hrunning : ∀ result, phase ≠ .done result)
    (hmove : Move sha1 job a disk phase phase' after) : rank after phase' < rank disk phase := by
  cases hmove with
  | @failed phase e h =>
      cases phase with
      | metadata | write | removePart => exact h.elim
      | done result => exact absurd rfl (hrunning result)
      | createDir | send | openExisting | rehash | openAppend | create | next | flush | rename =>
          exact rank_lt_of_stage (by decide)
  | @hashed startAt total body file offset hashed hread =>
      -- something was read, so less is left to read
      have hpos : 0 < (readBytes a disk file offset).length := List.length_pos_iff.mpr hread
      have hle : (readBytes a disk file offset).length ≤ (disk.data file).length - offset :=
        length_readBytes_le
      apply rank_lt_of_left
      omega
  | received hbody =>
      apply rank_lt_of_left
      rw [hbody, List.length_cons]
      exact Nat.lt_succ_self _
  | wrote => exact rank_lt_of_left (Nat.lt_succ_self _)
  | rest => exact absurd rfl (hrunning _)
  | dirCreated | measured | resumed | restarted | opened | rehashed | appending | created | ended
  | torn | accepted | rejected | removed | renamed => exact rank_lt_of_stage (by decide)

/-- The call has returned. -/
def Returned (s : Call × Disk Path) : Prop := ∃ result, s.1.phase = .done result

/-- A call returns after finitely many steps, whatever the answers are. -/
theorem call_returns (sha1 : Bytes → Bytes) (job : Job) (s : Call × Disk Path)
    (answers : ℕ → Answer) : ∃ n, Returned (Runs.after (soloStep sha1 job) s answers n) := by
  apply Runs.reaches_done (fun s : Call × Disk Path => rank s.2 s.1.phase)
  intro s a hrunning
  refine move_rank ?_ (step_moves sha1 job a s.1 s.2)
  exact fun result h => hrunning ⟨result, h⟩

/-! ## An uninterrupted attempt -/

/-- The stream sends `x` to its end, in chunks of any sizes. -/
def Sends (x : Bytes) (items : List Item) : Prop :=
  ∃ chunks : List Bytes, items = chunks.map .chunk ∧ chunks.flatten = x

/-- The answer of a server that holds `b` and follows the range rules, to a request for everything
from `already` on, where 0 asks for no range. -/
def Follows (b : Bytes) (already : Nat) (r : Response) : Prop :=
  if already = 0 then r.status = 200 ∧ Sends b r.body
  else if already < b.length then r.status = 206 ∧ Sends (b.drop already) r.body
  else r.status = 416

/-- Nothing fails in this step, nobody cancels, and a request is answered by the rules. -/
structure Uninterrupted (b : Bytes) (s : Call × Disk Path) (a : Answer) : Prop where
  noFault : a.fault = false
  notCancelled : a.cancelled = false
  answered : ∀ already, s.1.phase = .send already →
    ∃ r, a.response = some r ∧ Follows b already r

/-- Every published checksum is that of `b`, up to the case of its letters. -/
def ChecksumOk (sha1 : Bytes → Bytes) (job : Job) (b : Bytes) : Prop :=
  ∀ expected, job.variant.sha1 = some expected → expected ≠ "" →
    Text.eqIgnoreAsciiCase expected (Text.hex (sha1 b))

/-- There is something left to ask for, or no range is asked for at all. -/
def Askable (b : Bytes) (k : Nat) : Prop := k < b.length ∨ k = 0

theorem Sends.delivers {x : Bytes} {items : List Item} (h : Sends x items) : Delivers x items := by
  obtain ⟨chunks, rfl, rfl⟩ := h
  induction chunks with
  | nil => rfl
  | cons chunk chunks ih => exact ⟨chunks.flatten, rfl, ih⟩

theorem Sends.no_error {x : Bytes} {items : List Item} (h : Sends x items) : .error ∉ items := by
  obtain ⟨chunks, rfl, -⟩ := h
  simp

theorem Follows.answers {r : Response} (h : Follows b k r) : Answers b k r := by
  unfold Follows at h
  split at h
  · exact Or.inl ⟨h.1, h.2.delivers⟩
  · split at h
    · exact Or.inr (Or.inl ⟨h.1, by omega, h.2.delivers⟩)
    · exact Or.inr (Or.inr (by simp [Response.isSuccess, h]))

/-- The server refuses exactly the request for what is not there. -/
theorem Follows.isSuccess_iff {r : Response} (h : Follows b k r) :
    r.isSuccess = true ↔ Askable b k := by
  unfold Follows at h
  split at h
  · next hzero => simp [Response.isSuccess, h.1, Askable, hzero]
  · split at h
    · next hlt => simp [Response.isSuccess, h.1, Askable, hlt]
    · next hzero hlt => simp [Response.isSuccess, h, Askable, hzero, hlt]

theorem Follows.no_error {r : Response} (h : Follows b k r) (hok : r.isSuccess = true) :
    .error ∉ r.body := by
  unfold Follows at h
  split at h
  · exact h.2.no_error
  · split at h
    · exact h.2.no_error
    · rw [Response.isSuccess, h] at hok
      cases hok

/-! ## The fate of an attempt -/

/-- What has been settled in each phase: whether the request could be answered, and, behind the
check, whether the checksum is right. -/
def Fate (sha1 : Bytes → Bytes) (job : Job) (b : Bytes) (k : Nat) (disk : Disk Path) :
    Phase → Prop
  | .createDir | .metadata => ((disk.read job.partPath).getD []).length = k
  | .send already => already = k
  | .openExisting _ _ body | .rehash _ _ body _ _ _ | .openAppend _ _ body _ | .create _ body =>
    Askable b k ∧ .error ∉ body
  | .next t | .write t _ => Askable b k ∧ .error ∉ t.body
  | .flush _ => Askable b k
  | .removePart .. => ¬ ChecksumOk sha1 job b
  | .rename .. | .done (.ok _) => Askable b k ∧ ChecksumOk sha1 job b
  | .done (.error _) => ¬ (Askable b k ∧ ChecksumOk sha1 job b)

/-- Why an uninterrupted attempt fails: the server refuses it. -/
theorem fate_failed {reported : List Progress} (h : Obstructed job a disk phase)
    (hrun : Uninterrupted b (⟨phase, reported⟩, disk) a)
    (hpromised : Promised b job disk phase) (hfate : Fate sha1 job b k disk phase) :
    ¬ (Askable b k ∧ ChecksumOk sha1 job b) := by
  have hfault : ¬ a.fault = true := by simp [hrun.noFault]
  have hpart : ∀ {body}, Continues b job disk body → disk.read job.partPath ≠ none := by
    rintro body ⟨x, rest, hread, -⟩ hnone
    rw [hread] at hnone
    cases hnone
  cases phase with
  | createDir | rehash | create | flush => exact absurd h hfault
  | send already =>
      -- the only thing that can go wrong: the server refuses the range
      have hk : already = k := hfate
      subst hk
      obtain ⟨r, hr, hfollows⟩ := hrun.answered already rfl
      rintro ⟨hask, -⟩
      have hok := hfollows.isSuccess_iff.mpr hask
      rw [h r hr] at hok
      cases hok
  | openExisting | openAppend => exact absurd (h.resolve_left hfault) (hpart hpromised)
  | next t =>
      rcases h with ⟨hcancel, -⟩ | herror
      · rw [hrun.notCancelled] at hcancel
        cases hcancel
      · exact absurd (List.mem_of_mem_head? herror) hfate.2
  | rename bytes digest verified =>
      have hheld : disk.read job.partPath = some b := hpromised
      rw [h.resolve_left hfault] at hheld
      cases hheld
  | metadata | write | removePart | done => exact h.elim

/-- One step of an uninterrupted attempt settles its fate a little more. -/
theorem move_fate {reported : List Progress}
    (hrun : Uninterrupted b (⟨phase, reported⟩, disk) a)
    (hpromised : Promised b job disk phase) (hfate : Fate sha1 job b k disk phase)
    (hmove : Move sha1 job a disk phase phase' after) : Fate sha1 job b k after phase' := by
  cases hmove with
  | failed h => exact fate_failed h hrun hpromised hfate
  | dirCreated => exact hfate
  | measured =>
      have hlen : ((disk.read job.partPath).getD []).length = k := hfate
      show (if a.fault then 0 else ((disk.read job.partPath).map List.length).getD 0) = k
      rw [hrun.noFault, ← hlen]
      cases disk.read job.partPath <;> rfl
  | resumed hresponse hok hresume | restarted hresponse hok hresume =>
      obtain ⟨r', hr', hfollows⟩ := hrun.answered _ rfl
      rw [hresponse] at hr'
      cases hr'
      rw [show _ = k from hfate] at hfollows
      exact ⟨hfollows.isSuccess_iff.mp hok, hfollows.no_error hok⟩
  | opened | hashed | rehashed | appending | created | wrote | rest => exact hfate
  | received hbody =>
      refine ⟨hfate.1, ?_⟩
      have herror := hfate.2
      rw [hbody] at herror
      exact fun h => herror (List.mem_cons_of_mem _ h)
  | ended => exact hfate.1
  | torn hfault =>
      rw [hrun.noFault] at hfault
      cases hfault
  | @accepted t verified hmatch hpublished =>
      have hhashed : t.hashed = b := hpromised
      refine ⟨hfate, ?_⟩
      intro expected hexpected hne
      cases verified with
      | false =>
          rw [hexpected] at hpublished
          exact absurd (hpublished rfl) hne
      | true =>
          obtain ⟨expected', hexpected', -, heq⟩ := hmatch.mp rfl
          rw [hexpected] at hexpected'
          cases hexpected'
          rw [← hhashed]
          exact heq
  | @rejected t expected hpublished hne hmatch =>
      have hhashed : t.hashed = b := hpromised
      rw [hhashed] at hmatch
      exact fun hok => hmatch (hok expected hpublished hne)
  | removed => exact fun h => hfate h.2
  | renamed => exact hfate

/-- The invariant of an uninterrupted attempt. -/
structure AttemptInv (sha1 : Bytes → Bytes) (job : Job) (b : Bytes) (k : Nat)
    (s : Call × Disk Path) : Prop where
  part : PartOk b job s.2
  faithful : Faithful sha1 job s.2 s.1.phase
  promised : Promised b job s.2 s.1.phase
  fate : Fate sha1 job b k s.2 s.1.phase

theorem attemptInv_step {s : Call × Disk Path} (hinv : AttemptInv sha1 job b k s)
    (hrun : Uninterrupted b s a) : AttemptInv sha1 job b k (soloStep sha1 job s a) := by
  have hmove := step_moves sha1 job a s.1 s.2
  have hanswer : ∀ already r, s.1.phase = .send already → a.response = some r →
      Answers b already r := by
    intro already r hphase hr
    obtain ⟨r', hr', hfollows⟩ := hrun.answered already hphase
    rw [hr] at hr'
    cases hr'
    exact hfollows.answers
  obtain ⟨hpart, hpromised⟩ := move_promised hinv.faithful hinv.part hinv.promised hanswer hmove
  exact ⟨hpart, move_faithful hinv.faithful hmove, hpromised,
    move_fate hrun hinv.promised hinv.fate hmove⟩

/-- A new attempt with the first `k` bytes of `b` on disk. -/
theorem attemptInv_start (hk : k ≤ b.length)
    (hpart : (disk.read job.partPath).getD [] = b.take k) :
    AttemptInv sha1 job b k (.start, disk) := by
  refine ⟨?_, trivial, trivial, ?_⟩
  · intro x hx
    rw [hx, Option.getD_some] at hpart
    rw [hpart]
    exact List.take_prefix k b
  · show ((disk.read job.partPath).getD []).length = k
    rw [hpart, List.length_take, Nat.min_eq_left hk]

theorem attemptInv_after (hk : k ≤ b.length)
    (hpart : (disk.read job.partPath).getD [] = b.take k) {answers : ℕ → Answer}
    (hrun : ∀ n, Uninterrupted b (Runs.after (soloStep sha1 job) (.start, disk) answers n)
      (answers n)) (n : ℕ) :
    AttemptInv sha1 job b k (Runs.after (soloStep sha1 job) (.start, disk) answers n) :=
  Runs.invariant_after (fun _ _ => attemptInv_step) (attemptInv_start hk hpart) hrun n

/-! ## A server that follows the rules -/

/-- The answer by the rules, with all it sends in one chunk. -/
def reply (b : Bytes) (k : Nat) : Response :=
  if k = 0 then ⟨200, none, some b.length, [.chunk b]⟩
  else if k < b.length then ⟨206, none, some (b.length - k), [.chunk (b.drop k)]⟩
  else ⟨416, none, none, []⟩

theorem follows_reply (b : Bytes) (k : Nat) : Follows b k (reply b k) := by
  unfold Follows reply
  split
  · exact ⟨rfl, [b], rfl, List.flatten_singleton⟩
  · split
    · exact ⟨rfl, [b.drop k], rfl, List.flatten_singleton⟩
    · rfl

theorem uninterrupted_reply {s : Call × Disk Path} (hinv : AttemptInv sha1 job b k s) :
    Uninterrupted b s (smooth (some (reply b k))) := by
  refine ⟨rfl, rfl, ?_⟩
  intro already hphase
  have hfate := hinv.fate
  rw [hphase] at hfate
  have halready : already = k := hfate
  exact ⟨_, rfl, halready ▸ follows_reply b already⟩

/-- Such a server makes an uninterrupted attempt. -/
theorem attemptInv_reply (hk : k ≤ b.length)
    (hpart : (disk.read job.partPath).getD [] = b.take k) (n : ℕ) :
    AttemptInv sha1 job b k (Runs.after (soloStep sha1 job) (.start, disk)
      (fun _ => smooth (some (reply b k))) n) := by
  induction n with
  | zero => exact attemptInv_start hk hpart
  | succ n ih => exact attemptInv_step ih (uninterrupted_reply ih)

/-- With the first `k` bytes of `b` on disk, every uninterrupted attempt finishes the file exactly
when there is something left to ask for, or nothing there yet, and the published checksum is right. -/
theorem attempt_finishes_iff (hk : k ≤ b.length)
    (hpart : (disk.read job.partPath).getD [] = b.take k) :
    (∀ answers : ℕ → Answer,
      (∀ n, Uninterrupted b (Runs.after (soloStep sha1 job) (.start, disk) answers n) (answers n)) →
      ∃ n d, (Runs.after (soloStep sha1 job) (.start, disk) answers n).1.phase = .done (.ok d) ∧
        (Runs.after (soloStep sha1 job) (.start, disk) answers n).2.read job.finalPath = some b) ↔
    (k < b.length ∨ k = 0) ∧ ChecksumOk sha1 job b := by
  constructor
  · intro hfinishes
    have hinv : ∀ n, AttemptInv sha1 job b k (Runs.after (soloStep sha1 job) (.start, disk)
        (fun _ => smooth (some (reply b k))) n) := attemptInv_reply hk hpart
    obtain ⟨n, d, hdone, -⟩ := hfinishes _ fun n => uninterrupted_reply (hinv n)
    have hfate := (hinv n).fate
    rw [hdone] at hfate
    exact hfate
  · intro hok answers hrun
    obtain ⟨n, result, hdone⟩ := call_returns sha1 job (.start, disk) answers
    have hinv := attemptInv_after hk hpart hrun n
    have hfate := hinv.fate
    have hpromised := hinv.promised
    rw [hdone] at hfate hpromised
    cases result with
    | error e => exact absurd hok hfate
    | ok d => exact ⟨n, d, hdone, hpromised.1⟩

/-- A disk that holds a partial file and nothing else. -/
def diskWith (x : Bytes) : Disk Path :=
  let (disk, file) := emptyDisk.create sampleJob.partPath
  (disk.write file x).1

theorem read_diskWith (x : Bytes) : (diskWith x).read sampleJob.partPath = some x := by
  have hopen := (Disk.opened_create (d := emptyDisk) (p := sampleJob.partPath)).write x
  exact hopen.read

theorem attempt_finishes_iff_sample :
    (∀ answers : ℕ → Answer,
      (∀ n, Uninterrupted sampleBody (Runs.after (soloStep sampleSha1 sampleJob)
        (.start, diskWith [1, 2]) answers n) (answers n)) →
      ∃ n d, (Runs.after (soloStep sampleSha1 sampleJob) (.start, diskWith [1, 2]) answers n).1.phase
          = .done (.ok d) ∧
        (Runs.after (soloStep sampleSha1 sampleJob) (.start, diskWith [1, 2]) answers n).2.read
          sampleJob.finalPath = some sampleBody) ↔
    (2 < sampleBody.length ∨ 2 = 0) ∧ ChecksumOk sampleSha1 sampleJob sampleBody := by
  apply attempt_finishes_iff (by decide)
  rw [read_diskWith]
  rfl

/-- The program dies behind the last chunk, before the rename. -/
def diedBeforeRename : Session :=
  Runs.run (Session.step sampleSha1 sampleJob) noAttempt (attemptWith wholeBody 7 ++ [.crash 0])

/-- All five bytes are there, the server refuses to send what is behind them, and no uninterrupted
attempt ever returns `Ok`. -/
theorem whole_part_never_finishes :
    diedBeforeRename.disk.read sampleJob.partPath = some (sampleBody.take 5) ∧
    (∀ n, Uninterrupted sampleBody (Runs.after (soloStep sampleSha1 sampleJob)
      (.start, diedBeforeRename.disk) (fun _ => smooth (some ⟨416, none, none, []⟩)) n)
      (smooth (some ⟨416, none, none, []⟩))) ∧
    ∀ n d, (Runs.after (soloStep sampleSha1 sampleJob) (.start, diedBeforeRename.disk)
      (fun _ => smooth (some ⟨416, none, none, []⟩)) n).1.phase ≠ .done (.ok d) := by
  have hread : diedBeforeRename.disk.read sampleJob.partPath = some (sampleBody.take 5) := by
    decide
  have hinv : ∀ n, AttemptInv sampleSha1 sampleJob sampleBody 5 (Runs.after
      (soloStep sampleSha1 sampleJob) (.start, diedBeforeRename.disk)
      (fun _ => smooth (some (reply sampleBody 5))) n) := by
    apply attemptInv_reply (by decide)
    rw [hread]
    rfl
  have hreply : reply sampleBody 5 = ⟨416, none, none, []⟩ := by decide
  rw [← hreply]
  refine ⟨hread, fun n => uninterrupted_reply (hinv n), ?_⟩
  intro n d hdone
  have hfate := (hinv n).fate
  rw [hdone] at hfate
  have hask : 5 < sampleBody.length ∨ 5 = 0 := hfate.1
  exact absurd hask (by decide)

end Xylitol.Apkpure
