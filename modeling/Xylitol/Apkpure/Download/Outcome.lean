import Xylitol.Apkpure.Download.Finish

/-!
# What a finished download says of the file

A call counts bytes, hashes them, writes them and reports them, in four different places and on two
ways into the loop:

    resumed      kept = what the partial file held      the partial file is hashed first
    restarted    kept = nothing                         the partial file is emptied first

On both ways the four agree with `kept` and what the stream has delivered since. `download_outcome`
is what this means for `Ok` and for `Err`.
-/

namespace Xylitol.Apkpure

variable {sha1 : Bytes → Bytes} {job : Job} {a : Answer} {disk after : Disk Path}
  {phase phase' : Phase} {kept : Bytes} {body : List Item} {reported : List Progress}

/-! ## What is reported -/

/-- The progress that is reported on the way into a phase. -/
def Phase.told : Phase → List Progress
  | .next t => [⟨t.downloaded, t.total⟩]
  | .createDir | .metadata | .send _ | .openExisting .. | .rehash .. | .openAppend .. | .create ..
  | .write .. | .flush _ | .removePart .. | .rename .. | .done _ => []

theorem reported_respond (call : Call) (already : Nat) (r : Response) :
    (call.respond job already r).reported
      = call.reported ++ (call.respond job already r).phase.told := by
  unfold Call.respond
  split
  · simp [Call.fail, Call.goto, Phase.told]
  · split
    · simp [Call.fail, Call.goto, Phase.told]
    · dsimp only
      split
      · simp [Call.goto, Phase.told]
      · simp [Call.goto, Phase.told]

theorem reported_verify (call : Call) (t : Transfer) :
    (call.verify sha1 job t).reported
      = call.reported ++ (call.verify sha1 job t).phase.told := by
  unfold Call.verify
  dsimp only
  split
  · split
    · simp [Call.goto, Phase.told]
    · split
      · simp [Call.goto, Phase.told]
      · simp [Call.goto, Phase.told]
  · simp [Call.goto, Phase.told]

theorem step_reported (sha1 : Bytes → Bytes) (job : Job) (a : Answer) (call : Call)
    (disk : Disk Path) :
    (call.step sha1 job a disk).1.reported
      = call.reported ++ (call.step sha1 job a disk).1.phase.told := by
  obtain ⟨phase, reported⟩ := call
  unfold Call.step
  cases phase with
  | send already =>
    dsimp only
    split
    · simp [Call.fail, Call.goto, Phase.told]
    · exact reported_respond _ _ _
  | flush t =>
    dsimp only
    split
    · simp [Call.fail, Call.goto, Phase.told]
    · exact reported_verify _ _
  | createDir | metadata | openExisting | rehash | openAppend | create | next | write | removePart
  | rename | done =>
    dsimp only
    repeat' split
    all_goals simp [Call.fail, Call.goto, Call.report, Phase.told]

/-- Progress from `first` to `last` without a step back. -/
structure Reported (first last : Nat) (reported : List Progress) : Prop where
  starts : (reported.map Progress.downloaded).head? = some first
  rises : (reported.map Progress.downloaded).Pairwise (· ≤ ·)
  ends : (reported.map Progress.downloaded).getLast? = some last

theorem Reported.one (n : Nat) (total : Option Nat) : Reported n n [⟨n, total⟩] := by
  refine ⟨rfl, ?_, rfl⟩
  exact List.pairwise_singleton _ _

theorem Reported.snoc {first last n : Nat} {total : Option Nat} (h : Reported first last reported)
    (hn : last ≤ n) : Reported first n (reported ++ [⟨n, total⟩]) := by
  obtain ⟨earlier, hearlier⟩ := List.getLast?_eq_some_iff.mp h.ends
  have hle : ∀ m ∈ reported.map Progress.downloaded, m ≤ last := by
    intro m hm
    have hrises := h.rises
    rw [hearlier] at hm hrises
    rcases List.mem_append.mp hm with hm | hm
    · exact (List.pairwise_append.mp hrises).2.2 m hm last List.mem_cons_self
    · exact (List.mem_singleton.mp hm).le
  constructor
  · rw [List.map_append, List.head?_append, h.starts]
    rfl
  · rw [List.map_append, List.pairwise_append]
    refine ⟨h.rises, List.pairwise_singleton _ _, ?_⟩
    intro m hm m' hm'
    rw [List.mem_singleton.mp hm']
    exact (hle m hm).trans hn
  · rw [List.map_append]
    exact List.getLast?_concat

/-! ## Four counts of the same bytes -/

/-- What a stream delivers. -/
def received (body : List Item) : Bytes :=
  body.flatMap fun
    | .chunk bytes => bytes
    | .error => []

/-- The result of a call is true of the disk it leaves, where `content` is to be the finished file,
and of its progress. -/
structure Describes (sha1 : Bytes → Bytes) (job : Job) (content : Bytes) (first : Nat)
    (reported : List Progress) (disk : Disk Path) (d : Downloaded) : Prop where
  path : d.path = job.finalPath
  file : disk.read job.finalPath = some content
  noPart : disk.read job.partPath = none
  bytes : d.bytes = content.length
  sha1 : d.sha1 = Text.hex (sha1 content)
  verified : d.verified = true ↔ Matches job d.sha1
  progress : Reported first d.bytes reported

/-- What a call knows of its transfer: `kept` is what it goes on from and `body` what the server
sends. -/
def Tally (sha1 : Bytes → Bytes) (job : Job) (kept : Bytes) (body : List Item) (disk : Disk Path)
    (reported : List Progress) : Phase → Prop
  | .createDir | .metadata | .send _ => False
  | .openExisting startAt _ rest | .rehash startAt _ rest _ _ _ | .openAppend startAt _ rest _ =>
    reported = [] ∧ startAt = kept.length ∧ rest = body ∧ disk.read job.partPath = some kept
  | .create _ rest => reported = [] ∧ kept = [] ∧ rest = body
  | .next t => Reported kept.length t.downloaded reported ∧ t.downloaded = t.hashed.length ∧
    t.hashed ++ received t.body = kept ++ received body
  | .write t chunk => Reported kept.length t.downloaded reported ∧
    t.downloaded + chunk.length = t.hashed.length ∧
    t.hashed ++ received t.body = kept ++ received body
  | .flush t => Reported kept.length t.downloaded reported ∧ t.downloaded = t.hashed.length ∧
    t.hashed = kept ++ received body
  | .rename bytes _ _ => Reported kept.length bytes reported ∧
    bytes = (kept ++ received body).length ∧
    disk.read job.partPath = some (kept ++ received body)
  | .done (.ok d) => Describes sha1 job (kept ++ received body) kept.length reported disk d
  | .removePart .. | .done (.error _) => True

/-- A step of a call that nobody disturbs keeps the counts in agreement. -/
theorem move_tally (hfaithful : Faithful sha1 job disk phase)
    (h : Tally sha1 job kept body disk reported phase)
    (hrunning : ∀ result, phase ≠ .done result)
    (hmove : Move sha1 job a disk phase phase' after) :
    Tally sha1 job kept body after (reported ++ phase'.told) phase' := by
  cases hmove with
  | failed | torn | rejected | removed => trivial
  | dirCreated | measured | resumed | restarted => exact h.elim
  | opened | hashed | rehashed =>
    rw [Phase.told, List.append_nil]
    exact h
  | @appending startAt total rest hashed file hfile =>
    obtain ⟨rfl, rfl, rfl, hread⟩ := h
    have hhashed : hashed = kept := Option.some.inj (hfaithful.symm.trans hread)
    refine ⟨Reported.one _ _, ?_, ?_⟩
    · rw [hhashed]
    · rw [hhashed]
  | created =>
    obtain ⟨rfl, rfl, rfl⟩ := h
    exact ⟨Reported.one _ _, rfl, rfl⟩
  | @received t bytes rest hbody =>
    obtain ⟨hreported, hcount, hall⟩ := h
    rw [Phase.told, List.append_nil]
    refine ⟨hreported, ?_, ?_⟩
    · rw [List.length_append, hcount]
    · rw [← hall, hbody]
      simp [received]
  | @ended t hbody =>
    obtain ⟨hreported, hcount, hall⟩ := h
    rw [Phase.told, List.append_nil]
    refine ⟨hreported, hcount, ?_⟩
    rw [← hall, hbody]
    simp [received]
  | wrote =>
    obtain ⟨hreported, hcount, hall⟩ := h
    exact ⟨hreported.snoc (Nat.le_add_right _ _), hcount, hall⟩
  | @accepted t verified hmatch hpublished =>
    obtain ⟨hreported, hcount, hall⟩ := h
    rw [Phase.told, List.append_nil]
    refine ⟨hreported, ?_, ?_⟩
    · rw [hcount, hall]
    · rw [← hall]
      exact Disk.Opened.read hfaithful
  | @renamed bytes digest verified after hrename =>
    obtain ⟨hreported, hcount, hread⟩ := h
    obtain ⟨held, hfinal, hpart, hheld, hpath, hsha1, hverified⟩ :=
      move_done_ok (a := a) hfaithful hrunning (.renamed hrename)
    rw [hread, Option.some.injEq] at hheld
    subst hheld
    rw [Phase.told, List.append_nil]
    exact ⟨hpath, hfinal, hpart, hcount, hsha1, hverified, hreported⟩
  | rest => exact absurd rfl (hrunning _)

/-! ## From the request on -/

/-- What a call keeps of the partial file when `r` answers its request. -/
def keptPart (job : Job) (disk : Disk Path) (r : Response) : Bytes :=
  if r.status = 206 then (disk.read job.partPath).getD [] else []

/-- Where a call is once it has asked: it has failed, or the transfer of a response is going on. -/
def Tracked (sha1 : Bytes → Bytes) (job : Job) (disk₀ : Disk Path) (response : Option Response)
    (s : Call × Disk Path) : Prop :=
  (∃ e, s.1.phase = .done (.error e)) ∨
    ∃ r, response = some r ∧
      Tally sha1 job (keptPart job disk₀ r) r.body s.2 s.1.reported s.1.phase

/-- The first two steps: the directory, and how much is there. -/
theorem after_two {answers : ℕ → Answer} (hfault : ∀ n, (answers n).fault = false) :
    Runs.after (soloStep sha1 job) (.start, disk) answers 2
      = (⟨.send ((disk.read job.partPath).getD []).length, []⟩, disk) := by
  have hlength : ((disk.read job.partPath).map List.length).getD 0
      = ((disk.read job.partPath).getD []).length := by
    cases disk.read job.partPath <;> rfl
  simp [Runs.after, soloStep, Call.step, Call.start, Call.goto, hfault, hlength]

/-- The third step: the request. -/
theorem tracked_send :
    Tracked sha1 job disk a.response
      (soloStep sha1 job (⟨.send ((disk.read job.partPath).getD []).length, []⟩, disk) a) := by
  have hmoves := step_moves sha1 job a ⟨.send ((disk.read job.partPath).getD []).length, []⟩ disk
  have htold := step_reported sha1 job a
    ⟨.send ((disk.read job.partPath).getD []).length, []⟩ disk
  unfold soloStep
  dsimp only
  generalize Call.step sha1 job a _ disk = next at hmoves htold ⊢
  obtain ⟨⟨phase', reported'⟩, after⟩ := next
  dsimp only at hmoves htold
  cases hmoves with
  | failed => exact Or.inl ⟨_, rfl⟩
  | @resumed already r total hresponse hok hresume =>
    obtain ⟨hpos, hstatus⟩ := hresume
    obtain ⟨x, hx⟩ : ∃ x, disk.read job.partPath = some x := by
      cases hread : disk.read job.partPath with
      | none => simp [hread] at hpos
      | some x => exact ⟨x, rfl⟩
    have hkept : keptPart job disk r = x := by simp [keptPart, hstatus, hx]
    refine Or.inr ⟨r, hresponse, htold, ?_, rfl, ?_⟩
    · rw [hkept, hx]
      rfl
    · rw [hkept]
      exact hx
  | @restarted already r total hresponse hok hresume =>
    have hkept : keptPart job disk r = [] := by
      unfold keptPart
      split
      · next hstatus =>
        have hzero : ((disk.read job.partPath).getD []).length = 0 := by
          by_contra hpos
          exact hresume ⟨Nat.pos_of_ne_zero hpos, hstatus⟩
        exact List.length_eq_zero_iff.mp hzero
      · rfl
    exact Or.inr ⟨r, hresponse, htold, hkept, rfl⟩

theorem tracked_step {disk₀ : Disk Path} {response : Option Response} {s : Call × Disk Path}
    (hfaithful : Faithful sha1 job s.2 s.1.phase) (h : Tracked sha1 job disk₀ response s) :
    Tracked sha1 job disk₀ response (soloStep sha1 job s a) := by
  by_cases hdone : ∃ result, s.1.phase = .done result
  · obtain ⟨result, hresult⟩ := hdone
    have hrest : soloStep sha1 job s a = s := by simp [soloStep, Call.step, hresult]
    rw [hrest]
    exact h
  · rcases h with ⟨e, he⟩ | ⟨r, hr, htally⟩
    · exact absurd ⟨_, he⟩ hdone
    · refine Or.inr ⟨r, hr, ?_⟩
      unfold soloStep
      rw [step_reported]
      exact move_tally hfaithful htally (fun result h => hdone ⟨result, h⟩)
        (step_moves sha1 job a s.1 s.2)

/-! ## What is left behind -/

theorem removePart_of_mismatch {call : Call} {expected actual : String}
    (h : (call.step sha1 job a disk).1.phase
      = .done (.error (.checksumMismatch expected actual))) :
    call.phase = .removePart expected actual ∨
      call.phase = .done (.error (.checksumMismatch expected actual)) := by
  obtain ⟨phase, reported⟩ := call
  unfold Call.step at h
  cases phase with
  | removePart expected actual =>
    left
    simpa [Call.fail, Call.goto] using h
  | done result => exact Or.inr h
  | createDir | metadata | send | openExisting | rehash | openAppend | create | next | write | flush
  | rename =>
    simp only [Call.respond, Call.verify] at h
    repeat' split at h
    all_goals simp [Call.fail, Call.goto, Call.report] at h

/-- The finished file before it is renamed into place, and the partial file that has the wrong
checksum. -/
structure LeftBehind (sha1 : Bytes → Bytes) (job : Job) (disk₀ : Disk Path) (s : Call × Disk Path) :
    Prop where
  faithful : Faithful sha1 job s.2 s.1.phase
  final : (∀ d, s.1.phase ≠ .done (.ok d)) → s.2.read job.finalPath = disk₀.read job.finalPath
  mismatch : ∀ expected actual, s.1.phase = .done (.error (.checksumMismatch expected actual)) →
    s.2.read job.partPath = none

theorem leftBehind_step {disk₀ : Disk Path} {s : Call × Disk Path} (h : LeftBehind sha1 job disk₀ s)
    (hfault : a.fault = false) : LeftBehind sha1 job disk₀ (soloStep sha1 job s a) := by
  have hmoves := step_moves sha1 job a s.1 s.2
  constructor
  · exact move_faithful h.faithful hmoves
  · intro hnotOk
    have hbefore : s.2.read job.finalPath = disk₀.read job.finalPath := by
      apply h.final
      intro d hd
      apply hnotOk d
      simp [soloStep, Call.step, hd]
    rw [← hbefore]
    rcases move_final h.faithful hmoves with hsame | ⟨bytes, digest, verified, hphase⟩
    · exact hsame
    · -- the rename has either failed or led to `Ok`
      unfold soloStep at hnotOk ⊢
      rw [hphase] at hmoves
      generalize s.1.step sha1 job a s.2 = next at hmoves hnotOk ⊢
      obtain ⟨⟨phase', reported'⟩, after⟩ := next
      cases hmoves with
      | failed => rfl
      | renamed => exact absurd rfl (hnotOk _)
  · intro expected actual hphase
    rcases removePart_of_mismatch hphase with hremove | hdone
    · have hdisk : (soloStep sha1 job s a).2 = s.2.remove job.partPath := by
        simp [soloStep, Call.step, hremove, hfault]
      rw [hdisk]
      exact Disk.read_remove_self
    · have hrest : soloStep sha1 job s a = s := by simp [soloStep, Call.step, hdone]
      rw [hrest]
      exact h.mismatch expected actual hdone

theorem leftBehind_after {answers : ℕ → Answer} (hfault : ∀ n, (answers n).fault = false) (n : ℕ) :
    LeftBehind sha1 job disk (Runs.after (soloStep sha1 job) (.start, disk) answers n) := by
  have hstart : LeftBehind sha1 job disk (.start, disk) :=
    ⟨trivial, fun _ => rfl, fun _ _ h => nomatch h⟩
  exact Runs.invariant_after (fun _ _ => leftBehind_step) hstart hfault n

theorem tracked_after {answers : ℕ → Answer} (hfault : ∀ n, (answers n).fault = false) (n : ℕ) :
    Tracked sha1 job disk (answers 2).response
      (Runs.after (soloStep sha1 job) (.start, disk) answers (n + 3)) := by
  induction n with
  | zero =>
    rw [Nat.zero_add, Runs.after, after_two hfault]
    exact tracked_send
  | succ n ih => exact tracked_step (leftBehind_after hfault _).faithful ih

theorem describes_of_ok {answers : ℕ → Answer} (hfault : ∀ n, (answers n).fault = false) {n : ℕ}
    {d : Downloaded}
    (hd : (Runs.after (soloStep sha1 job) (.start, disk) answers n).1.phase = .done (.ok d)) :
    ∃ r, (answers 2).response = some r ∧
      Describes sha1 job (keptPart job disk r ++ received r.body) (keptPart job disk r).length
        (Runs.after (soloStep sha1 job) (.start, disk) answers n).1.reported
        (Runs.after (soloStep sha1 job) (.start, disk) answers n).2 d := by
  match n with
  | 0 => simp [Runs.after, Call.start] at hd
  | 1 => simp [Runs.after, soloStep, Call.step, Call.start, Call.goto, hfault] at hd
  | 2 => simp [after_two hfault] at hd
  | n + 3 =>
    rcases tracked_after hfault n with ⟨e, he⟩ | ⟨r, hr, htally⟩
    · rw [he] at hd
      cases hd
    · rw [hd] at htally
      exact ⟨r, hr, htally⟩

/-- A call that has the disk to itself, in file system calls that succeed: `Ok` describes the
finished file, which is what was kept of the partial file and what the server sent, and `Err` leaves
the finished file as it was. -/
theorem download_outcome (sha1 : Bytes → Bytes) (job : Job) (disk : Disk Path)
    (answers : ℕ → Answer) (hfault : ∀ n, (answers n).fault = false) (n : ℕ) :
    let s := Runs.after (soloStep sha1 job) (.start, disk) answers n
    (∀ d, s.1.phase = .done (.ok d) → ∃ r, (answers 2).response = some r ∧
      Describes sha1 job (keptPart job disk r ++ received r.body) (keptPart job disk r).length
        s.1.reported s.2 d) ∧
    ∀ e, s.1.phase = .done (.error e) →
      s.2.read job.finalPath = disk.read job.finalPath ∧
        ∀ expected actual, e = .checksumMismatch expected actual →
          s.2.read job.partPath = none := by
  intro s
  refine ⟨fun d hd => describes_of_ok hfault hd, ?_⟩
  have hleft : LeftBehind sha1 job disk s := leftBehind_after hfault n
  intro e he
  constructor
  · apply hleft.final
    intro d hd
    rw [he] at hd
    cases hd
  · rintro expected actual rfl
    exact hleft.mismatch expected actual he

/-- The rest of the sample body, in two chunks. -/
def restInChunks : Response := ⟨206, none, some 3, [.chunk [3], .chunk [4, 5]]⟩

def sampleDownloaded : Downloaded :=
  ⟨sampleJob.finalPath, 5, "11966ab9c099f8fabefac54c08d5be2bd8c903af", true⟩

/-- The first two bytes are there already. -/
theorem download_outcome_resumed :
    let s := Runs.after (soloStep sampleSha1 sampleJob) (.start, diskWith [1, 2])
      (fun _ => smooth (some restInChunks)) 14
    s.1.phase = .done (.ok sampleDownloaded) ∧
      Describes sampleSha1 sampleJob sampleBody 2 s.1.reported s.2 sampleDownloaded := by
  intro s
  have hdone : s.1.phase = .done (.ok sampleDownloaded) := by decide
  have hkept : keptPart sampleJob (diskWith [1, 2]) restInChunks = [1, 2] := by decide
  obtain ⟨r, hr, hdescribes⟩ := (download_outcome sampleSha1 sampleJob (diskWith [1, 2])
    (fun _ => smooth (some restInChunks)) (fun _ => rfl) 14).1 sampleDownloaded hdone
  cases hr
  rw [hkept] at hdescribes
  exact ⟨hdone, hdescribes⟩

end Xylitol.Apkpure
