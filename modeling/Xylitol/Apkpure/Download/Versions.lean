import Xylitol.Apkpure.Download.Resume

/-!
# A file the server replaces

Between two attempts the server may replace the file it holds, and it may answer a request for the
rest of it with the bytes from some other offset on. The client keeps no validator of the answer its
partial file comes from, and it does not look at the `Content-Range` of the next one:

    attempt 1    200   v₀v₁v₂ ── cut                       part:  v₀v₁v₂
    attempt 2    206   the rest of w                       final: v₀v₁v₂w₃w₄

A 206 is appended to whatever is on disk, and that run is `spliced`. The finished file is one version
of the file as long as every answer fits what is on disk when it comes:
`finished_file_is_one_version`.
-/

namespace Xylitol.Apkpure

variable {sha1 : Bytes → Bytes} {job : Job} {a : Answer} {disk after : Disk Path}
  {phase phase' : Phase} {V : Set Bytes}

/-! ## The server -/

/-- An accepted answer makes `v`, together with what is on disk when it resumes. -/
def Fits (v : Bytes) (job : Job) (disk : Disk Path) (already : Nat) (r : Response) : Prop :=
  if 0 < already ∧ r.status = 206 then Continues v job disk r.body else Delivers v r.body

/-- Every accepted answer fits one of the versions `V`. -/
def Session.ServesFitting (V : Set Bytes) (job : Job) (s : Session) : Happening → Prop
  | .advance a => ∀ call already r, s.call = some call → call.phase = .send already →
      a.response = some r → r.isSuccess = true → ∃ v ∈ V, Fits v job s.disk already r
  | _ => True

/-- The server sends one of the versions `V`, the whole of it or what comes from some offset on. -/
def Session.ServesOneOf (V : Set Bytes) (s : Session) : Happening → Prop
  | .advance a => ∀ call already r, s.call = some call → call.phase = .send already →
      a.response = some r → ∃ v ∈ V, (r.status = 200 ∧ Delivers v r.body) ∨
        (r.status = 206 ∧ 0 < already ∧ ∃ offset, Delivers (v.drop offset) r.body) ∨
        r.isSuccess = false
  | _ => True

/-- An attempt that returned `Ok` has left one version of the file, and no partial file. -/
def Session.OneVersion (V : Set Bytes) (job : Job) (s : Session) : Prop :=
  ∀ call d, s.call = some call → call.phase = .done (.ok d) →
    ∃ v ∈ V, s.disk.read job.finalPath = some v ∧ s.disk.read job.partPath = none

/-! ## One step -/

/-- From the answer on, the call is on its way to one version. -/
def Vouched (V : Set Bytes) (job : Job) (disk : Disk Path) (phase : Phase) : Prop :=
  phase.answered = true → ∃ v ∈ V, Promised v job disk phase

theorem Vouched.of_unanswered (h : phase.answered = false) : Vouched V job disk phase := by
  intro hanswered
  rw [h] at hanswered
  cases hanswered

/-- The version is chosen by the answer and kept to by every later step. -/
theorem move_vouched (hfaithful : Faithful sha1 job disk phase)
    (hvouched : Vouched V job disk phase)
    (hserves : ∀ already r, phase = .send already → a.response = some r → r.isSuccess = true →
      ∃ v ∈ V, Fits v job disk already r)
    (hmove : Move sha1 job a disk phase phase' after) : Vouched V job after phase' := by
  by_cases hanswered : phase.answered = true
  · obtain ⟨v, hv, hpromised⟩ := hvouched hanswered
    intro _
    exact ⟨v, hv, move_kept hanswered hfaithful hpromised hmove⟩
  · cases hmove with
    | failed | dirCreated | measured | removed => exact Vouched.of_unanswered rfl
    | resumed hresponse hok hresume =>
        obtain ⟨v, hv, hfits⟩ := hserves _ _ rfl hresponse hok
        rw [Fits, if_pos hresume] at hfits
        intro _
        exact ⟨v, hv, hfits⟩
    | restarted hresponse hok hresume =>
        obtain ⟨v, hv, hfits⟩ := hserves _ _ rfl hresponse hok
        rw [Fits, if_neg hresume] at hfits
        intro _
        exact ⟨v, hv, hfits⟩
    | rest => exact hvouched
    | opened | hashed | rehashed | appending | created | received | ended | wrote | torn
    | accepted | rejected | renamed => exact absurd rfl hanswered

/-! ## Runs of attempts -/

/-- The invariant of a run. It says nothing about the partial file between two attempts. -/
structure Session.OnTrack (sha1 : Bytes → Bytes) (V : Set Bytes) (job : Job) (s : Session) :
    Prop where
  faithful : ∀ call, s.call = some call → Faithful sha1 job s.disk call.phase
  vouched : ∀ call, s.call = some call → Vouched V job s.disk call.phase

theorem Session.onTrack_of_none {s : Session} (h : s.call = none) : s.OnTrack sha1 V job := by
  refine ⟨undisturbed_of_none h, ?_⟩
  simp [h]

theorem Session.onTrack_step {s : Session} {e : Happening} (hinv : s.OnTrack sha1 V job)
    (hserves : s.ServesFitting V job e) : (s.step sha1 job e).OnTrack sha1 V job := by
  refine ⟨undisturbed_step hinv.faithful e, ?_⟩
  intro call' hcall'
  rcases step_call hcall' with ⟨rfl, -⟩ | ⟨hcall, hdisk⟩ | ⟨a, call, rfl, hcall, rfl, hdisk⟩
  · exact Vouched.of_unanswered rfl
  · rw [hdisk]
    exact hinv.vouched call' hcall
  · rw [hdisk]
    apply move_vouched (hinv.faithful call hcall) (hinv.vouched call hcall) _
      (step_moves sha1 job a call s.disk)
    intro already r
    exact hserves call already r hcall

theorem Session.OnTrack.oneVersion {s : Session} (hinv : s.OnTrack sha1 V job) :
    s.OneVersion V job := by
  intro call d hcall hphase
  have hvouched := hinv.vouched call hcall
  rw [hphase] at hvouched
  exact hvouched rfl

/-- Whatever is on disk when the run begins and whatever the server holds from one attempt to the
next: if every accepted answer fits, an attempt that returns `Ok` leaves one version of the file. -/
theorem finished_file_is_one_version {s : Session} {events : List Happening} (hcall : s.call = none)
    (hserves : Runs.Along (Session.step sha1 job) (Session.ServesFitting V job) s events) :
    (Runs.run (Session.step sha1 job) s events).OneVersion V job := by
  have hstart : s.OnTrack sha1 V job := Session.onTrack_of_none hcall
  exact (Runs.invariant_run (fun _ _ => Session.onTrack_step) hstart hserves).oneVersion

/-! ## A file that is replaced after three bytes -/

/-- No checksum is published. -/
def unverifiedJob : Job := ⟨sampleVariant none, utf8Bytes "/d"⟩

def replacedBody : Bytes := [6, 7, 8, 9, 10]

def bothVersions : Set Bytes := {sampleBody, replacedBody}

def cutBody : Response := ⟨200, none, some 5, [.chunk [1, 2, 3], .error]⟩

def restOfReplaced : Response := ⟨206, none, some 2, [.chunk [9, 10]]⟩

def wholeReplaced : Response := ⟨200, none, some 5, [.chunk [6, 7, 8, 9, 10]]⟩

/-- The connection is lost, the file is replaced, the next attempt gets the rest of the new one. -/
def spliced : List Happening := attemptWith cutBody 4 ++ attemptWith restOfReplaced 9

/-- The connection is lost, the file is replaced, the server sends the new one from its start. -/
def replaced : List Happening := attemptWith cutBody 4 ++ attemptWith wholeReplaced 6

/-- The finished file begins like one version and ends like the other. -/
theorem finished_file_of_two_versions :
    Runs.Along (Session.step sampleSha1 unverifiedJob) (Session.ServesOneOf bothVersions) noAttempt
        spliced ∧
      (Runs.run (Session.step sampleSha1 unverifiedJob) noAttempt spliced).disk.read
        unverifiedJob.finalPath = some [1, 2, 3, 9, 10] ∧
      ¬ (Runs.run (Session.step sampleSha1 unverifiedJob) noAttempt spliced).OneVersion
        bothVersions unverifiedJob := by
  have hquiet : ∀ s : Session, s.ServesOneOf bothVersions (.advance (smooth none)) := by
    intro s call already r _ _ hr
    cases hr
  have hread : (Runs.run (Session.step sampleSha1 unverifiedJob) noAttempt spliced).disk.read
      unverifiedJob.finalPath = some [1, 2, 3, 9, 10] := by
    decide
  refine ⟨Runs.along_append.mpr ⟨?_, ?_⟩, hread, ?_⟩
  · apply along_attemptWith (fun _ => trivial) hquiet
    refine Session.answered_of_send 0 (by decide) rfl ?_
    exact ⟨sampleBody, Or.inl rfl, Or.inl ⟨rfl, [4, 5], rfl, trivial⟩⟩
  · apply along_attemptWith (fun _ => trivial) hquiet
    refine Session.answered_of_send 3 (by decide) rfl ?_
    exact ⟨replacedBody, Or.inr rfl, Or.inr (Or.inl ⟨rfl, by omega, 3, [], rfl, rfl⟩)⟩
  · intro hone
    have hdone : (Runs.run (Session.step sampleSha1 unverifiedJob) noAttempt spliced).call.map
        Call.phase = some (.done (.ok ⟨unverifiedJob.finalPath, 5,
          Text.hex (sampleSha1 [1, 2, 3, 9, 10]), false⟩)) := by
      decide
    obtain ⟨call, hcall, hphase⟩ := Option.map_eq_some_iff.mp hdone
    obtain ⟨v, hv, hfinal, -⟩ := hone call _ hcall hphase
    rw [hread, Option.some.injEq] at hfinal
    subst hfinal
    rcases hv with hv | hv <;> cases hv

/-- A server that sends the whole of the new version. -/
theorem finished_file_is_one_version_replaced :
    (Runs.run (Session.step sampleSha1 unverifiedJob) noAttempt replaced).OneVersion bothVersions
      unverifiedJob := by
  have hquiet : ∀ s : Session,
      s.ServesFitting bothVersions unverifiedJob (.advance (smooth none)) := by
    intro s call already r _ _ hr
    cases hr
  apply finished_file_is_one_version rfl
  refine Runs.along_append.mpr ⟨?_, ?_⟩
  · apply along_attemptWith (fun _ => trivial) hquiet
    refine Session.answered_of_send 0 (by decide) rfl ?_
    intro _
    exact ⟨sampleBody, Or.inl rfl, [4, 5], rfl, trivial⟩
  · apply along_attemptWith (fun _ => trivial) hquiet
    refine Session.answered_of_send 3 (by decide) rfl ?_
    intro _
    exact ⟨replacedBody, Or.inr rfl, [], rfl, rfl⟩

end Xylitol.Apkpure
