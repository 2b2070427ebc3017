import Xylitol.Apkpure.Download.Writing
import Xylitol.Runs

/-!
# Attempts one after the other

An attempt may end anywhere: with an error, cancelled, or with the program gone in the middle of a
write. The next one starts from the partial file it finds. As long as the server holds one body `b`,
the partial file is a prefix of it at every moment:

    part:  absent ──▶ [] ──▶ b₀ ──▶ b₀b₁ ──▶ … ──▶ b ──rename──▶ absent, and the final file is b

`attempts_safe` is this for every run of attempts, answers and crashes.
-/

namespace Xylitol.Apkpure

variable {sha1 : Bytes → Bytes} {job : Job} {a : Answer} {disk after : Disk Path}
  {phase phase' : Phase} {b : Bytes}

/-! ## The server -/

/-- The stream delivers `x` as long as it delivers anything, and ends without an error only where `x`
does. -/
def Delivers : Bytes → List Item → Prop
  | x, [] => x = []
  | x, .chunk bytes :: items => ∃ rest, x = bytes ++ rest ∧ Delivers rest items
  | _, .error :: _ => True

/-- What a server that holds `b` may answer to a request for everything from `already` on, where 0
asks for no range. -/
def Answers (b : Bytes) (already : Nat) (r : Response) : Prop :=
  (r.status = 200 ∧ Delivers b r.body) ∨
  (r.status = 206 ∧ 0 < already ∧ Delivers (b.drop already) r.body) ∨
  r.isSuccess = false

theorem Answers.resumed {already : Nat} {r : Response} (h : Answers b already r)
    (hok : r.isSuccess = true) (hstatus : r.status = 206) : Delivers (b.drop already) r.body := by
  rcases h with ⟨h200, -⟩ | ⟨-, -, h⟩ | hbad
  · omega
  · exact h
  · rw [hok] at hbad
    cases hbad

theorem Answers.restarted {already : Nat} {r : Response} (h : Answers b already r)
    (hok : r.isSuccess = true) (hfresh : ¬ (0 < already ∧ r.status = 206)) : Delivers b r.body := by
  rcases h with ⟨-, h⟩ | ⟨hstatus, hpos, -⟩ | hbad
  · exact h
  · exact absurd ⟨hpos, hstatus⟩ hfresh
  · rw [hok] at hbad
    cases hbad

/-! ## What is on disk -/

/-- The partial file is what interrupted attempts leave. -/
def PartOk (b : Bytes) (job : Job) (disk : Disk Path) : Prop :=
  ∀ x, disk.read job.partPath = some x → x <+: b

/-- The final file is what finished attempts leave. -/
def FinalOk (b : Bytes) (job : Job) (disk : Disk Path) : Prop :=
  ∀ x, disk.read job.finalPath = some x → x = b

/-- The partial file and what the server still has to send make up `b`. -/
def Continues (b : Bytes) (job : Job) (disk : Disk Path) (body : List Item) : Prop :=
  ∃ x rest, disk.read job.partPath = some x ∧ x ++ rest = b ∧ Delivers rest body

/-- What a call counts on in each phase. -/
def Promised (b : Bytes) (job : Job) (disk : Disk Path) : Phase → Prop
  | .send already => already = 0 ∨ ∃ x, disk.read job.partPath = some x ∧ x.length = already
  | .openExisting _ _ body => Continues b job disk body
  | .rehash _ _ body _ _ _ => Continues b job disk body
  | .openAppend _ _ body _ => Continues b job disk body
  | .create _ body => Delivers b body
  | .next t => ∃ rest, t.hashed ++ rest = b ∧ Delivers rest t.body
  | .write t _ => ∃ rest, t.hashed ++ rest = b ∧ Delivers rest t.body
  | .flush t => t.hashed = b
  | .rename .. => disk.read job.partPath = some b
  | .done (.ok _) => disk.read job.finalPath = some b ∧ disk.read job.partPath = none
  | _ => True

theorem promised_measured (hfault : Bool) : Promised b job disk
    (.send (if hfault then 0 else ((disk.read job.partPath).map List.length).getD 0)) := by
  unfold Promised
  cases hfault with
  | true => exact Or.inl rfl
  | false =>
      cases hread : disk.read job.partPath with
      | none => exact Or.inl rfl
      | some x => exact Or.inr ⟨x, rfl, rfl⟩

/-- The server goes on where the partial file ends. -/
theorem promised_resumed {already : Nat} {r : Response} (hpart : PartOk b job disk)
    (hsend : Promised b job disk (.send already)) (hanswer : Answers b already r)
    (hok : r.isSuccess = true) (hresume : 0 < already ∧ r.status = 206) :
    Continues b job disk r.body := by
  rcases hsend with hzero | ⟨x, hread, hlen⟩
  · omega
  · refine ⟨x, b.drop already, hread, ?_, hanswer.resumed hok hresume.2⟩
    rw [← hlen]
    exact List.prefix_iff_eq_append.mp (hpart x hread)

/-- Bytes of the body written to the end of the partial file. -/
theorem partOk_write {h : Handle} {old chunk rest : Bytes}
    (hopen : disk.Opened job.partPath h old) (hb : old ++ chunk ++ rest = b) :
    PartOk b job (disk.write h chunk).1 := by
  intro x hx
  rw [(hopen.write chunk).read, Option.some.injEq] at hx
  exact ⟨rest, by rw [← hx, hb]⟩

theorem partOk_of_read_none (h : disk.read job.partPath = none) : PartOk b job disk := by
  intro x hx
  rw [h] at hx
  cases hx

/-- The answer is in and has been accepted. -/
def Phase.answered : Phase → Bool
  | .openExisting .. | .rehash .. | .openAppend .. | .create .. | .next _ | .write .. | .flush _
  | .rename .. | .done (.ok _) => true
  | .createDir | .metadata | .send _ | .removePart .. | .done (.error _) => false

/-- From the answer on a step keeps the promises true, whatever the partial file was before it. -/
theorem move_kept (hanswered : phase.answered = true) (hfaithful : Faithful sha1 job disk phase)
    (hpromised : Promised b job disk phase) (hmove : Move sha1 job a disk phase phase' after) :
    Promised b job after phase' := by
  cases hmove with
  | dirCreated | measured | resumed | restarted => cases hanswered
  | failed | rejected | torn | removed => trivial
  | opened | hashed | rehashed | rest => exact hpromised
  | @appending startAt total body hashed file hfile =>
      -- what was hashed is what the partial file holds
      obtain ⟨x, rest, hread, hb, hbody⟩ := hpromised
      have hhashed : disk.read job.partPath = some hashed := hfaithful
      rw [hread, Option.some.injEq] at hhashed
      subst hhashed
      exact ⟨rest, hb, hbody⟩
  | created => exact ⟨b, rfl, hpromised⟩
  | @received t bytes items hbody =>
      obtain ⟨rest, hb, hdelivers⟩ := hpromised
      rw [hbody] at hdelivers
      obtain ⟨rest', rfl, hdelivers⟩ := hdelivers
      refine ⟨rest', ?_, hdelivers⟩
      rw [← hb, List.append_assoc]
  | @ended t hbody =>
      obtain ⟨rest, hb, hdelivers⟩ := hpromised
      rw [hbody] at hdelivers
      have hrest : rest = [] := hdelivers
      show t.hashed = b
      rw [← hb, hrest, List.append_nil]
  | wrote => exact hpromised
  | @accepted t verified hmatch hpublished =>
      have hhashed : t.hashed = b := hpromised
      show disk.read job.partPath = some b
      rw [Disk.Opened.read hfaithful, hhashed]
  | renamed hrename =>
      have hheld : disk.read job.partPath = some b := hpromised
      obtain ⟨hnew, hgone, -⟩ := Disk.rename_eq_some hrename job.partPath_ne_finalPath
      exact ⟨hnew.trans hheld, hgone⟩

/-- A step writes to the partial file only what comes next of the body. -/
theorem move_partOk (hfaithful : Faithful sha1 job disk phase) (hpart : PartOk b job disk)
    (hpromised : Promised b job disk phase) (hmove : Move sha1 job a disk phase phase' after) :
    PartOk b job after := by
  cases hmove with
  | created =>
      intro x hx
      rw [Disk.opened_create.read, Option.some.injEq] at hx
      exact hx ▸ List.nil_prefix
  | @wrote t chunk =>
      obtain ⟨old, hhashed, hopen⟩ := hfaithful
      obtain ⟨rest, hb, -⟩ := hpromised
      rw [hhashed] at hb
      exact partOk_write hopen hb
  | @torn t chunk hfault =>
      obtain ⟨old, hhashed, hopen⟩ := hfaithful
      obtain ⟨rest, hb, -⟩ := hpromised
      -- what was not written of the chunk counts as still to come
      have hb' : old ++ chunk.take a.size ++ (chunk.drop a.size ++ rest) = b := by
        rw [← hb, hhashed, List.append_assoc, ← List.append_assoc (chunk.take a.size),
          List.take_append_drop, List.append_assoc]
      exact partOk_write hopen hb'
  | removed =>
      split
      · exact hpart
      · exact partOk_of_read_none Disk.read_remove_self
  | renamed hrename =>
      obtain ⟨-, hgone, -⟩ := Disk.rename_eq_some hrename job.partPath_ne_finalPath
      exact partOk_of_read_none hgone
  | failed | dirCreated | measured | resumed | restarted | opened | hashed | rehashed | appending
  | received | ended | accepted | rejected | rest => exact hpart

/-- One step of an attempt keeps the partial file in order and the promises true. -/
theorem move_promised (hfaithful : Faithful sha1 job disk phase) (hpart : PartOk b job disk)
    (hpromised : Promised b job disk phase)
    (hanswer : ∀ already r, phase = .send already → a.response = some r → Answers b already r)
    (hmove : Move sha1 job a disk phase phase' after) :
    PartOk b job after ∧ Promised b job after phase' := by
  refine ⟨move_partOk hfaithful hpart hpromised hmove, ?_⟩
  by_cases hanswered : phase.answered = true
  · exact move_kept hanswered hfaithful hpromised hmove
  · cases hmove with
    | failed | dirCreated | removed => trivial
    | measured => exact promised_measured a.fault
    | resumed hresponse hok hresume =>
        exact promised_resumed hpart hpromised (hanswer _ _ rfl hresponse) hok hresume
    | restarted hresponse hok hresume =>
        exact (hanswer _ _ rfl hresponse).restarted hok hresume
    | rest => exact hpromised
    | opened | hashed | rehashed | appending | created | received | ended | wrote | torn
    | accepted | rejected | renamed => exact absurd rfl hanswered

/-- The final file changes only by a rename, and then it is the whole body. -/
theorem move_finalOk (hfaithful : Faithful sha1 job disk phase) (hfinal : FinalOk b job disk)
    (hpromised : Promised b job disk phase) (hmove : Move sha1 job a disk phase phase' after) :
    FinalOk b job after := by
  intro x hx
  rcases move_final hfaithful hmove with hsame | ⟨bytes, digest, verified, rfl⟩
  · rw [hsame] at hx
    exact hfinal x hx
  · cases hmove with
    | failed => exact hfinal x hx
    | renamed hrename =>
        have hheld : disk.read job.partPath = some b := hpromised
        obtain ⟨hnew, -, -⟩ := Disk.rename_eq_some hrename job.partPath_ne_finalPath
        rw [hnew, hheld, Option.some.injEq] at hx
        exact hx.symm

/-! ## Runs of attempts -/

/-- The attempt that is under way or has just returned, and the disk. -/
structure Session where
  call : Option Call
  disk : Disk Path

/-- What happens next: a new attempt, the next step of the one under way, or the program is gone,
perhaps having written the first `size` bytes of a chunk. -/
inductive Happening where
  | attempt
  | advance (a : Answer)
  | crash (size : Nat)
  deriving DecidableEq, Repr

/-- What a write that never returned leaves behind. -/
def tear (size : Nat) (disk : Disk Path) : Phase → Disk Path
  | .write t chunk => (disk.write t.file (chunk.take size)).1
  | _ => disk

/-- Attempts are made one at a time: none starts before the last one has returned. -/
def Session.step (sha1 : Bytes → Bytes) (job : Job) (s : Session) : Happening → Session
  | .attempt =>
    match s.call with
    | none => { s with call := some .start }
    | some ⟨.done _, _⟩ => { s with call := some .start }
    | some _ => s
  | .advance a =>
    match s.call with
    | none => s
    | some call => ⟨some (call.step sha1 job a s.disk).1, (call.step sha1 job a s.disk).2⟩
  | .crash size =>
    match s.call with
    | none => s
    | some call => ⟨none, tear size s.disk call.phase⟩

theorem Session.step_attempt (s : Session) :
    s.step sha1 job .attempt = { s with call := some .start } ∨ s.step sha1 job .attempt = s := by
  unfold step
  dsimp only
  split
  · exact Or.inl rfl
  · exact Or.inl rfl
  · exact Or.inr rfl

/-- Where the attempt under way comes from: it has just been made, it was there, or it took a step. -/
theorem Session.step_call {s : Session} {e : Happening} {call' : Call}
    (h : (s.step sha1 job e).call = some call') :
    (call' = .start ∧ (s.step sha1 job e).disk = s.disk) ∨
    (s.call = some call' ∧ (s.step sha1 job e).disk = s.disk) ∨
    ∃ a call, e = .advance a ∧ s.call = some call ∧ call' = (call.step sha1 job a s.disk).1 ∧
      (s.step sha1 job e).disk = (call.step sha1 job a s.disk).2 := by
  cases e with
  | attempt =>
      rcases s.step_attempt with hstep | hstep
      · rw [hstep] at h ⊢
        cases h
        exact Or.inl ⟨rfl, rfl⟩
      · rw [hstep] at h ⊢
        exact Or.inr (Or.inl ⟨h, rfl⟩)
  | advance a =>
      cases hcall : s.call with
      | none => simp [step, hcall] at h
      | some call =>
          simp only [step, hcall, Option.some.injEq] at h ⊢
          exact Or.inr (Or.inr ⟨a, call, rfl, rfl, h.symm, rfl⟩)
  | crash size =>
      cases hcall : s.call <;> simp [step, hcall] at h

/-- The hasher of the attempt under way agrees with the partial file. -/
def Session.Undisturbed (sha1 : Bytes → Bytes) (job : Job) (s : Session) : Prop :=
  ∀ call, s.call = some call → Faithful sha1 job s.disk call.phase

theorem Session.undisturbed_of_none {s : Session} (h : s.call = none) : s.Undisturbed sha1 job := by
  intro call hcall
  rw [h] at hcall
  cases hcall

/-- Attempts made one at a time do not disturb each other. -/
theorem Session.undisturbed_step {s : Session} (h : s.Undisturbed sha1 job) (e : Happening) :
    (s.step sha1 job e).Undisturbed sha1 job := by
  intro call' hcall'
  rcases step_call hcall' with ⟨rfl, -⟩ | ⟨hcall, hdisk⟩ | ⟨a, call, rfl, hcall, rfl, hdisk⟩
  · trivial
  · rw [hdisk]
    exact h call' hcall
  · rw [hdisk]
    exact move_faithful (h call hcall) (step_moves sha1 job a call s.disk)

/-- The server holds `b`. -/
def Session.Serves (b : Bytes) (s : Session) : Happening → Prop
  | .advance a => ∀ call already r, s.call = some call → call.phase = .send already →
      a.response = some r → Answers b already r
  | _ => True

/-- What holds between attempts, and what an attempt that returned `Ok` has achieved. -/
structure Session.Safe (b : Bytes) (job : Job) (s : Session) : Prop where
  part : s.disk.read job.partPath = none ∨ ∃ x, s.disk.read job.partPath = some x ∧ x <+: b
  final : s.disk.read job.finalPath = none ∨ s.disk.read job.finalPath = some b
  ok : ∀ call d, s.call = some call → call.phase = .done (.ok d) →
    s.disk.read job.finalPath = some b ∧ s.disk.read job.partPath = none

/-- The invariant of a run. -/
structure Session.Inv (sha1 : Bytes → Bytes) (b : Bytes) (job : Job) (s : Session) : Prop where
  part : PartOk b job s.disk
  final : FinalOk b job s.disk
  faithful : ∀ call, s.call = some call → Faithful sha1 job s.disk call.phase
  promised : ∀ call, s.call = some call → Promised b job s.disk call.phase

theorem Session.inv_start {s : Session} (hpart : PartOk b job s.disk)
    (hfinal : FinalOk b job s.disk) :
    Session.Inv sha1 b job { s with call := some .start } := by
  refine ⟨hpart, hfinal, ?_, ?_⟩
  · rintro call ⟨⟩
    trivial
  · rintro call ⟨⟩
    trivial

theorem Session.inv_advance {s : Session} {a : Answer} (hinv : s.Inv sha1 b job)
    (hserves : s.Serves b (.advance a)) : (s.step sha1 job (.advance a)).Inv sha1 b job := by
  unfold step
  dsimp only
  split
  · exact hinv
  · next call hcall =>
      have hfaithful := hinv.faithful call hcall
      have hpromised := hinv.promised call hcall
      have hmove := step_moves sha1 job a call s.disk
      obtain ⟨hpart', hpromised'⟩ := move_promised hfaithful hinv.part hpromised
        (fun already r => hserves call already r hcall) hmove
      refine ⟨hpart', move_finalOk hfaithful hinv.final hpromised hmove, ?_, ?_⟩
      · rintro call' ⟨⟩
        exact move_faithful hfaithful hmove
      · rintro call' ⟨⟩
        exact hpromised'

theorem Session.inv_crash {s : Session} {size : Nat} (hinv : s.Inv sha1 b job) :
    (s.step sha1 job (.crash size)).Inv sha1 b job := by
  unfold step
  dsimp only
  split
  · exact hinv
  · next call hcall =>
      have hfaithful := hinv.faithful call hcall
      have hpromised := hinv.promised call hcall
      have htear : PartOk b job (tear size s.disk call.phase) ∧
          FinalOk b job (tear size s.disk call.phase) := by
        unfold tear
        split
        · next t chunk hphase =>
            -- a torn write is a failed one that nobody hears of
            rw [hphase] at hfaithful hpromised
            have hmove : Move sha1 job ⟨true, none, size, false⟩ s.disk (.write t chunk) _ _ :=
              Move.torn rfl
            refine ⟨?_, move_finalOk hfaithful hinv.final hpromised hmove⟩
            apply (move_promised hfaithful hinv.part hpromised _ hmove).1
            intro already r hsend
            cases hsend
        · exact ⟨hinv.part, hinv.final⟩
      exact ⟨htear.1, htear.2, (fun _ h => nomatch h), (fun _ h => nomatch h)⟩

theorem Session.inv_step {s : Session} {e : Happening} (hinv : s.Inv sha1 b job)
    (hserves : s.Serves b e) : (s.step sha1 job e).Inv sha1 b job := by
  cases e with
  | attempt =>
      rcases s.step_attempt with hstep | hstep
      · rw [hstep]
        exact inv_start hinv.part hinv.final
      · rw [hstep]
        exact hinv
  | advance a => exact inv_advance hinv hserves
  | crash size => exact inv_crash hinv

/-- Nothing on disk and no attempt under way. -/
theorem Session.inv_of_empty {s : Session} (hcall : s.call = none)
    (hpart : s.disk.read job.partPath = none) (hfinal : s.disk.read job.finalPath = none) :
    s.Inv sha1 b job := by
  refine ⟨partOk_of_read_none hpart, ?_, ?_, ?_⟩
  · simp [FinalOk, hfinal]
  · simp [hcall]
  · simp [hcall]

theorem Session.Inv.safe {s : Session} (hinv : s.Inv sha1 b job) : s.Safe b job := by
  refine ⟨?_, ?_, ?_⟩
  · cases hread : s.disk.read job.partPath with
    | none => exact Or.inl rfl
    | some x => exact Or.inr ⟨x, rfl, hinv.part x hread⟩
  · cases hread : s.disk.read job.finalPath with
    | none => exact Or.inl rfl
    | some x => exact Or.inr (congrArg some (hinv.final x hread))
  · intro call d hcall hphase
    have hpromised := hinv.promised call hcall
    rw [hphase] at hpromised
    exact hpromised

/-- Whatever happens to the attempts, the partial file is a prefix of the body, the final file is the
body, and an attempt that returned `Ok` has left the final file and no partial one. -/
theorem attempts_safe {s : Session} {events : List Happening} (hcall : s.call = none)
    (hpart : s.disk.read job.partPath = none) (hfinal : s.disk.read job.finalPath = none)
    (hserves : Runs.Along (Session.step sha1 job) (Session.Serves b) s events) :
    (Runs.run (Session.step sha1 job) s events).Safe b job := by
  have hstart : s.Inv sha1 b job := Session.inv_of_empty hcall hpart hfinal
  exact (Runs.invariant_run (fun _ _ => Session.inv_step) hstart hserves).safe

/-! ## An attempt that is cut off, and the one after it -/

/-- The file of the repository's own tests. -/
def sampleVariant (sha1 : Option String) : Variant where
  package := "com.example.app"
  versionName := "1.0"
  versionCode := 7
  kind := .apk
  size := none
  published := none
  arch := some "arm64-v8a"
  dpi := none
  minAndroid := none
  sha1 := sha1
  signature := none
  uploader := none
  downloadUrl := "http://127.0.0.1/app.apk"

def sampleBody : Bytes := [1, 2, 3, 4, 5]

def sampleDigest : Bytes :=
  [0x11, 0x96, 0x6a, 0xb9, 0xc0, 0x99, 0xf8, 0xfa, 0xbe, 0xfa,
    0xc5, 0x4c, 0x08, 0xd5, 0xbe, 0x2b, 0xd8, 0xc9, 0x03, 0xaf]

/-- SHA-1, as far as the samples need it: of the body, of another file, of the one with the end of the
other, and of the body with a hole where its first chunk should be. -/
def sampleSha1 (data : Bytes) : Bytes :=
  if data = sampleBody then sampleDigest
  else if data = [6, 7, 8, 9, 10] then
    [0xd2, 0x1d, 0x35, 0x8a, 0x64, 0x06, 0xab, 0xfa, 0xd4, 0xb2,
      0xc8, 0xa0, 0xc0, 0xda, 0xc4, 0xea, 0x14, 0x8e, 0xfd, 0x25]
  else if data = [1, 2, 3, 9, 10] then
    [0x57, 0x14, 0xd5, 0xa9, 0x18, 0x14, 0x65, 0xe8, 0x85, 0xad,
      0x73, 0x55, 0x2b, 0x5e, 0x8d, 0x31, 0x06, 0x8e, 0xe9, 0x9b]
  else
    [0x23, 0x09, 0x3d, 0xe8, 0xcb, 0xa1, 0xce, 0x27, 0x81, 0x9f,
      0xb8, 0x68, 0xfb, 0xdc, 0x0c, 0xb6, 0x7c, 0x62, 0x1f, 0x5b]

def sampleJob : Job :=
  ⟨sampleVariant (some "11966AB9C099F8FABEFAC54C08D5BE2BD8C903AF"), utf8Bytes "/d"⟩

def emptyDisk : Disk Path where
  names _ := none
  data _ := []
  next := 0
  names_lt _ _ h := nomatch h
  names_inj _ _ _ h := nomatch h

def noAttempt : Session := ⟨none, emptyDisk⟩

/-- Nothing fails, and up to 128 KiB are read at a time. -/
def smooth (response : Option Response) : Answer := ⟨false, response, 128 * 1024, false⟩

/-- The steps of an attempt up to its request, the answer to it, and `n` more steps. -/
def attemptWith (r : Response) (n : Nat) : List Happening :=
  [.attempt, .advance (smooth none), .advance (smooth none)]
    ++ (.advance (smooth (some r)) :: List.replicate n (.advance (smooth none)))

def wholeBody : Response := ⟨200, none, some 5, [.chunk [1, 2], .chunk [3, 4, 5]]⟩

def restOfBody : Response := ⟨206, none, some 2, [.chunk [4, 5]]⟩

/-- The program dies one byte into the second chunk; the next attempt resumes behind that byte. -/
def cutAndResumed : List Happening :=
  attemptWith wholeBody 4 ++ (.crash 1 :: attemptWith restOfBody 9)

theorem Session.serves_of_no_response {s : Session} (h : a.response = none) :
    s.Serves b (.advance a) := by
  intro call already r _ _ hr
  rw [h] at hr
  cases hr

/-- A step in which the call that has asked for everything from `already` on is answered by `r`. -/
theorem Session.answered_of_send {s : Session} (already : Nat) {r : Response}
    {P : Nat → Response → Prop} (hphase : s.call.map Call.phase = some (.send already))
    (hr : a.response = some r) (hP : P already r) (call : Call) (already' : Nat) (r' : Response)
    (hcall : s.call = some call) (hsend : call.phase = .send already')
    (hr' : a.response = some r') : P already' r' := by
  rw [hcall, Option.map_some, hsend] at hphase
  cases hphase
  rw [hr] at hr'
  cases hr'
  exact hP

/-- An attempt in which only the request is answered by the server. -/
theorem along_attemptWith {allowed : Session → Happening → Prop} {s : Session} {n : Nat}
    {r : Response} (hattempt : ∀ s, allowed s .attempt)
    (hquiet : ∀ s, allowed s (.advance (smooth none)))
    (hanswer : allowed (Runs.run (Session.step sha1 job) s
      [.attempt, .advance (smooth none), .advance (smooth none)]) (.advance (smooth (some r)))) :
    Runs.Along (Session.step sha1 job) allowed s (attemptWith r n) := by
  apply Runs.along_append.mpr
  refine ⟨⟨hattempt _, hquiet _, hquiet _, trivial⟩, hanswer, ?_⟩
  apply Runs.along_of_forall
  intro e he s'
  rw [List.eq_of_mem_replicate he]
  exact hquiet s'

/-- The cut attempt and the one after it. -/
theorem attempts_safe_cutAndResumed :
    (Runs.run (Session.step sampleSha1 sampleJob) noAttempt cutAndResumed).Safe sampleBody
      sampleJob := by
  have hwhole : Answers sampleBody 0 wholeBody :=
    Or.inl ⟨rfl, [3, 4, 5], rfl, [], rfl, rfl⟩
  have hrest : Answers sampleBody 3 restOfBody :=
    Or.inr (Or.inl ⟨rfl, by decide, [], rfl, rfl⟩)
  have hattempt : ∀ s : Session, s.Serves sampleBody .attempt := fun _ => trivial
  have hquiet : ∀ s : Session, s.Serves sampleBody (.advance (smooth none)) :=
    fun _ => Session.serves_of_no_response rfl
  refine attempts_safe rfl rfl rfl (Runs.along_append.mpr ⟨?_, trivial, ?_⟩)
  · apply along_attemptWith hattempt hquiet
    exact Session.answered_of_send 0 (by decide) rfl hwhole
  · apply along_attemptWith hattempt hquiet
    exact Session.answered_of_send 3 (by decide) rfl hrest

end Xylitol.Apkpure
