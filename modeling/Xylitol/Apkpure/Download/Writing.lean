import Xylitol.Apkpure.Download

/-!
# What a call knows of the partial file

The hash is taken over the bytes a call has received, not over the file. While nobody else touches
the partial file the two are the same, from the moment the call opens it:

    rehash     hashed = what the file holds up to the offset read so far
    next       hashed = what the file holds, and the handle is at its end
    rename     the digest is the digest of what the file holds

`Move` says once what a step can do; `move_faithful` is one step of the picture above, and
`move_done_ok` what it means for a call that returns `Ok`. Nothing here depends on what the server
sends.
-/

namespace Xylitol.Apkpure

variable {sha1 : Bytes → Bytes} {job : Job} {a : Answer} {disk after : Disk Path}
  {phase phase' : Phase}

/-- A checksum was published and the digest is it, up to the case of its letters. -/
def Matches (job : Job) (digest : String) : Prop :=
  ∃ expected, job.variant.sha1 = some expected ∧ expected ≠ "" ∧
    Text.eqIgnoreAsciiCase expected digest

/-! ## What a step can do -/

/-- Why a call cannot go on from here, although it touches nothing. -/
def Obstructed (job : Job) (a : Answer) (disk : Disk Path) : Phase → Prop
  | .createDir | .rehash .. | .create .. | .flush _ => a.fault = true
  | .send _ => ∀ r, a.response = some r → r.isSuccess = false
  | .openExisting .. | .openAppend .. | .rename .. =>
    a.fault = true ∨ disk.read job.partPath = none
  | .next t => (a.cancelled = true ∧ t.body ≠ []) ∨ t.body.head? = some .error
  | .metadata | .write .. | .removePart .. | .done _ => False

/-- What one `read` of the re-hashing loop gives. -/
def readBytes (a : Answer) (disk : Disk Path) (file offset : Nat) : Bytes :=
  ((disk.data file).drop offset).take (max 1 (min a.size (128 * 1024)))

/-- Everything a step can do to the phase of a call and to the disk. -/
inductive Move (sha1 : Bytes → Bytes) (job : Job) (a : Answer) (disk : Disk Path) :
    Phase → Phase → Disk Path → Prop where
  | failed {phase e} (h : Obstructed job a disk phase) :
      Move sha1 job a disk phase (.done (.error e)) disk
  | dirCreated : Move sha1 job a disk .createDir .metadata disk
  | measured : Move sha1 job a disk .metadata
      (.send (if a.fault then 0 else ((disk.read job.partPath).map List.length).getD 0)) disk
  | resumed {already r total} (hresponse : a.response = some r) (hok : r.isSuccess = true)
      (hresume : 0 < already ∧ r.status = 206) :
      Move sha1 job a disk (.send already) (.openExisting already total r.body) disk
  | restarted {already r total} (hresponse : a.response = some r) (hok : r.isSuccess = true)
      (hresume : ¬ (0 < already ∧ r.status = 206)) :
      Move sha1 job a disk (.send already) (.create total r.body) disk
  | opened {startAt total body file} (hfault : a.fault = false)
      (hfile : disk.names job.partPath = some file) :
      Move sha1 job a disk (.openExisting startAt total body)
        (.rehash startAt total body file 0 []) disk
  | hashed {startAt total body file offset hashed} (hread : readBytes a disk file offset ≠ []) :
      Move sha1 job a disk (.rehash startAt total body file offset hashed)
        (.rehash startAt total body file (offset + (readBytes a disk file offset).length)
          (hashed ++ readBytes a disk file offset)) disk
  | rehashed {startAt total body file offset hashed} (hread : readBytes a disk file offset = []) :
      Move sha1 job a disk (.rehash startAt total body file offset hashed)
        (.openAppend startAt total body hashed) disk
  | appending {startAt total body hashed file} (hfile : disk.names job.partPath = some file) :
      Move sha1 job a disk (.openAppend startAt total body hashed)
        (.next ⟨⟨file, none⟩, hashed, startAt, total, body⟩) disk
  | created {total body} (hfault : a.fault = false) :
      Move sha1 job a disk (.create total body)
        (.next ⟨(disk.create job.partPath).2, [], 0, total, body⟩) (disk.create job.partPath).1
  | received {t : Transfer} {bytes rest} (hbody : t.body = .chunk bytes :: rest) :
      Move sha1 job a disk (.next t)
        (.write { t with hashed := t.hashed ++ bytes, body := rest } bytes) disk
  | ended {t : Transfer} (hbody : t.body = []) : Move sha1 job a disk (.next t) (.flush t) disk
  | wrote {t : Transfer} {chunk} :
      Move sha1 job a disk (.write t chunk)
        (.next { t with
          file := (disk.write t.file chunk).2
          downloaded := t.downloaded + chunk.length })
        (disk.write t.file chunk).1
  | torn {t : Transfer} {chunk} (hfault : a.fault = true) :
      Move sha1 job a disk (.write t chunk) (.done (.error .io))
        (disk.write t.file (chunk.take a.size)).1
  | accepted {t : Transfer} {verified}
      (hmatch : verified = true ↔ Matches job (Text.hex (sha1 t.hashed)))
      (hpublished : verified = false → job.variant.sha1.getD "" = "") :
      Move sha1 job a disk (.flush t)
        (.rename t.downloaded (Text.hex (sha1 t.hashed)) verified) disk
  | rejected {t : Transfer} {expected} (hpublished : job.variant.sha1 = some expected)
      (hne : expected ≠ "")
      (hmatch : ¬ Text.eqIgnoreAsciiCase expected (Text.hex (sha1 t.hashed))) :
      Move sha1 job a disk (.flush t) (.removePart expected (Text.hex (sha1 t.hashed))) disk
  | removed {expected actual} :
      Move sha1 job a disk (.removePart expected actual)
        (.done (.error (.checksumMismatch expected actual)))
        (if a.fault then disk else disk.remove job.partPath)
  | renamed {bytes digest verified after}
      (hrename : disk.rename job.partPath job.finalPath = some after) :
      Move sha1 job a disk (.rename bytes digest verified)
        (.done (.ok ⟨job.finalPath, bytes, digest, verified⟩)) after
  | rest {result} : Move sha1 job a disk (.done result) (.done result) disk

theorem move_respond {call : Call} {already : Nat} {r : Response} (hr : a.response = some r) :
    Move sha1 job a disk (.send already) (call.respond job already r).phase disk := by
  unfold Call.respond
  split
  · next h429 =>
      apply Move.failed
      intro r' hr'
      rw [hr] at hr'
      cases hr'
      simp [Response.isSuccess, h429]
  · split
    · next hbad =>
        apply Move.failed
        intro r' hr'
        rw [hr] at hr'
        cases hr'
        simpa using hbad
    · next hgood =>
        have hok : r.isSuccess = true := by simpa using hgood
        by_cases hresume : 0 < already ∧ r.status = 206
        · simp only [hresume, decide_true, Bool.and_self, if_true]
          exact Move.resumed hr hok hresume
        · have hfresh : (decide (0 < already) && decide (r.status = 206)) = false := by
            simpa using hresume
          simp only [hfresh, Bool.false_eq_true, if_false]
          exact Move.restarted hr hok hresume

theorem move_verify {call : Call} {t : Transfer} :
    Move sha1 job a disk (.flush t) (call.verify sha1 job t).phase disk := by
  unfold Call.verify
  dsimp only
  cases hsha1 : job.variant.sha1 with
  | none =>
      apply Move.accepted
      · simp [Matches, hsha1]
      · simp [hsha1]
  | some expected =>
      by_cases hempty : expected = ""
      · subst hempty
        dsimp only
        rw [if_pos (by decide)]
        apply Move.accepted
        · simp [Matches, hsha1]
        · simp [hsha1]
      · have hne : expected.isEmpty = false := by simpa using hempty
        simp only [hne, Bool.false_eq_true, if_false]
        split
        · next heq =>
            apply Move.accepted
            · simp [Matches, hsha1, hempty, heq]
            · simp
        · next heq => exact Move.rejected hsha1 hempty heq

theorem step_moves (sha1 : Bytes → Bytes) (job : Job) (a : Answer) (call : Call)
    (disk : Disk Path) :
    Move sha1 job a disk call.phase (call.step sha1 job a disk).1.phase
      (call.step sha1 job a disk).2 := by
  obtain ⟨phase, reported⟩ := call
  unfold Call.step
  cases phase with
  | createDir =>
      dsimp only
      split
      · next h => exact Move.failed h
      · exact Move.dirCreated
  | metadata => exact Move.measured
  | send already =>
      dsimp only
      split
      · next hnone =>
          apply Move.failed
          intro r hr
          rw [hnone] at hr
          cases hr
      · next r hr => exact move_respond hr
  | openExisting startAt total body =>
      dsimp only
      split
      · next file hfile =>
          split
          · next h => exact Move.failed (Or.inl h)
          · next h => exact Move.opened (Bool.eq_false_iff.mpr h) hfile
      · next hnone => exact Move.failed (Or.inr (by simp [Disk.read, hnone]))
  | rehash startAt total body file offset hashed =>
      dsimp only
      split
      · next h => exact Move.failed h
      · split
        · next hnil => exact Move.rehashed hnil
        · next hne => exact Move.hashed hne
  | openAppend startAt total body hashed =>
      dsimp only
      split
      · next file hfile =>
          split
          · next h => exact Move.failed (Or.inl h)
          · exact Move.appending hfile
      · next hnone => exact Move.failed (Or.inr (by simp [Disk.read, hnone]))
  | create total body =>
      dsimp only
      split
      · next h => exact Move.failed h
      · next h => exact Move.created (Bool.eq_false_iff.mpr h)
  | next t =>
      dsimp only
      split
      · next hnil => exact Move.ended hnil
      · next item rest hbody =>
          split
          · next h => exact Move.failed (Or.inl ⟨h, by simp [hbody]⟩)
          · split
            · exact Move.failed (Or.inr (by simp [hbody]))
            · exact Move.received hbody
  | write t chunk =>
      dsimp only
      split
      · next h => exact Move.torn h
      · exact Move.wrote
  | flush t =>
      dsimp only
      split
      · next h => exact Move.failed h
      · exact move_verify
  | removePart expected actual => exact Move.removed
  | rename bytes digest verified =>
      dsimp only
      split
      · next h => exact Move.failed (Or.inl h)
      · split
        · next after hafter => exact Move.renamed hafter
        · next hnone => exact Move.failed (Or.inr (Disk.rename_eq_none_iff.mp hnone))
  | done result => exact Move.rest

/-! ## The hasher and the file -/

/-- The hasher agrees with the partial file. -/
def Faithful (sha1 : Bytes → Bytes) (job : Job) (disk : Disk Path) : Phase → Prop
  | .rehash _ _ _ file offset hashed =>
    disk.names job.partPath = some file ∧ hashed = (disk.data file).take offset
  | .openAppend _ _ _ hashed => disk.read job.partPath = some hashed
  | .next t => disk.Opened job.partPath t.file t.hashed
  -- the chunk is hashed before it is written
  | .write t chunk => ∃ old, t.hashed = old ++ chunk ∧ disk.Opened job.partPath t.file old
  | .flush t => disk.Opened job.partPath t.file t.hashed
  | .rename _ digest verified => ∃ held, disk.read job.partPath = some held ∧
      digest = Text.hex (sha1 held) ∧ (verified = true ↔ Matches job digest)
  | _ => True

/-- Reading on from an offset gives what the file holds up to the next one. -/
theorem take_append_readBytes {file offset : Nat} :
    (disk.data file).take offset ++ readBytes a disk file offset
      = (disk.data file).take (offset + (readBytes a disk file offset).length) := by
  rw [List.take_add, readBytes, List.length_take, ← List.take_eq_take_min]

/-- Nothing is read only at the end of the file. -/
theorem take_of_readBytes_eq_nil {file offset : Nat} (h : readBytes a disk file offset = []) :
    (disk.data file).take offset = disk.data file := by
  rcases List.take_eq_nil_iff.mp h with hzero | hdrop
  · omega
  · exact List.take_of_length_le (List.drop_eq_nil_iff.mp hdrop)

/-- A step of a call that nobody disturbs keeps the hasher in agreement with the file. -/
theorem move_faithful (h : Faithful sha1 job disk phase)
    (hmove : Move sha1 job a disk phase phase' after) : Faithful sha1 job after phase' := by
  cases hmove with
  | opened hfault hfile => exact ⟨hfile, rfl⟩
  | hashed hread =>
      obtain ⟨hfile, rfl⟩ := h
      exact ⟨hfile, take_append_readBytes⟩
  | rehashed hread =>
      obtain ⟨hfile, rfl⟩ := h
      show disk.read job.partPath = some _
      rw [Disk.read, hfile, Option.map_some, take_of_readBytes_eq_nil hread]
  | @appending startAt total body hashed file hfile =>
      have hread : disk.read job.partPath = some hashed := h
      rw [Disk.read, hfile] at hread
      cases hread
      exact Disk.opened_append hfile
  | created => exact Disk.opened_create
  | @received t bytes rest hbody => exact ⟨t.hashed, rfl, h⟩
  | ended hbody => exact h
  | @wrote t chunk =>
      obtain ⟨old, hhashed, hopen⟩ := h
      show Disk.Opened _ _ _ t.hashed
      rw [hhashed]
      exact hopen.write chunk
  | @accepted t verified hmatch hpublished =>
      exact ⟨t.hashed, Disk.Opened.read h, rfl, hmatch⟩
  | failed | dirCreated | measured | resumed | restarted | torn | rejected | removed | renamed
  | rest => trivial

/-- A call that returns `Ok` in this step leaves what the partial file held as the finished file, and
tells its digest. -/
theorem move_done_ok {d : Downloaded} (h : Faithful sha1 job disk phase)
    (hrunning : ∀ result, phase ≠ .done result)
    (hmove : Move sha1 job a disk phase (.done (.ok d)) after) :
    ∃ held, after.read job.finalPath = some held ∧ after.read job.partPath = none ∧
      disk.read job.partPath = some held ∧ d.path = job.finalPath ∧
      d.sha1 = Text.hex (sha1 held) ∧ (d.verified = true ↔ Matches job d.sha1) := by
  cases hmove with
  | renamed hrename =>
      obtain ⟨held, hread, hdigest, hmatch⟩ := h
      obtain ⟨hfinal, hpart, -⟩ := Disk.rename_eq_some hrename job.partPath_ne_finalPath
      exact ⟨held, hfinal.trans hread, hpart, hread, rfl, hdigest, hmatch⟩
  | rest => exact absurd rfl (hrunning _)

/-- A step touches no name but that of the partial file, and that of the finished one by a rename. -/
theorem move_read_of_ne {p : Path} (h : Faithful sha1 job disk phase) (hp : p ≠ job.partPath)
    (hmove : Move sha1 job a disk phase phase' after) :
    after.read p = disk.read p ∨
      p = job.finalPath ∧ ∃ bytes digest verified, phase = .rename bytes digest verified := by
  cases hmove with
  | created => exact Or.inl (Disk.read_create_of_ne hp)
  | wrote =>
      obtain ⟨old, -, hopen⟩ := h
      exact Or.inl (hopen.read_write_of_ne _ hp)
  | torn =>
      obtain ⟨old, -, hopen⟩ := h
      exact Or.inl (hopen.read_write_of_ne _ hp)
  | removed =>
      split
      · exact Or.inl rfl
      · exact Or.inl (Disk.read_remove_of_ne hp)
  | renamed hrename =>
      by_cases hfinal : p = job.finalPath
      · exact Or.inr ⟨hfinal, _, _, _, rfl⟩
      · obtain ⟨-, -, hrest⟩ := Disk.rename_eq_some hrename job.partPath_ne_finalPath
        exact Or.inl (hrest p hp hfinal)
  | failed | dirCreated | measured | resumed | restarted | opened | hashed | rehashed | appending
  | received | ended | accepted | rejected | rest => exact Or.inl rfl

/-- The finished file is not touched but by a rename. -/
theorem move_final (h : Faithful sha1 job disk phase)
    (hmove : Move sha1 job a disk phase phase' after) :
    after.read job.finalPath = disk.read job.finalPath ∨
      ∃ bytes digest verified, phase = .rename bytes digest verified := by
  rcases move_read_of_ne h job.partPath_ne_finalPath.symm hmove with hsame | ⟨-, hrename⟩
  · exact Or.inl hsame
  · exact Or.inr hrename

end Xylitol.Apkpure
