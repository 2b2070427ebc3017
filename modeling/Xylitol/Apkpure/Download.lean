import Xylitol.Apkpure.Model
import Xylitol.Disk

/-!
# Downloading one file

`Client::download`, one await point after the other. A call is in a phase, and a step takes it from
its phase to the next one, on a disk it may share with other calls:

    createDir ─▶ metadata ─▶ send ─▶ openExisting ─▶ rehash ─▶ openAppend ─┐
                                └──▶ create ────────────────────────────▶ next ⇄ write
                                                                            │
                                 done ◀── rename / removePart ◀── flush ◀───┘

What the outside does in a step is its answer: the response, whether a file system call fails, how
much one `read` returns, whether the token is cancelled. The body of a response is the list of items
its stream will deliver. Sizes are natural numbers, SHA-1 is a parameter.

A chunk is on disk when `write_all` has returned. The handle may still be at work on it then, and is
waited for when the stream has ended and when the call is cancelled; a call that the stream fails
returns without that. What is written after a call has returned is not in the model.
-/

namespace Xylitol.Apkpure

/-! ## Results -/

/-- The errors `download` returns. -/
inductive Error where
  | http
  | io
  | status (status : Nat) (url : String)
  | rateLimited (retryAfterSecs : Nat)
  | checksumMismatch (expected actual : String)
  | cancelled
  deriving DecidableEq, Repr

/-- Progress of an in-flight download. -/
structure Progress where
  downloaded : Nat
  total : Option Nat
  deriving DecidableEq, Repr

/-- A finished download. -/
structure Downloaded where
  path : Path
  bytes : Nat
  sha1 : String
  verified : Bool
  deriving DecidableEq, Repr

/-! ## Responses -/

/-- What a stream delivers next; it ends where the list of its items ends. -/
inductive Item where
  | chunk (bytes : Bytes)
  | error
  deriving DecidableEq, Repr

/-- A response: `retryAfter` is the text of that header, when it is text. -/
structure Response where
  status : Nat
  retryAfter : Option String
  contentLength : Option Nat
  body : List Item
  deriving DecidableEq, Repr

/-- `status.is_success()`. -/
def Response.isSuccess (r : Response) : Bool := 200 ≤ r.status && r.status < 300

/-- `retry_after`, in seconds and capped. -/
def Response.retryAfterSecs (r : Response) : Option Nat :=
  (r.retryAfter.bind fun value => Text.parseU64 (Text.trim value)).map (min · 60)

/-- `backoff`, in seconds. -/
def backoff (attempt : Nat) : Nat := 2 ^ min attempt 4

/-! ## Calls -/

/-- What `download` is asked for. -/
structure Job where
  variant : Variant
  dir : Path
  deriving DecidableEq, Repr

def Job.finalPath (job : Job) : Path := Path.join job.dir (utf8Bytes job.variant.suggestedFilename)

def Job.partPath (job : Job) : Path :=
  job.finalPath.withExtension (utf8Bytes (job.variant.kind.extension ++ ".part"))

/-- The local variables from the first write on: `hashed` is what the hasher has been fed, `body` what
the stream has still to deliver. -/
structure Transfer where
  file : Handle
  hashed : Bytes
  downloaded : Nat
  total : Option Nat
  body : List Item
  deriving DecidableEq, Repr

/-- Where a call is, named after what it is waiting for. -/
inductive Phase where
  | createDir
  | metadata
  | send (already : Nat)
  -- re-hashing what is on disk: open it, read it to its end, open it again to append
  | openExisting (startAt : Nat) (total : Option Nat) (body : List Item)
  | rehash (startAt : Nat) (total : Option Nat) (body : List Item) (file offset : Nat)
      (hashed : Bytes)
  | openAppend (startAt : Nat) (total : Option Nat) (body : List Item) (hashed : Bytes)
  | create (total : Option Nat) (body : List Item)
  | next (t : Transfer)
  | write (t : Transfer) (chunk : Bytes)
  | flush (t : Transfer)
  | removePart (expected actual : String)
  | rename (bytes : Nat) (sha1 : String) (verified : Bool)
  | done (result : Except Error Downloaded)
  deriving DecidableEq, Repr

/-- A call: where it is and what it has reported to `on_progress`. -/
structure Call where
  phase : Phase
  reported : List Progress
  deriving DecidableEq, Repr

/-- A call that has just been made. -/
def Call.start : Call := ⟨.createDir, []⟩

/-- What the outside does in one step; a step looks at what concerns it. No response is a network
error, `size` is what one `read` may return, or what a failed write has written. -/
structure Answer where
  fault : Bool
  response : Option Response
  size : Nat
  cancelled : Bool
  deriving DecidableEq, Repr

namespace Call

def goto (call : Call) (phase : Phase) : Call := { call with phase := phase }

def fail (call : Call) (e : Error) : Call := call.goto (.done (.error e))

/-- `on_progress(Progress { downloaded, total })`, then on to the next chunk. -/
def report (call : Call) (t : Transfer) : Call :=
  ⟨.next t, call.reported ++ [⟨t.downloaded, t.total⟩]⟩

/-- What follows the status line. -/
def respond (job : Job) (call : Call) (already : Nat) (r : Response) : Call :=
  if r.status = 429 then call.fail (.rateLimited (r.retryAfterSecs.getD (backoff 1)))
  else if !r.isSuccess then call.fail (.status r.status job.variant.downloadUrl)
  else
    -- a server that ignored the range sends the whole file: start over
    let resuming := 0 < already && r.status = 206
    let startAt := if resuming then already else 0
    -- a sum of two `u64`, which would wrap if a server announced that much
    let total := (r.contentLength.map (· + startAt)).or job.variant.size
    if resuming then call.goto (.openExisting startAt total r.body)
    else call.goto (.create total r.body)

/-- The check against the published checksum. -/
def verify (sha1 : Bytes → Bytes) (job : Job) (call : Call) (t : Transfer) : Call :=
  let digest := Text.hex (sha1 t.hashed)
  match job.variant.sha1 with
  | some expected =>
    if expected.isEmpty then call.goto (.rename t.downloaded digest false)
    else if Text.eqIgnoreAsciiCase expected digest then
      call.goto (.rename t.downloaded digest true)
    else call.goto (.removePart expected digest)
  | none => call.goto (.rename t.downloaded digest false)

/-- One step of a call. -/
def step (sha1 : Bytes → Bytes) (job : Job) (a : Answer) (call : Call) (disk : Disk Path) :
    Call × Disk Path :=
  match call.phase with
  | .createDir =>
    if a.fault then (call.fail .io, disk) else (call.goto .metadata, disk)
  | .metadata =>
    -- `.map(|m| m.len()).unwrap_or(0)`
    let already := if a.fault then 0 else ((disk.read job.partPath).map List.length).getD 0
    (call.goto (.send already), disk)
  | .send already =>
    match a.response with
    | none => (call.fail .http, disk)
    | some r => (call.respond job already r, disk)
  | .openExisting startAt total body =>
    match disk.names job.partPath with
    | some file =>
      if a.fault then (call.fail .io, disk)
      else (call.goto (.rehash startAt total body file 0 []), disk)
    | none => (call.fail .io, disk)
  | .rehash startAt total body file offset hashed =>
    if a.fault then (call.fail .io, disk)
    else
      -- the buffer has 128 KiB, and only at the end of the file nothing is read
      let bytes := ((disk.data file).drop offset).take (max 1 (min a.size (128 * 1024)))
      if bytes = [] then (call.goto (.openAppend startAt total body hashed), disk)
      else
        (call.goto (.rehash startAt total body file (offset + bytes.length) (hashed ++ bytes)), disk)
  | .openAppend startAt total body hashed =>
    match disk.names job.partPath with
    | some file =>
      if a.fault then (call.fail .io, disk)
      else (call.report ⟨⟨file, none⟩, hashed, startAt, total, body⟩, disk)
    | none => (call.fail .io, disk)
  | .create total body =>
    if a.fault then (call.fail .io, disk)
    else
      let (disk, file) := disk.create job.partPath
      (call.report ⟨file, [], 0, total, body⟩, disk)
  | .next t =>
    match t.body with
    | [] => (call.goto (.flush t), disk)
    | item :: rest =>
      if a.cancelled then (call.fail (if a.fault then .io else .cancelled), disk)
      else
        match item with
        | .error => (call.fail .http, disk)
        | .chunk bytes =>
          (call.goto (.write { t with hashed := t.hashed ++ bytes, body := rest } bytes), disk)
  | .write t chunk =>
    if a.fault then (call.fail .io, (disk.write t.file (chunk.take a.size)).1)
    else
      let (disk, file) := disk.write t.file chunk
      (call.report { t with file := file, downloaded := t.downloaded + chunk.length }, disk)
  | .flush t => if a.fault then (call.fail .io, disk) else (call.verify sha1 job t, disk)
  | .removePart expected actual =>
    -- the error of `remove_file` is ignored
    (call.fail (.checksumMismatch expected actual),
      if a.fault then disk else disk.remove job.partPath)
  | .rename bytes digest verified =>
    if a.fault then (call.fail .io, disk)
    else
      match disk.rename job.partPath job.finalPath with
      | some disk =>
        (call.goto (.done (.ok ⟨job.finalPath, bytes, digest, verified⟩)), disk)
      | none => (call.fail .io, disk)
  | .done _ => (call, disk)

end Call

/-! ## The two paths -/

/-- The partial file is called like the finished one with `.part` behind it. -/
theorem Job.partPath_eq (job : Job) : job.partPath = job.finalPath ++ utf8Bytes ".part" := by
  obtain ⟨base, hname, hne, hlast⟩ := job.variant.utf8Bytes_suggestedFilename
  have hfinal : job.finalPath
      = Path.join job.dir base ++ Path.dot :: utf8Bytes job.variant.kind.extension := by
    rw [finalPath, hname, Path.join_append hne]
  have hjoin : (Path.join job.dir base).getLast? = base.getLast? := Path.getLast?_join hne
  have hlast' : (Path.join job.dir base).getLast? ≠ some Path.slash := by
    rw [hjoin]
    exact hlast
  have hne' : Path.join job.dir base ≠ [] := by
    intro hnil
    apply hne
    rw [← List.getLast?_eq_none_iff, ← hjoin, hnil]
    rfl
  have hext : ∀ b ∈ utf8Bytes job.variant.kind.extension, b ≠ Path.dot ∧ b ≠ Path.slash := by
    cases job.variant.kind <;> decide +kernel
  rw [partPath, hfinal, utf8Bytes_append, Path.withExtension_append hext hne' hlast']

theorem Job.partPath_ne_finalPath (job : Job) : job.partPath ≠ job.finalPath := by
  rw [job.partPath_eq]
  intro h
  exact absurd (List.append_right_eq_self.mp h) (by decide)

end Xylitol.Apkpure
