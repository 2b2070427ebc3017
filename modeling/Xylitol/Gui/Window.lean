import Xylitol.Channel
import Xylitol.Gui.Discover
import Xylitol.Machine

/-!
# The window and its downloads

The main loop handles one signal at a time; the downloads run beside it, on threads of their own. A
click on a row starts one, which sends its progress through a bounded channel and its result through
another, and the main loop takes from both when it gets to them:

    clicked ─▶ worked ─▶ worked ─▶ … ─▶ worked ─▶ returned
                  │         │                        │
                updates ──▶ updated …              library ─▶ library page

A filter builds the rows of the page anew, so there can be several rows for one file. A row is
identified by whatever distinguishes it, and is there from the start: what is not shown is not clicked.
How far the bar of a row is drawn goes through a floating-point number and is left out.
-/

namespace Xylitol.Gui

open Apkpure

/-! ### Rows -/

/-- What the suffix of a row holds. A bar and a cancel button belong to the download that put them
there. -/
inductive Widget where
  | button
  | bar (task : Nat)
  | cancel (task : Nat)
  | mark
  deriving DecidableEq, Repr

/-- An action row, with the state of its download button. -/
structure Row where
  title : String
  subtitle : String
  label : String
  visible : Bool
  suffix : List Widget
  deriving DecidableEq, Repr

/-- How texts and numbers are written, and what the errors say. -/
structure Wording extends Discover.Look where
  error : Apkpure.Error → String
  libraryError : Library.Error → String
  path : Path → String

def variantRow (look : Discover.Look) (v : Variant) : Row where
  title := look.markup v.descriptor
  subtitle := look.markup (" · ".intercalate ((v.size.map look.humanSize).toList
    ++ v.minAndroid.toList ++ v.dpi.toList.filter (· ≠ "nodpi")
    ++ [if v.sha1.isSome then "checksum published" else "no checksum published"]))
  label := "Download"
  visible := true
  suffix := [.button]

/-- What `start_download` puts into a row whose button was hidden. -/
def Row.started (row : Row) (n : Nat) : Row :=
  { row with visible := false, suffix := row.suffix ++ [.bar n, .cancel n] }

/-- What is taken out of a row when the result is there. -/
def Row.ended (row : Row) (n : Nat) : Row :=
  { row with suffix := (row.suffix.erase (.bar n)).erase (.cancel n) }

def Row.offered (row : Row) (label : String) : Row := { row with visible := true, label := label }

def Row.marked (row : Row) (subtitle : String) : Row :=
  { row with suffix := row.suffix ++ [.mark], subtitle := subtitle }

/-! ### Toasts -/

inductive Toast where
  | stopped
  | failed (e : Apkpure.Error)
  | saved (path : Path)
  | notAdded (e : Library.Error)
  | removed (name : String)
  | alreadyGone
  | notRemoved (e : Library.Error)
  deriving DecidableEq, Repr

def Toast.title (wording : Wording) : Toast → String
  | stopped => "Download stopped"
  | failed e => "Download failed: " ++ wording.error e
  | saved path => "Saved to " ++ wording.path path
  | notAdded e => "Downloaded, but could not add it to the library: " ++ wording.libraryError e
  | removed name => "Removed " ++ name
  | alreadyGone => "That package was already gone"
  | notRemoved e => "Could not remove it: " ++ wording.libraryError e

/-! ### The window -/

/-- A download that was started: the call on its thread, the token that its cancel button and the call
share, and the progress channel with what has been taken from it. -/
structure Task (R : Type) where
  row : R
  call : Call
  cancelled : Bool
  cancelSensitive : Bool
  updates : Channel Progress 16
  seen : List Progress
  /-- The main loop has the result. -/
  delivered : Bool

/-- The window: its rows, every download there was, the library in memory, and the entries that the
library page lists. -/
structure Window (R J : Type) where
  rows : R → Row
  tasks : List (Task R)
  machine : Machine J
  library : Library.Index
  shown : List Library.Entry
  toasts : List Toast

/-- What the main loop or a thread does next. `elsewhere` is another program at work on the machine. -/
inductive Event (R J : Type) where
  | clicked (row : R)
  | cancelClicked (n : Nat)
  | worked (n : Nat) (a : Answer)
  | updated (n : Nat)
  | returned (n : Nat) (faults : Library.Faults) (now : String)
  | removeClicked (k : Nat) (faults : Library.Faults)
  | elsewhere (machine : Machine J)

/-- What the rows are for and how the window is built. -/
structure Setting (R J : Type) where
  tools : Tools J
  wording : Wording
  variant : R → Variant

variable {R J : Type} [DecidableEq R]

def Setting.job (g : Setting R J) (row : R) : Job := ⟨g.variant row, g.tools.downloadDir⟩

/-- A window on a library that could be opened. -/
def build (g : Setting R J) (machine : Machine J) : Window R J where
  rows row := variantRow g.wording.toLook (g.variant row)
  tasks := []
  machine := machine
  library := machine.listed g.tools
  shown := Library.entries (machine.listed g.tools)
  toasts := []

namespace Window

variable (g : Setting R J) (w : Window R J)

def setRow (row : R) (f : Row → Row) : Window R J :=
  { w with rows := Function.update w.rows row (f (w.rows row)) }

def setTask (n : Nat) (t : Task R) : Window R J := { w with tasks := w.tasks.set n t }

def toast (t : Toast) : Window R J := { w with toasts := w.toasts ++ [t] }

/-- What the one observer of the library does. -/
def libraryChanged : Window R J := { w with shown := Library.entries w.library }

/-- A button that is not shown cannot be clicked. -/
def clicked (row : R) : Window R J :=
  if (w.rows row).visible then
    let n := w.tasks.length
    { w.setRow row (·.started n) with
      tasks := w.tasks ++ [⟨row, .start, false, true, .empty _ _, [], false⟩] }
  else w

def cancelClicked (n : Nat) (t : Task R) : Window R J :=
  if .cancel n ∈ (w.rows t.row).suffix ∧ t.cancelSensitive then
    w.setTask n { t with cancelled := true, cancelSensitive := false }
  else w

/-- One step of the call, which looks at the token; what it reports is sent or dropped. -/
def worked (n : Nat) (t : Task R) (a : Answer) : Window R J :=
  let (call, disk) := t.call.step g.tools.sha1 (g.job t.row) { a with cancelled := t.cancelled }
    w.machine.disk
  let reported := call.reported.drop t.call.reported.length
  { w.setTask n { t with call := call, updates := reported.foldl Channel.trySend t.updates } with
    machine := { w.machine with disk := disk } }

def updated (n : Nat) (t : Task R) : Window R J :=
  match t.updates.recv with
  | none => w
  | some (p, rest) => w.setTask n { t with updates := rest, seen := t.seen ++ [p] }

def finish (row : R) (done : Downloaded) (faults : Library.Faults) (now : String) : Window R J :=
  let after := Library.add g.tools.json g.tools.env faults w.library w.machine.world done.path
    (some (g.variant row)) done.verified now
  let w := { w with library := after.index, machine := w.machine.settle after.world }
  match after.result with
  | .ok _ =>
    (w.libraryChanged.setRow row (·.marked ("Downloaded · " ++ g.wording.humanSize done.bytes ++ " · "
      ++ (if done.verified then "checksum verified" else "no checksum to verify against")))).toast
      (.saved done.path)
  | .error e => w.toast (.notAdded e)

def returned (n : Nat) (t : Task R) (result : Except Apkpure.Error Downloaded)
    (faults : Library.Faults) (now : String) : Window R J :=
  let w := (w.setTask n { t with delivered := true }).setRow t.row (·.ended n)
  match result with
  | .ok done => w.finish g t.row done faults now
  -- the partial file is kept, so offer to carry on
  | .error .cancelled => (w.setRow t.row (·.offered "Resume")).toast .stopped
  | .error e => (w.setRow t.row (·.offered "Retry")).toast (.failed e)

/-- What is said about a removal. -/
def removal (name : String) : Except Library.Error Library.Reply → Toast
  | .ok (.removed false) => .alreadyGone
  | .ok _ => .removed name
  | .error e => .notRemoved e

def removeClicked (entry : Library.Entry) (faults : Library.Faults) : Window R J :=
  let after := Library.remove g.tools.json faults w.library w.machine.world entry.key true
  let w := { w with library := after.index, machine := w.machine.settle after.world }
  (w.toast (removal entry.info.displayName after.result)).libraryChanged

def step : Event R J → Window R J
  | .clicked row => w.clicked row
  | .cancelClicked n => match w.tasks[n]? with
    | none => w
    | some t => w.cancelClicked n t
  | .worked n a => match w.tasks[n]? with
    | none => w
    | some t => w.worked g n t a
  | .updated n => match w.tasks[n]? with
    | none => w
    | some t => w.updated n t
  | .returned n faults now => match w.tasks[n]? with
    | none => w
    | some t => match t.call.phase with
      | .done result => if t.delivered then w else w.returned g n t result faults now
      | _ => w
  | .removeClicked k faults => match w.shown[k]? with
    | none => w
    | some entry => w.removeClicked g entry faults
  | .elsewhere machine => { w with machine := machine }

end Window

end Xylitol.Gui
