import Xylitol.Apkpure.Download.Alone
import Xylitol.Apkpure.Files
import Xylitol.Machine

/-!
# The command line

Every command starts from what is on the machine, the disk and the index file, and leaves what it
makes of them. A command holds nothing from one call to the next: a download asks the site, chooses,
fetches, and then opens the library to record what it has saved:

    variants ──▶ choose ──▶ download ──▶ open ──▶ add
                   │           │           │        │
                message    interrupted   failed  reading

What is printed is kept as data. A program that is killed in the transfer leaves what the transfer has
left; one that is killed at a call of the library is one in which this call and what follows it fail
and nothing is printed any more, which is `gone`. `shim`, which only reads a package and prints a
report, is left out, and so is what goes wrong with the output itself.
-/

namespace Xylitol.Cli

open Apkpure

/-- What happens around one command: what the site answers to its requests, who is at the terminal,
how each step of a download goes, until the program is gone if it is not done before, having written
`torn` bytes of a chunk, which calls of the library fail, whether the program is gone before it prints
how it ends, and what the clock says. -/
structure Outside where
  page : Nat → Option Response
  terminal : Bool
  session : Session
  answers : List Answer
  torn : Nat
  openFaults : Library.Faults
  faults : Library.Faults
  gone : Bool
  now : String

structure DownloadArgs where
  package : String
  version : Option String := none
  versionCode : Option Int := none
  arch : Option String := none
  kind : Option FileKind := none
  pick : Option UInt64 := none
  yes : Bool := false
  dir : Option Path := none
  dryRun : Bool := false

inductive LibraryCommand where
  | list
  | add (file : Path)
  | remove (key : String) (delete : Bool)

inductive Command where
  | search (query : String) (limit : Nat)
  | versions (package : String)
  | variants (package : String) (version : Option String)
  | download (args : DownloadArgs)
  | inspect (file : Path)
  | library (cmd : LibraryCommand)

/-- What a command that ends well has printed. -/
inductive Report where
  | hits (hits : List SearchHit.Full)
  | releases (releases : List Release)
  | variants (variants : List Variant)
  | wouldDownload (v : Variant)
  -- stopped on request, which is no error
  | interrupted
  | saved (done : Downloaded) (reply : Library.Reply)
  | info (info : Apk.PackageInfo)
  | entries (entries : List Library.Entry)
  | reply (reply : Library.Reply)

/-- The error a command ends with. -/
inductive Failure where
  | client (e : ClientError)
  | message (text : String)
  | download (e : Apkpure.Error)
  | library (e : Library.Error)
  | reading (path : Path) (e : Library.Error)

/-- How a command ends; nothing when the program is gone before. -/
abbrev Ending := Option (Except Failure Report)

/-- What the program prints at its end. -/
def Outside.printed (o : Outside) (ending : Except Failure Report) : Ending :=
  if o.gone then none else some ending

variable {J : Type} (tools : Tools J)

/-! ## Commands -/

/-- `--json` is a machine-readable mode: never stop to ask on it, even from a terminal. -/
def DownloadArgs.filters (args : DownloadArgs) (json terminal : Bool) : Filters where
  versionCode := args.versionCode
  arch := args.arch
  kind := args.kind
  pick := args.pick
  assumeYes := args.yes
  interactive := !json && terminal

/-- What is fetched and where to. -/
def DownloadArgs.job (args : DownloadArgs) (chosen : Variant) : Job :=
  ⟨chosen, args.dir.getD tools.downloadDir⟩

def search (query : String) (limit : Nat) (o : Outside) : Ending :=
  match Client.search tools.web query limit o.page with
  | .error e => o.printed (.error (.client e))
  | .ok hits => o.printed (.ok (.hits hits))

def versions (package : String) (o : Outside) : Ending :=
  match Client.releases tools.web package o.page with
  | .error e => o.printed (.error (.client e))
  | .ok releases => o.printed (.ok (.releases releases))

def listVariants (package : String) (version : Option String) (o : Outside) : Ending :=
  match Client.fetchVariants tools.web package version o.page with
  | .error e => o.printed (.error (.client e))
  | .ok variants => o.printed (.ok (.variants variants))

/-- The file to fetch, or why there is none. -/
def chooseFile (args : DownloadArgs) (json : Bool) (o : Outside) : Except Failure Variant :=
  match Client.fetchVariants tools.web args.package args.version o.page with
  | .error e => .error (.client e)
  | .ok all =>
    if all.isEmpty then
      .error (.message ("APKPure lists no downloadable file for " ++ args.package))
    else (choose tools.fmt o.session all (args.filters json o.terminal)).mapError .message

/-- `Library::open`, then `lib.add(&done.path, Some(chosen.clone()), done.verified)`. -/
def record (chosen : Variant) (done : Downloaded) (o : Outside) (m : Machine J) :
    Ending × Machine J :=
  match Library.openAt tools.json o.openFaults m.world with
  | .error e => (o.printed (.error (.library e)), m)
  | .ok index =>
    let after := Library.add tools.json tools.env o.faults index m.world done.path (some chosen)
      done.verified o.now
    (o.printed (match after.result with
      | .error e => .error (.reading done.path e)
      | .ok reply => .ok (.saved done reply)), m.settle after.world)

def download (args : DownloadArgs) (json : Bool) (o : Outside) (m : Machine J) :
    Ending × Machine J :=
  match chooseFile tools args json o with
  | .error e => (o.printed (.error e), m)
  | .ok chosen =>
    if args.dryRun then (o.printed (.ok (.wouldDownload chosen)), m)
    else
      let (call, disk) := Runs.run (soloStep tools.sha1 (args.job tools chosen)) (.start, m.disk)
        o.answers
      match call.phase with
      | .done (.ok done) => record tools chosen done o { m with disk := disk }
      | .done (.error .cancelled) => (o.printed (.ok .interrupted), { m with disk := disk })
      | .done (.error e) => (o.printed (.error (.download e)), { m with disk := disk })
      | phase => (none, { m with disk := tear o.torn disk phase })

def inspect (file : Path) (o : Outside) (m : Machine J) : Ending :=
  match m.disk.read file with
  | none =>
    o.printed (.error (.reading file (.inspect (.io "No such file or directory (os error 2)"))))
  | some data => match Apk.inspect tools.env data with
    | .error e => o.printed (.error (.reading file (.inspect e)))
    | .ok info => o.printed (.ok (.info info))

def library (cmd : LibraryCommand) (o : Outside) (m : Machine J) : Ending × Machine J :=
  match Library.openAt tools.json o.openFaults m.world with
  | .error e => (o.printed (.error (.library e)), m)
  | .ok index =>
    match cmd with
    | .list => (o.printed (.ok (.entries (Library.entries index))), m)
    | .add file =>
      let after := Library.add tools.json tools.env o.faults index m.world file none false o.now
      (o.printed ((after.result.map .reply).mapError .library), m.settle after.world)
    | .remove key delete =>
      let after := Library.remove tools.json o.faults index m.world key delete
      (o.printed (match after.result with
        | .error e => .error (.library e)
        | .ok (.removed false) => .error (.message ("no library entry with key " ++ key))
        | .ok reply => .ok (.reply reply)), m.settle after.world)

/-- One command. -/
def Command.run (command : Command) (json : Bool) (o : Outside) (m : Machine J) :
    Ending × Machine J :=
  match command with
  | .search query limit => (Cli.search tools query limit o, m)
  | .versions package => (Cli.versions tools package o, m)
  | .variants package version => (listVariants tools package version o, m)
  | .download args => Cli.download tools args json o m
  | .inspect file => (Cli.inspect tools file o m, m)
  | .library cmd => Cli.library tools cmd o m

end Xylitol.Cli
