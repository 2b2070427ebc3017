import Xylitol.Apkpure.Download.Directory
import Xylitol.Cli.Main

/-!
# What a download has done when it says it has saved a file

Between the page and the line that tells the key lie the choice, the transfer, the check, the rename,
the inspection of the file and the new index. `Saved` says of a download that has put the new index in
its place, and then prints the line unless it is killed right there, what is then on the machine; every
other download leaves the index file as it was.
-/

namespace Xylitol.Cli

open Apkpure

variable {J : Type} {tools : Tools J} {args : DownloadArgs} {json : Bool} {o : Outside}
  {m m' : Machine J} {v : Variant}

/-! ## The choice -/

theorem mem_of_prompt {fmt : Fmt} {session : Session} {first : Variant} {rest : List Variant}
    (h : prompt fmt session first rest = .ok v) : v ∈ first :: rest := by
  unfold prompt at h
  obtain ⟨-, -, h⟩ := bind_eq_ok.mp h
  obtain ⟨line, -, h⟩ := bind_eq_ok.mp h
  dsimp only at h
  split at h
  · cases h
    exact List.mem_cons_self
  · split at h
    · cases h
    · split at h
      · next hget =>
          cases h
          exact List.mem_of_getElem? hget
      · cases h

theorem mem_of_choose {fmt : Fmt} {session : Session} {all : List Variant} {filters : Filters}
    (h : choose fmt session all filters = .ok v) : v ∈ all := by
  have hcandidate : v ∈ apply all filters → v ∈ all := by
    rw [apply_eq_candidates]
    exact fun hmem => List.mem_of_mem_filter hmem
  unfold choose at h
  split at h
  · split at h
    · next hget =>
        cases h
        exact List.mem_of_getElem? hget
    · cases h
  · apply hcandidate
    split at h
    · cases h
    · next hone =>
        cases h
        rw [hone]
        exact List.mem_cons_self
    · next hmany =>
        rw [hmany]
        split at h
        · cases h
          exact List.mem_cons_self
        · split at h
          · exact mem_of_prompt h
          · cases h

/-- The request of a download. -/
def DownloadArgs.request (args : DownloadArgs) (o : Outside) : Fetch :=
  ⟨args.package, args.version, o.page⟩

/-- What is fetched is a file that the site has listed. -/
theorem lists_of_chooseFile (h : chooseFile tools args json o = .ok v) :
    (args.request o).Lists tools.web v := by
  unfold chooseFile at h
  split at h
  · cases h
  · next all hall =>
      split at h
      · cases h
      · exact ⟨all, hall, mem_of_choose (mapError_eq_ok.mp h)⟩

/-! ## What a download can do -/

/-- Nothing is printed that the program does not end with. -/
theorem printed_eq_some {ending report : Except Failure Report} (h : o.printed ending = some report) :
    ending = report := by
  unfold Outside.printed at h
  split at h
  · cases h
  · exact Option.some.inj h

theorem printed_ne_saved {ending : Except Failure Report}
    (h : ∀ done reply, ending ≠ .ok (.saved done reply)) (done : Downloaded)
    (reply : Library.Reply) : o.printed ending ≠ some (.ok (.saved done reply)) :=
  fun hprinted => h done reply (printed_eq_some hprinted)

/-- Nothing is touched but the two files of the job, and the finished one only if it says so. -/
structure Untouched (job : Job) (before after : Disk Path) : Prop where
  others : ∀ p, p ≠ job.partPath → p ≠ job.finalPath → after.read p = before.read p
  final : after.read job.finalPath = before.read job.finalPath

/-- Everything a download can do. -/
inductive DownloadEnds (tools : Tools J) (args : DownloadArgs) (json : Bool) (o : Outside)
    (m : Machine J) : Ending → Machine J → Prop where
  | refused {e} (hchoose : chooseFile tools args json o = .error e) :
      DownloadEnds tools args json o m (o.printed (.error e)) m
  | dry {chosen} (hchoose : chooseFile tools args json o = .ok chosen) (hdry : args.dryRun = true) :
      DownloadEnds tools args json o m (o.printed (.ok (.wouldDownload chosen))) m
  | stopped {chosen ending disk} (hchoose : chooseFile tools args json o = .ok chosen)
      (hending : ∀ done reply, ending ≠ some (.ok (.saved done reply)))
      (hdisk : Untouched (args.job tools chosen) m.disk disk) :
      DownloadEnds tools args json o m ending ⟨disk, m.index⟩
  | unrecorded {chosen content done e disk} (hchoose : chooseFile tools args json o = .ok chosen)
      (hfinished : Finished tools.sha1 (args.job tools chosen) content disk done)
      (hothers : ∀ p, p ≠ (args.job tools chosen).partPath → p ≠ (args.job tools chosen).finalPath →
        disk.read p = m.disk.read p) :
      DownloadEnds tools args json o m (o.printed (.error e)) ⟨disk, m.index⟩
  | saved {chosen content done info j disk} (hchoose : chooseFile tools args json o = .ok chosen)
      (hfinished : Finished tools.sha1 (args.job tools chosen) content disk done)
      (hjudged : Verdict (args.job tools chosen) done.sha1 done.verified)
      (hothers : ∀ p, p ≠ (args.job tools chosen).partPath → p ≠ (args.job tools chosen).finalPath →
        disk.read p = m.disk.read p)
      (hinfo : Apk.inspect tools.env content = .ok info)
      (hj : tools.json.toVecPretty ((Machine.listed tools ⟨disk, m.index⟩).insert
        (Library.key info) ⟨done.path, info, some chosen, o.now, done.verified⟩) = some j) :
      DownloadEnds tools args json o m
        (o.printed (.ok (.saved done (.added ⟨done.path, info, some chosen, o.now, done.verified⟩))))
        ⟨disk, some j⟩

theorem untouched_tear {job : Job} {disk : Disk Path} {s : Call × Disk Path}
    (h : Alone tools.sha1 job disk s) (hnotOk : ∀ d, s.1.phase ≠ .done (.ok d)) (size : Nat) :
    Untouched job disk (tear size s.2 s.1.phase) := by
  constructor
  · intro p hpart hfinal
    rw [read_tear_of_ne size h.faithful hpart, h.others p hpart hfinal]
  · rw [read_tear_of_ne size h.faithful job.partPath_ne_finalPath.symm, h.final hnotOk]

/-- Once the file is there it is recorded, or the index file stays as it was. -/
theorem ends_record {content : Bytes} {done : Downloaded} {disk : Disk Path}
    (hchoose : chooseFile tools args json o = .ok v)
    (hfinished : Finished tools.sha1 (args.job tools v) content disk done)
    (hjudged : Verdict (args.job tools v) done.sha1 done.verified)
    (hothers : ∀ p, p ≠ (args.job tools v).partPath → p ≠ (args.job tools v).finalPath →
      disk.read p = m.disk.read p) :
    DownloadEnds tools args json o m (record tools v done o ⟨disk, m.index⟩).1
      (record tools v done o ⟨disk, m.index⟩).2 := by
  unfold record
  split
  · exact .unrecorded hchoose hfinished hothers
  · next index hindex =>
      obtain rfl := openAt_eq_ok hindex
      dsimp only
      rcases add_settle tools (Machine.listed tools ⟨disk, m.index⟩) ⟨disk, m.index⟩ o.faults
        done.path (some v) done.verified o.now with ⟨e, hresult, -, hsettle⟩ |
        ⟨x, info, hx, hinfo, hindex, ⟨e, hresult, hsettle⟩ | ⟨j, hj, hresult, hsettle⟩⟩
      · rw [hresult, hsettle]
        exact .unrecorded hchoose hfinished hothers
      · rw [hresult, hsettle]
        exact .unrecorded hchoose hfinished hothers
      · have hcontent : x = content := by
          rw [hfinished.path] at hx
          exact Option.some.inj (hx.symm.trans hfinished.file)
        subst hcontent
        rw [hindex] at hj
        rw [hresult, hsettle]
        exact .saved hchoose hfinished hjudged hothers hinfo hj

theorem download_ends (tools : Tools J) (args : DownloadArgs) (json : Bool) (o : Outside)
    (m : Machine J) : DownloadEnds tools args json o m (download tools args json o m).1
      (download tools args json o m).2 := by
  unfold download
  split
  · next e he => exact .refused he
  · next v hv =>
      split
      · next hdry => exact .dry hv hdry
      · have halone := alone_run tools.sha1 (args.job tools v) m.disk o.answers
        generalize Runs.run (soloStep tools.sha1 (args.job tools v)) (.start, m.disk) o.answers
          = s at halone
        obtain ⟨call, disk⟩ := s
        dsimp only
        have hfailed : ∀ e, call.phase = .done (.error e) →
            Untouched (args.job tools v) m.disk disk := by
          intro e he
          refine ⟨halone.others, halone.final ?_⟩
          intro d hd
          rw [show call.phase = _ from hd] at he
          cases he
        split
        · next done hdone =>
            obtain ⟨content, hfinished⟩ := halone.finished done hdone
            have hjudged := halone.judged
            rw [show call.phase = _ from hdone] at hjudged
            exact ends_record hv hfinished hjudged halone.others
        · next hdone => exact .stopped hv (printed_ne_saved (by simp)) (hfailed _ hdone)
        · next hdone => exact .stopped hv (printed_ne_saved (by simp)) (hfailed _ hdone)
        · next hnotOk _ _ =>
            exact .stopped hv (by simp) (untouched_tear halone (fun d hd => hnotOk d hd) o.torn)

/-! ## What the line says -/

/-- A download of `v` has left `content`, recorded as `entry`. -/
structure Saved (tools : Tools J) (args : DownloadArgs) (json : Bool) (o : Outside)
    (m m' : Machine J) (v : Variant) (content : Bytes) (done : Downloaded)
    (entry : Library.Entry) : Prop where
  chosen : chooseFile tools args json o = .ok v
  finished : Finished tools.sha1 (args.job tools v) content m'.disk done
  checked : done.verified = v.sha1.isSome ∧ ∀ s ∈ v.sha1, Text.hex (tools.sha1 content) = s
  described : ∃ info, Apk.inspect tools.env content = .ok info ∧
    entry = ⟨done.path, info, some v, o.now, done.verified⟩
  /-- Beside the new entry the index has what was recorded before, of which the file is there. -/
  recorded : m'.recorded tools = ((m.recorded tools).filter fun _ e =>
    (m'.disk.read e.path).isSome).insert entry.key entry
  others : ∀ p, p ≠ (args.job tools v).partPath → p ≠ (args.job tools v).finalPath →
    m'.disk.read p = m.disk.read p

/-- A download has left the index file as it was. -/
structure Unsaved (tools : Tools J) (args : DownloadArgs) (json : Bool) (o : Outside)
    (m m' : Machine J) : Prop where
  index : m'.index = m.index
  dryRun : args.dryRun = true → m' = m
  /-- The finished file is as it was, or whole. -/
  files : m' = m ∨ ∃ v, chooseFile tools args json o = .ok v ∧
    (∀ p, p ≠ (args.job tools v).partPath → p ≠ (args.job tools v).finalPath →
      m'.disk.read p = m.disk.read p) ∧
    (m'.disk.read (args.job tools v).finalPath = m.disk.read (args.job tools v).finalPath ∨
      ∃ content done, Finished tools.sha1 (args.job tools v) content m'.disk done)

/-- Every end of a download is one of the two. -/
theorem DownloadEnds.saved_or_unsaved {ending : Ending}
    (h : DownloadEnds tools args json o m ending m') (hdry : args.dryRun = true → m' = m) :
    (∃ done entry v content, ending = o.printed (.ok (.saved done (.added entry))) ∧
      Saved tools args json o m m' v content done entry) ∨
    ((∀ done reply, ending ≠ some (.ok (.saved done reply))) ∧
      Unsaved tools args json o m m') := by
  cases h with
  | refused | dry =>
      exact Or.inr ⟨printed_ne_saved (by simp), rfl, hdry, Or.inl rfl⟩
  | stopped hchoose hending hdisk =>
      exact Or.inr ⟨hending, rfl, hdry, Or.inr ⟨_, hchoose, hdisk.others, Or.inl hdisk.final⟩⟩
  | unrecorded hchoose hfinished hothers =>
      exact Or.inr ⟨printed_ne_saved (by simp), rfl, hdry,
        Or.inr ⟨_, hchoose, hothers, Or.inr ⟨_, _, hfinished⟩⟩⟩
  | @saved v content done info j disk hchoose hfinished hjudged hothers hinfo hj =>
      obtain ⟨hverified, hdigest⟩ :=
        Verdict.of_scraped (lists_of_chooseFile hchoose).scraped hjudged
      refine Or.inl ⟨done, _, v, content, rfl, hchoose, hfinished, ⟨hverified, ?_⟩,
        ⟨info, hinfo, rfl⟩, ?_, hothers⟩
      · intro s hs
        rw [← hdigest s hs, hfinished.sha1]
      · rw [recorded_write hj]
        rfl

theorem download_dry (h : args.dryRun = true) : (download tools args json o m).2 = m := by
  unfold download
  split
  · rfl
  · rw [if_pos h]

def baseSha1 : Bytes :=
  [0x4b, 0x4c, 0x98, 0x1c, 0x56, 0xdf, 0xc5, 0xa2, 0x9d, 0x55,
    0xca, 0x60, 0xb7, 0x72, 0x35, 0x40, 0x5e, 0x77, 0x6b, 0xee]

/-- The small package as a site lists it. -/
def baseFile : Variant where
  package := "a.b"
  versionName := "1.0"
  versionCode := 7
  kind := .apk
  size := none
  published := none
  arch := none
  dpi := none
  minAndroid := none
  sha1 := some "4b4c981c56dfc5a29d55ca60b77235405e776bee"
  signature := none
  uploader := none
  downloadUrl := "https://d.apkpure.com/b/APK/a.b?versionCode=7"

def baseListing : Parse.Listing := ⟨baseFile, none, baseFile.downloadUrl, true, []⟩

theorem baseListing_fits : baseListing.Fits (fun _ => none) "a.b" where
  scraped := by
    refine ⟨rfl, by decide, by decide, nofun, nofun, nofun, nofun, nofun, ?_, nofun, nofun,
      by decide⟩
    exact Parse.forall_mem_some (by decide)
  sizeText := nofun
  size := rfl
  href := by decide
  code := Or.inl rfl
  others := nofun

def baseRows : List Parse.Row := [.unavailable [.text "soon"], .offer baseListing]

theorem baseRows_fit : ∀ r ∈ baseRows, r.Fits (fun _ => none) "a.b" := by
  simp only [baseRows, List.forall_mem_cons]
  refine ⟨?_, baseListing_fits, List.forall_mem_nil _⟩
  rw [Parse.Row.Fits, Dom.Quiet, Dom.Node.Quiet, Dom.Quiet]
  exact ⟨trivial, trivial⟩

theorem plain_baseRows : Markup.Plain (Client.pageOf baseRows) := by
  apply Client.plain_pageOf
  simp [baseRows, Parse.Row.children, Parse.Theme.rowChildren, Parse.Theme.infoTop,
    Parse.Theme.infoBottom, Parse.Theme.box, Parse.Theme.spanOf, Parse.Theme.span,
    Parse.Theme.details, Parse.Theme.detailChildren, Parse.said, Parse.plainTheme, baseListing,
    baseFile, FileKind.asPathSegment, Parse.Theme.codeText, Markup.Token.Plain,
    Markup.Without, show Int.repr 7 = "7" by decide]

def baseTools : Tools Library.Index where
  fmt := plainFmt
  web := plainWeb fun _ => none
  json := Library.plainJson
  env := Library.smallEnv
  sha1 := fun _ => baseSha1
  downloadDir := utf8Bytes "/d"

/-- Nobody at the terminal, a site that sends a page with one file, and a file system where nothing
fails. -/
def quiet : Outside where
  page := Client.busyThen (sent (Markup.write (Client.pageOf baseRows)))
  terminal := false
  session := ⟨.ok (), .ok ""⟩
  answers := smooth none :: smooth none
    :: smooth (some ⟨200, none, some 417, [.chunk Library.baseApk]⟩) :: List.replicate 6 (smooth none)
  torn := 0
  openFaults := .none
  faults := .none
  gone := false
  now := "t1"

def baseArgs : DownloadArgs := { package := "a.b" }

def baseDone : Downloaded :=
  ⟨utf8Bytes "/d/a.b_1.0_7_universal.apk", 417, "4b4c981c56dfc5a29d55ca60b77235405e776bee", true⟩

theorem fetchVariants_base : Client.fetchVariants baseTools.web baseArgs.package baseArgs.version
    quiet.page = .ok [baseFile] :=
  Client.fetchVariants_pageOf plain_baseRows baseRows_fit

theorem chooseFile_base : chooseFile baseTools baseArgs false quiet = .ok baseFile := by
  rw [chooseFile, fetchVariants_base]
  rfl

theorem run_base : (Runs.run (soloStep baseTools.sha1 (baseArgs.job baseTools baseFile))
    (.start, emptyDisk) quiet.answers).1.phase = .done (.ok baseDone) := by decide +kernel

theorem read_base : (Runs.run (soloStep baseTools.sha1 (baseArgs.job baseTools baseFile))
    (.start, emptyDisk) quiet.answers).2.read baseDone.path = some Library.baseApk := by
  decide +kernel

def baseEntry : Library.Entry := ⟨baseDone.path, Library.baseInfo, some baseFile, "t1", true⟩

/-- The package is found, chosen, fetched, checked and recorded. -/
theorem download_base : ∃ disk, disk.read baseEntry.path = some Library.baseApk ∧
    download baseTools baseArgs false quiet ⟨emptyDisk, none⟩
      = (some (.ok (.saved baseDone (.added baseEntry))),
        ⟨disk, some ((∅ : Library.Index).insert baseEntry.key baseEntry)⟩) := by
  have hphase := run_base
  have hread := read_base
  refine ⟨_, hread, ?_⟩
  rw [download, chooseFile_base]
  dsimp only
  rw [if_neg (show ¬ baseArgs.dryRun = true by decide)]
  generalize Runs.run (soloStep baseTools.sha1 (baseArgs.job baseTools baseFile))
    (.start, emptyDisk) quiet.answers = s at hphase hread
  obtain ⟨call, disk⟩ := s
  have hopen : Library.openAt baseTools.json quiet.openFaults
      (Machine.world (⟨disk, none⟩ : Machine Library.Index)) = .ok ∅ := rfl
  have hpath : Path.isUtf8 baseDone.path := Path.isUtf8_utf8Bytes _
  have hfile : (Machine.world (⟨disk, none⟩ : Machine Library.Index)).files baseDone.path
      = some Library.baseApk := hread
  have hadd := Library.add_plainJson Library.utf8_empty hpath hfile Library.inspect_baseApk
    baseEntry rfl
  simp only [show call.phase = _ from hphase, record, hopen]
  rw [show Library.add baseTools.json baseTools.env quiet.faults ∅ _ baseDone.path (some baseFile)
    baseDone.verified quiet.now = _ from hadd]
  exact congrArg (Prod.mk _) (Machine.settle_same ⟨disk, none⟩ _)

end Xylitol.Cli
