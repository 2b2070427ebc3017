import Xylitol.Apkpure.Download.Resume
import Xylitol.Apkpure.Parse
import Xylitol.Runs

/-!
# Downloads of files read from a page

A page gives a digest in small letters or none at all, so the check of a download is never skipped
by an empty digest and never rests on the case of letters. This holds whatever the server sends and
whatever other programs do to the disk between two steps of the call.
-/

namespace Xylitol.Apkpure

theorem toLower_hexByte {b : UInt8} {c : Char} (h : c ∈ Text.hexByte b) : c.toLower = c := by
  have hdigit : ∀ n < 16, (Nat.digitChar n).toLower = Nat.digitChar n := by decide
  have hlt : b.toNat < 256 := b.toNat_lt
  rcases List.mem_cons.mp h with rfl | h
  · exact hdigit _ (by omega)
  · rw [List.mem_singleton.mp h]
    exact hdigit _ (by omega)

theorem toAsciiLowercase_hex (bytes : Bytes) :
    Text.toAsciiLowercase (Text.hex bytes) = Text.hex bytes := by
  rw [Text.toAsciiLowercase, Text.hex, String.toList_ofList]
  refine congrArg String.ofList ((List.map_congr_left ?_).trans (List.map_id _))
  intro c hc
  obtain ⟨b, -, hb⟩ := List.mem_flatMap.mp hc
  exact toLower_hexByte hb

/-- The verdict on a digest: it is that of some bytes, and it was compared with what is published. -/
structure Verdict (job : Job) (digest : String) (verified : Bool) : Prop where
  hex : ∃ bytes, digest = Text.hex bytes
  matching : verified = true → Matches job digest
  skipped : verified = false → job.variant.sha1.getD "" = ""

/-- A call that has accepted a file has a verdict on it. -/
def Judged (job : Job) : Phase → Prop
  | .rename _ digest verified => Verdict job digest verified
  | .done (.ok d) => Verdict job d.sha1 d.verified
  | _ => True

theorem judged_step {sha1 : Bytes → Bytes} {job : Job} {a : Answer} {disk after : Disk Path}
    {phase phase' : Phase} (h : Judged job phase) (hmove : Move sha1 job a disk phase phase' after) :
    Judged job phase' := by
  cases hmove with
  | accepted hmatch hpublished => exact ⟨⟨_, rfl⟩, hmatch.mp, hpublished⟩
  | renamed _ => exact h
  | rest => exact h
  | _ => trivial

/-- The call after a run in which anything may have happened to the disk before each step. -/
def callAfter (sha1 : Bytes → Bytes) (job : Job) (events : List (Answer × Disk Path)) : Call :=
  Runs.run (fun call e => (call.step sha1 job e.1 e.2).1) .start events

theorem judged_callAfter (sha1 : Bytes → Bytes) (job : Job) (events : List (Answer × Disk Path)) :
    Judged job (callAfter sha1 job events).phase := by
  have hstep : ∀ (call : Call) (e : Answer × Disk Path), Judged job call.phase →
      Judged job (call.step sha1 job e.1 e.2).1.phase :=
    fun call e h => judged_step h (step_moves sha1 job e.1 call e.2)
  have hstart : Judged job Call.start.phase := trivial
  exact Runs.invariant_every_run hstep hstart events

/-- A digest in small letters is the digest of the bytes, and its being there says whether it was
compared. -/
theorem Verdict.of_scraped {parseSize : String → Option Nat} {package : String} {v : Variant}
    {dir : Path} {digest : String} {verified : Bool} (hv : v.Scraped parseSize package)
    (h : Verdict ⟨v, dir⟩ digest verified) :
    verified = v.sha1.isSome ∧ ∀ s ∈ v.sha1, digest = s := by
  cases hsha1 : v.sha1 with
  | none =>
    refine ⟨?_, nofun⟩
    rw [Option.isSome_none, Bool.eq_false_iff]
    intro hverified
    obtain ⟨expected, hexpected, -⟩ := h.matching hverified
    rw [hsha1] at hexpected
    cases hexpected
  | some s =>
    obtain ⟨⟨hne, -⟩, hlower⟩ := hv.sha1 s hsha1
    have hverified : verified = true := by
      rw [← Bool.not_eq_false]
      intro hskip
      have hempty := h.skipped hskip
      rw [hsha1] at hempty
      exact hne hempty
    refine ⟨hverified, Parse.forall_mem_some ?_⟩
    obtain ⟨expected, hexpected, -, heq⟩ := h.matching hverified
    rw [hsha1] at hexpected
    cases hexpected
    obtain ⟨bytes, hbytes⟩ := h.hex
    rw [Text.eqIgnoreAsciiCase, beq_iff_eq, hlower, hbytes, toAsciiLowercase_hex] at heq
    rw [heq, hbytes]

/-- A file that a page lists is accepted with the very digest the page gives, and as verified, or
without a check when the page gives none. -/
theorem sha1_eq_of_scraped {parseSize : String → Option Nat} {package : String} {v : Variant}
    (hv : v.Scraped parseSize package) (sha1 : Bytes → Bytes) (dir : Path)
    {events : List (Answer × Disk Path)} {d : Downloaded}
    (hdone : (callAfter sha1 ⟨v, dir⟩ events).phase = .done (.ok d)) :
    d.verified = v.sha1.isSome ∧ ∀ s ∈ v.sha1, d.sha1 = s := by
  have hverdict : Judged ⟨v, dir⟩ (callAfter sha1 ⟨v, dir⟩ events).phase :=
    judged_callAfter sha1 ⟨v, dir⟩ events
  rw [hdone] at hverdict
  exact Verdict.of_scraped hv hverdict

def scrapedVariant : Variant := sampleVariant (some "11966ab9c099f8fabefac54c08d5be2bd8c903af")

def flickeringDone : Downloaded :=
  ⟨sampleJob.finalPath, 5, "11966ab9c099f8fabefac54c08d5be2bd8c903af", true⟩

/-- An empty partial file appears and disappears while the call is running. -/
def flickering : List (Answer × Disk Path) :=
  let present := (emptyDisk.create sampleJob.partPath).1
  [(smooth none, present), (smooth none, emptyDisk), (smooth (some wholeBody), present)]
    ++ List.replicate 7 (smooth none, emptyDisk) ++ [(smooth none, present)]

theorem scrapedVariant_scraped : scrapedVariant.Scraped (fun _ => none) "com.example.app" := by
  refine ⟨rfl, by decide, by decide, nofun, nofun, ?_, nofun, nofun, ?_, nofun, nofun, by decide⟩
  · exact Parse.forall_mem_some (by decide)
  · exact Parse.forall_mem_some (by decide)

theorem sha1_eq_of_flickering : flickeringDone.verified = scrapedVariant.sha1.isSome ∧
    ∀ s ∈ scrapedVariant.sha1, flickeringDone.sha1 = s :=
  sha1_eq_of_scraped scrapedVariant_scraped sampleSha1 (utf8Bytes "/d")
    (show (callAfter sampleSha1 ⟨scrapedVariant, utf8Bytes "/d"⟩ flickering).phase =
      .done (.ok flickeringDone) by decide)

end Xylitol.Apkpure
