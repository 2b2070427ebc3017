import Xylitol.Apkpure.Client
import Xylitol.Apkpure.Parse.Page
import Xylitol.Separators

/-!
# The files of an app

Asking for the files of an app is a request, the reading of a page and a sort. Whatever the site
answers, what comes out is in order and clean, and a site that serves a page gets its rows across.
The version code of a row may be in its link only; in the client's own stable links it always is.
-/

namespace Xylitol.Apkpure

open Dom Parse

namespace Client

variable {web : Web} {package : String} {versionName : Option String}
  {answer : Nat → Option Response}

/-- What a call that succeeds has read. -/
theorem getText_eq_ok {url text : String} {k : Nat} (hk : Decides answer k) :
    getText web url answer = .ok text ↔
      ∃ r, answer k = some r ∧ r.isSuccess = true ∧ web.text r = some text := by
  rw [getText, get_of_decides hk]
  cases hr : answer k with
  | none => simp [judge]
  | some r =>
    by_cases hok : r.isSuccess = true
    · cases htext : web.text r <;> simp [judge, hok, htext]
    · by_cases hstatus : r.status = 429 <;> simp [judge, hok, hstatus]

/-- A page that is served and read comes out sorted. -/
theorem fetchVariants_of_page {k : Nat} (hk : Decides answer k) {r : Response}
    (hanswer : answer k = some r) (hok : r.isSuccess = true) {text : String}
    (htext : web.text r = some text) {parsed : List Variant}
    (hparse : Parse.variants web.parseSize (web.parseDocument text) package = .ok parsed) :
    fetchVariants web package versionName answer = .ok (variants parsed) := by
  have hget : getText web (variantsUrl package versionName) answer = .ok text :=
    (getText_eq_ok hk).mpr ⟨r, hanswer, hok, htext⟩
  rw [fetchVariants, hget]
  simp only [hparse]

/-- A list that comes out was read from a page. -/
theorem fetchVariants_eq_ok {vs : List Variant}
    (h : fetchVariants web package versionName answer = .ok vs) :
    ∃ doc parsed, Parse.variants web.parseSize doc package = .ok parsed ∧ vs = variants parsed := by
  rw [fetchVariants] at h
  split at h
  · cases h
  · split at h
    · cases h
    · next parsed hparsed =>
        cases h
        exact ⟨_, parsed, hparsed, rfl⟩

theorem scraped_of_fetchVariants {vs : List Variant} {v : Variant}
    (h : fetchVariants web package versionName answer = .ok vs) (hv : v ∈ vs) :
    v.Scraped web.parseSize package := by
  obtain ⟨doc, parsed, hparsed, rfl⟩ := fetchVariants_eq_ok h
  exact scraped_of_variants hparsed v ((variants_perm parsed).mem_iff.mp hv)

/-- Every list of files that a site can make the client return is in order, and each file is clean:
its name is trimmed, its digests are in small letters, its link is no path. -/
theorem fetchVariants_sound {vs : List Variant}
    (h : fetchVariants web package versionName answer = .ok vs) :
    vs.Pairwise Variant.Leads ∧ ∀ v ∈ vs, v.Scraped web.parseSize package := by
  refine ⟨?_, fun v hv => scraped_of_fetchVariants h hv⟩
  obtain ⟨doc, parsed, -, rfl⟩ := fetchVariants_eq_ok h
  exact variants_pairwise parsed

/-- A page that a site serves, at once or after it was rate limiting, gets across: the files it
offers come out, newest build first, then widest architecture, and in the order of the page where
neither tells them apart. -/
theorem fetchVariants_downloadPage (theme : Theme fileMarks)
    (place : Surroundings versionList apk.target) {rs : List Row}
    (hrs : ∀ r ∈ rs, r.Fits web.parseSize package) {k : Nat} (hk : Decides answer k)
    {r : Response} (hanswer : answer k = some r) (hok : r.isSuccess = true) {text : String}
    (htext : web.text r = some text)
    (hparse : web.parseDocument text = downloadPage theme place rs) :
    ∃ vs, fetchVariants web package versionName answer = .ok vs ∧
      vs.Perm ((rs.filterMap Row.listing).map Listing.variant) ∧ vs.Pairwise Variant.Leads ∧
      ∀ a b, a.Leads b → [a, b].Sublist ((rs.filterMap Row.listing).map Listing.variant) →
        [a, b].Sublist vs := by
  have hread := variants_downloadPage theme place hrs
  rw [← hparse] at hread
  exact ⟨variants ((rs.filterMap Row.listing).map Listing.variant),
    fetchVariants_of_page hk hanswer hok htext hread, variants_perm _, variants_pairwise _,
    fun a b hab h => List.pair_sublist_insertionSort hab h⟩

/-! ### A page that is sent as text -/

/-- The list of versions in the body of a page. -/
def pageList : Surroundings versionList apk.target where
  frames := [⟨⟨"html", []⟩, [.element ⟨"head", []⟩ []], []⟩, ⟨⟨"body", []⟩, [], []⟩,
    ⟨⟨"div", [("id", "version-list")]⟩, [], []⟩]
  inList := by
    refine ⟨_, List.mem_cons_of_mem _ (List.mem_cons_of_mem _ List.mem_cons_self), by decide⟩
  quiet f hf := by
    simp only [List.mem_cons, List.not_mem_nil, or_false] at hf
    rcases hf with rfl | rfl | rfl
    all_goals
      rw [Frame.Quiet]
      simp +decide [Quiet, Node.Quiet]

/-- A page with these rows. -/
def pageOf (rs : List Row) : List Node := plug pageList.frames (rows (plainTheme fileMarks) rs)

theorem parseDocument_pageOf {parseSize : String → Option Nat} {rs : List Row}
    (hplain : Markup.Plain (pageOf rs)) :
    (plainWeb parseSize).parseDocument (Markup.write (pageOf rs))
      = downloadPage (plainTheme fileMarks) pageList rs := by
  show Html.ofTree (Markup.read (Markup.write _)) = _
  rw [Markup.read_write hplain]
  rfl

/-- A later build, and the build of the client's own test page for other screens. -/
def newFile : Variant :=
  { armFile with
    versionName := "1.2.4"
    versionCode := 46
    size := none
    downloadUrl := "https://d.apkpure.com/b/XAPK/com.example?versionCode=46" }

def denseFile : Variant := { armFile with dpi := some "480dpi", sha1 := none }

def armRows : List Row :=
  [.offer armListing, .unavailable [.text "soon"],
    .offer ⟨newFile, none, newFile.downloadUrl, true, []⟩,
    .offer ⟨denseFile, some "44.9 MB", denseFile.downloadUrl, true, []⟩]

theorem armRows_fit : ∀ r ∈ armRows, r.Fits armSize "com.example" := by
  have harm := armListing_fits.scraped
  have hnew : newFile.Scraped armSize "com.example" :=
    ⟨rfl, by decide, by decide, by simp [newFile], harm.published, harm.arch, harm.dpi,
      harm.minAndroid, harm.sha1, harm.signature, harm.uploader, by decide⟩
  have hdense : denseFile.Scraped armSize "com.example" :=
    ⟨rfl, by decide, by decide, harm.size, harm.published, harm.arch, forall_mem_some (by decide),
      harm.minAndroid, by simp [denseFile], harm.signature, harm.uploader, by decide⟩
  simp only [armRows, List.forall_mem_cons]
  refine ⟨armListing_fits, ?_, ⟨hnew, by simp, rfl, by decide, Or.inl rfl, by simp⟩,
    ⟨hdense, forall_mem_some (by decide), by decide, by decide, Or.inl rfl, by simp⟩,
    List.forall_mem_nil _⟩
  rw [Row.Fits, Quiet, Node.Quiet, Quiet]
  exact ⟨trivial, trivial⟩

/-- The page of the rows is plain when each of them is. -/
theorem plain_pageOf {rs : List Row}
    (h : ∀ r ∈ rs, Markup.Plain (r.children (plainTheme fileMarks))) : Markup.Plain (pageOf rs) := by
  have hrows : Markup.Plain (rows (plainTheme fileMarks) rs) := by
    induction rs with
    | nil => exact Markup.plain_nil
    | cons r rs ih =>
      obtain ⟨hr, hrs⟩ := List.forall_mem_cons.mp h
      have htag : (Markup.Token.start ⟨"div", [("class", "apk")]⟩).Plain := by
        simp [Markup.Token.Plain, Markup.Without]
      exact Markup.plain_element_cons.mpr ⟨htag, hr, ih hrs⟩
  simp [pageOf, pageList, plug, hrows, Markup.Token.Plain, Markup.Without]

theorem plain_armRows : Markup.Plain (pageOf armRows) := by
  apply plain_pageOf
  simp [armRows, Row.children, Theme.rowChildren, Theme.infoTop, Theme.infoBottom, Theme.box,
    Theme.spanOf, Theme.span, Theme.details, Theme.detailChildren, said, plainTheme, armListing,
    armFile, newFile, denseFile, FileKind.asPathSegment, Theme.codeText, Markup.Token.Plain,
    Markup.Without, show Int.repr 46 = "46" by decide, show Int.repr 45 = "45" by decide]

/-- A site that is rate limiting first, and then sends the page of these rows. -/
def armAnswer : Nat → Option Response := busyThen (sent (Markup.write (pageOf armRows)))

/-- A page that is sent as text, by a site that is rate limiting first, gets across. -/
theorem fetchVariants_pageOf {parseSize : String → Option Nat} {package : String} {rs : List Row}
    (hplain : Markup.Plain (pageOf rs)) (hfit : ∀ r ∈ rs, r.Fits parseSize package) :
    fetchVariants (plainWeb parseSize) package none (busyThen (sent (Markup.write (pageOf rs))))
      = .ok (variants ((rs.filterMap Row.listing).map Listing.variant)) := by
  have hparse : (plainWeb parseSize).parseDocument (Markup.write (pageOf rs))
      = downloadPage (plainTheme fileMarks) pageList rs := parseDocument_pageOf hplain
  have hread := variants_downloadPage (plainTheme fileMarks) pageList hfit
  rw [← hparse] at hread
  exact fetchVariants_of_page (decides_busyThen rfl) rfl rfl (text_sent _) hread

/-- The newest build comes first, and the two that nothing tells apart stay as they are. -/
theorem fetchVariants_armRows :
    fetchVariants (plainWeb armSize) "com.example" none armAnswer
      = .ok [newFile, armFile, denseFile] := by
  have hsorted : variants ((armRows.filterMap Row.listing).map Listing.variant)
      = [newFile, armFile, denseFile] := by decide
  rw [← hsorted]
  exact fetchVariants_pageOf plain_armRows armRows_fit

theorem scraped_armWeb : [newFile, armFile, denseFile].Pairwise Variant.Leads ∧
    ∀ v ∈ [newFile, armFile, denseFile], v.Scraped armSize "com.example" :=
  fetchVariants_sound fetchVariants_armRows

theorem downloadPage_armWeb :
    ∃ vs, fetchVariants (plainWeb armSize) "com.example" none armAnswer = .ok vs ∧
      vs.Perm [armFile, newFile, denseFile] ∧ vs.Pairwise Variant.Leads ∧
      ∀ a b, a.Leads b → [a, b].Sublist [armFile, newFile, denseFile] → [a, b].Sublist vs :=
  fetchVariants_downloadPage (plainTheme fileMarks) pageList armRows_fit (decides_busyThen rfl) rfl
    rfl (text_sent _) (parseDocument_pageOf plain_armRows)

/-! ### Codes in links -/

/-- The version code of a build can be read from its stable link. -/
theorem codeInUrl_downloadUrl {package : String} (hpackage : ¬ Text.contains package "versionCode=")
    (kind : FileKind) {x : Int} (hx : Text.isI64 x) :
    codeInUrl (downloadUrl package kind x) = some x := by
  let front := cdn ++ "/b/" ++ kind.asPathSegment
  let pat := "versionCode="
  have hurl : (downloadUrl package kind x).toList =
      (front.toList ++ '/' :: package.toList ++ ['?']) ++ pat.toList ++ x.repr.toList := by
    rw [downloadUrl]
    simp [front, pat, String.toList_append]
  -- a code in front of the query would be in the path, and no part of the path before the package
  -- has one
  have hfirst : ¬ pat.toList <:+: (front.toList ++ '/' :: package.toList ++ ['?'])
      ++ pat.toList.dropLast := by
    rw [List.append_assoc, List.singleton_append]
    intro h
    rcases infix_append_cons (by decide) h with h | h
    · rcases infix_append_cons (by decide) h with h | h
      · have hfront : ∀ kind : FileKind,
            ¬ pat.toList <:+: (cdn ++ "/b/" ++ kind.asPathSegment).toList := by
          intro kind
          cases kind <;> decide
        exact hfront kind h
      · exact hpackage (decide_eq_true h)
    · exact absurd h.length_le (by decide)
  have hdigits : '&' ∉ x.repr.toList := by
    intro h
    exact absurd (Text.isDigit_or_dash_of_mem_repr h) (by decide)
  rw [codeInUrl, Text.splitOnceAt, hurl, Text.splitChars_append (by decide) hfirst, Option.map_some,
    Option.bind_some]
  show (Text.split (String.ofList x.repr.toList) '&').head?.bind _ = _
  rw [Text.split, String.toList_ofList, List.splitOn_eq_singleton hdigits, List.map_singleton,
    String.ofList_toList]
  exact Text.parseI64_repr hx

theorem codeInUrl_vlc :
    codeInUrl (downloadUrl "org.videolan.vlc" .apk 13070105) = some 13070105 :=
  codeInUrl_downloadUrl (by decide) .apk (by decide)

end Client

end Xylitol.Apkpure
