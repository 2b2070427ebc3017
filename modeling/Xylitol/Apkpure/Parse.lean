import Xylitol.Apkpure.Ranking
import Xylitol.Dom

/-!
# Scraping the two pages of the site

The site has no public API for version history, so the files and the releases of an app are read
from the markup of its pages. The HTML parser gives the elements of a page; which of them are rows,
and what a row says, is decided here. Reading the size of a file from a text such as `44.9 MB` is a
parameter: it goes through a floating-point number.
-/

namespace Xylitol.Apkpure

open Dom

def FileKind.parse (s : String) : Option FileKind :=
  let s := Text.toAsciiUppercase (Text.trim s)
  if s = "APK" then some .apk
  else if s = "XAPK" ∨ s = "APKS" then some .xapk
  else none

theorem FileKind.parse_asPathSegment (kind : FileKind) :
    FileKind.parse kind.asPathSegment = some kind := by
  cases kind <;> decide

/-- One published release, as listed on the app's versions page. -/
structure Release where
  package : String
  versionName : String
  versionCode : Option Int
  kinds : List FileKind
  size : Option Nat
  published : Option String
  hasVariants : Bool
  deriving DecidableEq, Repr

namespace Parse

/-- `Error::NotFound`, the one error of the two readers. -/
structure NotFound where
  package : String
  deriving DecidableEq, Repr

def textOf (el : ElementRef) : String := Text.trim el.text

/-- `select(sel).next().map(text_of)`. -/
def firstText (el : ElementRef) (s : Selector) : Option String := (el.select s).head?.map textOf

/-- `.filter(|s| !s.is_empty())`. -/
def nonempty (s : Option String) : Option String := s.filter (· ≠ "")

/-! ### Selectors -/

/-- A tag with a class. -/
def marked (tag cls : String) : Compound := ⟨tag, none, some cls⟩

/-- `div.ver_download_link` -/
def item : Selector := ⟨marked "div" "ver_download_link", []⟩

/-- `span.apk-type-tag` -/
def typeTag : Selector := ⟨marked "span" "apk-type-tag", []⟩

/-- `span.update-on` -/
def updateOn : Selector := ⟨marked "span" "update-on", []⟩

/-- `div#version-list` -/
def versionList : Compound := ⟨"div", some "version-list", none⟩

/-- `div#version-list div.apk` -/
def apk : Selector := ⟨marked "div" "apk", [versionList]⟩

/-- `div.info-top span.<cls>` -/
def top (cls : String) : Selector := ⟨marked "span" cls, [marked "div" "info-top"]⟩

/-- `div.info-bottom span.<cls>` -/
def bottom (cls : String) : Selector := ⟨marked "span" cls, [marked "div" "info-bottom"]⟩

def name : Selector := top "name"

def code : Selector := top "code"

def tag : Selector := top "tag"

def time : Selector := bottom "time"

def size : Selector := bottom "size"

def sdk : Selector := bottom "sdk"

/-- `a.download-btn` -/
def btn : Selector := ⟨marked "a" "download-btn", []⟩

/-- `div.variants-desc-dialog div.content p` -/
def detailRow : Selector :=
  ⟨⟨"p", none, none⟩, [marked "div" "content", marked "div" "variants-desc-dialog"]⟩

/-- `span.label` -/
def label : Selector := ⟨marked "span" "label", []⟩

/-- `span.value` -/
def value : Selector := ⟨marked "span" "value", []⟩

/-! ### What the two pages share -/

/-- The site serves a soft-404 app page rather than an HTTP error for unknown packages, so
distinguish "no versions listed" from "no such app". -/
def looksLikeAppPage (doc : Html) : Bool :=
  ((doc.select ⟨⟨"body", none, none⟩, []⟩).head?.bind (·.attr "data-pkg")).isSome
    || (doc.select ⟨marked "div" "ver-wrap", []⟩).head?.isSome
    || (doc.select ⟨versionList, []⟩).head?.isSome

/-- The rows read from a page, unless there are none and the page is not that of an app. -/
def listed {α : Type} (doc : Html) (package : String) (rows : List α) : Except NotFound (List α) :=
  if rows.isEmpty && !looksLikeAppPage doc then .error ⟨package⟩ else .ok rows

def absolute (href : String) : String :=
  if Text.startsWith href "//" then "https:" ++ href
  else if Text.startsWith href "/" then "https://apkpure.com" ++ href
  else href

/-! ### The versions page -/

/-- `kinds.push(kind)`, unless it is there. -/
def pushKind (kinds : List FileKind) (kind : FileKind) : List FileKind :=
  if kinds.contains kind then kinds else kinds ++ [kind]

/-- Every kind a tag names, or the kind in the path of the apkid when there are no tags. -/
def kindsOf (el : ElementRef) : List FileKind :=
  let kinds := (((el.select typeTag).filterMap (·.attr "data-tag")).filterMap
    FileKind.parse).foldl pushKind []
  if kinds.isEmpty then
    [(((el.attr "data-dt-apkid").bind fun id => (Text.split id '/')[1]?).bind
      FileKind.parse).getD .apk]
  else kinds

def release (package : String) (el : ElementRef) : Release where
  package := package
  versionName := (nonempty ((el.attr "data-dt-version").map Text.trim)).getD "unknown"
  versionCode := (el.attr "data-dt-versioncode").bind Text.parseI64
  kinds := kindsOf el
  size := (el.attr "data-dt-filesize").bind Text.parseU64
  published := nonempty (firstText el updateOn)
  hasVariants := el.attr "data-dt-variant" == some "true"
    || ((el.attr "data-dt-apklist").map fun l => l.toList.contains ',').getD false

/-- Parse `https://apkpure.com/<slug>/<package>/versions`. -/
def releases (doc : Html) (package : String) : Except NotFound (List Release) :=
  listed doc package ((doc.select item).map (release package))

/-! ### The download page -/

/-- The version code in the query of a download URL. -/
def codeInUrl (href : String) : Option Int :=
  (Text.splitOnceAt href "versionCode=").bind fun (_, v) =>
    (Text.split v '&').head?.bind Text.parseI64

/-- What the per-variant dialog says. -/
structure Details where
  arch : Option String
  dpi : Option String
  sha1 : Option String
  signature : Option String
  uploader : Option String
  deriving DecidableEq, Repr

/-- What a row of the dialog says is taken over what the rows before it said. -/
def Details.say (d : Details) (k v : String) : Details :=
  if v = "" then d
  else if k = "architecture" then { d with arch := some v }
  else if k = "screen dpi" then { d with dpi := some v }
  else if k = "file sha1" then { d with sha1 := some (Text.toAsciiLowercase v) }
  else if k = "signature" then { d with signature := some (Text.toAsciiLowercase v) }
  else if k = "uploaded by" then { d with uploader := some v }
  else d

def Details.read (d : Details) (p : ElementRef) : Details :=
  match firstText p label, firstText p value with
  | some k, some v => d.say (Text.toAsciiLowercase k) v
  | _, _ => d

def details (el : ElementRef) : Details :=
  (el.select detailRow).foldl Details.read ⟨none, none, none, none, none⟩

/-- The kind in the `data-tag` of the tag, or else in its text. -/
def kindOf (el : ElementRef) : FileKind :=
  ((el.select tag).head?.bind fun t =>
    FileKind.parse ((t.attr "data-tag").getD (textOf t))).getD .apk

def codeOf (el : ElementRef) (href : String) : Option Int :=
  ((firstText el code).bind fun t =>
    Text.parseI64 (Text.trimMatches (fun c => c = '(' ∨ c = ')') t)).or (codeInUrl href)

/-- What one row offers, when it has a download button and a version code. -/
def variant (parseSize : String → Option Nat) (package : String) (el : ElementRef) :
    Option Variant := do
  let href ← (el.select btn).head?.bind (·.attr "href")
  let versionCode ← codeOf el href
  let d := details el
  return {
    package := package
    versionName := (firstText el name).getD ""
    versionCode := versionCode
    kind := kindOf el
    size := (firstText el size).bind parseSize
    published := nonempty (firstText el time)
    arch := d.arch
    dpi := d.dpi
    minAndroid := nonempty (firstText el sdk)
    sha1 := d.sha1
    signature := d.signature
    uploader := d.uploader
    downloadUrl := absolute href }

/-- Parse the "All Variants of the App" block on a download page. -/
def variants (parseSize : String → Option Nat) (doc : Html) (package : String) :
    Except NotFound (List Variant) :=
  listed doc package ((doc.select apk).filterMap (variant parseSize package))

/-! ### What a page can say -/

/-- Text that a page shows: there is some, and no white space around it. -/
def Shown (s : String) : Prop := s ≠ "" ∧ Text.trim s = s

instance : DecidablePred Shown := fun _ => inferInstanceAs (Decidable (_ ∧ _))

/-- A digest as the client keeps it. -/
def ShownDigest (s : String) : Prop := Shown s ∧ Text.toAsciiLowercase s = s

instance : DecidablePred ShownDigest := fun _ => inferInstanceAs (Decidable (_ ∧ _))

theorem forall_mem_some {α : Type} {p : α → Prop} {a : α} (h : p a) : ∀ b ∈ some a, p b :=
  fun _ hb => Option.some.inj hb ▸ h

theorem trim_textOf (el : ElementRef) : Text.trim (textOf el) = textOf el := Text.trim_trim _

theorem holds_firstText (el : ElementRef) (s : Selector) :
    ∀ t ∈ firstText el s, Text.trim t = t := by
  intro t ht
  obtain ⟨r, -, rfl⟩ := Option.map_eq_some_iff.mp ht
  exact trim_textOf r

theorem holds_nonempty {x : Option String} (hx : ∀ t ∈ x, Text.trim t = t) :
    ∀ t ∈ nonempty x, Shown t := by
  intro t ht
  obtain ⟨hmem, hne⟩ := Option.filter_eq_some_iff.mp ht
  exact ⟨of_decide_eq_true hne, hx t hmem⟩

theorem nonempty_eq_self {x : Option String} (h : ∀ s ∈ x, Shown s) : nonempty x = x := by
  cases x with
  | none => rfl
  | some s => exact Option.filter_some_pos (decide_eq_true (h s rfl).1)

/-- A link is never relative to the page it is on. -/
theorem startsWith_absolute (href : String) : Text.startsWith (absolute href) "/" = false := by
  rw [absolute]
  split
  · rw [Text.startsWith, String.toList_append]
    rfl
  · next h2 =>
      split
      · rw [Text.startsWith, String.toList_append]
        rfl
      · next h1 => exact Bool.eq_false_iff.mpr h1

theorem absolute_of_not_slash {href : String} (h : Text.startsWith href "/" = false) :
    absolute href = href := by
  have h2 : Text.startsWith href "//" = false := by
    rw [Bool.eq_false_iff]
    intro h2
    rw [Bool.eq_false_iff] at h
    apply h
    rw [Text.startsWith, List.isPrefixOf_iff_prefix] at h2 ⊢
    exact List.IsPrefix.trans ⟨['/'], rfl⟩ h2
  rw [absolute, h2, h]
  rfl

/-- What the dialog says is shown, the digests in small letters. -/
structure Details.Clean (d : Details) : Prop where
  arch : ∀ s ∈ d.arch, Shown s
  dpi : ∀ s ∈ d.dpi, Shown s
  sha1 : ∀ s ∈ d.sha1, ShownDigest s
  signature : ∀ s ∈ d.signature, ShownDigest s
  uploader : ∀ s ∈ d.uploader, Shown s

theorem shownDigest_toAsciiLowercase {v : String} (hv : Shown v) :
    ShownDigest (Text.toAsciiLowercase v) := by
  refine ⟨⟨?_, ?_⟩, Text.toAsciiLowercase_idem v⟩
  · intro h
    apply hv.1
    have hlen : (Text.toAsciiLowercase v).toList.length = 0 := by rw [h]; rfl
    rw [Text.toAsciiLowercase, String.toList_ofList, List.length_map, List.length_eq_zero_iff]
      at hlen
    exact String.toList_eq_nil_iff.mp hlen
  · rw [← Text.toAsciiLowercase_trim, hv.2]

theorem Details.Clean.say {d : Details} (hd : d.Clean) (k : String) {v : String}
    (hv : Text.trim v = v) : (d.say k v).Clean := by
  rw [Details.say]
  split
  · exact hd
  · next hne =>
      have hshown : Shown v := ⟨hne, hv⟩
      have hdigest := shownDigest_toAsciiLowercase hshown
      split
      · exact { hd with arch := forall_mem_some hshown }
      · split
        · exact { hd with dpi := forall_mem_some hshown }
        · split
          · exact { hd with sha1 := forall_mem_some hdigest }
          · split
            · exact { hd with signature := forall_mem_some hdigest }
            · split
              · exact { hd with uploader := forall_mem_some hshown }
              · exact hd

theorem Details.Clean.read {d : Details} (hd : d.Clean) (p : ElementRef) : (d.read p).Clean := by
  rw [Details.read]
  split
  · next k v _ hv => exact hd.say _ (holds_firstText p value v hv)
  · exact hd

theorem clean_details (el : ElementRef) : (details el).Clean := by
  have hfold : ∀ (ps : List ElementRef) (d : Details), d.Clean → (ps.foldl Details.read d).Clean := by
    intro ps
    induction ps with
    | nil => exact fun d hd => hd
    | cons p ps ih => exact fun d hd => ih _ (hd.read p)
  exact hfold _ _ ⟨nofun, nofun, nofun, nofun, nofun⟩

end Parse

open Parse in
/-- A file as a download page of `package` describes it. -/
structure Variant.Scraped (parseSize : String → Option Nat) (package : String) (v : Variant) :
    Prop where
  package : v.package = package
  versionName : Text.trim v.versionName = v.versionName
  versionCode : Text.isI64 v.versionCode
  size : ∀ n ∈ v.size, ∃ t, Text.trim t = t ∧ parseSize t = some n
  published : ∀ s ∈ v.published, Shown s
  arch : ∀ s ∈ v.arch, Shown s
  dpi : ∀ s ∈ v.dpi, Shown s
  minAndroid : ∀ s ∈ v.minAndroid, Shown s
  sha1 : ∀ s ∈ v.sha1, ShownDigest s
  signature : ∀ s ∈ v.signature, ShownDigest s
  uploader : ∀ s ∈ v.uploader, Shown s
  downloadUrl : Text.startsWith v.downloadUrl "/" = false

namespace Parse

theorem isI64_codeOf {el : ElementRef} {href : String} {x : Int} (h : codeOf el href = some x) :
    Text.isI64 x := by
  rw [codeOf, Option.or_eq_some_iff] at h
  rcases h with h | ⟨-, h⟩
  · obtain ⟨t, -, ht⟩ := Option.bind_eq_some_iff.mp h
    exact Text.isI64_of_parseI64 ht
  · obtain ⟨p, -, hp⟩ := Option.bind_eq_some_iff.mp h
    obtain ⟨t, -, ht⟩ := Option.bind_eq_some_iff.mp hp
    exact Text.isI64_of_parseI64 ht

/-- What a row offers is clean. -/
theorem scraped_of_variant {parseSize : String → Option Nat} {package : String} {el : ElementRef}
    {v : Variant} (h : variant parseSize package el = some v) : v.Scraped parseSize package := by
  obtain ⟨href, -, h⟩ := Option.bind_eq_some_iff.mp h
  obtain ⟨code, hcode, h⟩ := Option.bind_eq_some_iff.mp h
  cases h
  have hclean := clean_details el
  refine ⟨rfl, ?_, isI64_codeOf hcode, ?_, ?_, hclean.arch, hclean.dpi, ?_, hclean.sha1,
    hclean.signature, hclean.uploader, startsWith_absolute href⟩
  · show Text.trim ((firstText el name).getD "") = (firstText el name).getD ""
    cases hname : firstText el name with
    | none => rfl
    | some t => exact holds_firstText el name t hname
  · intro n hn
    obtain ⟨t, ht, hn⟩ := Option.bind_eq_some_iff.mp hn
    exact ⟨t, holds_firstText el size t ht, hn⟩
  · exact holds_nonempty (holds_firstText el time)
  · exact holds_nonempty (holds_firstText el sdk)

theorem listed_eq_ok {α : Type} {doc : Html} {package : String} {rows xs : List α} :
    listed doc package rows = .ok xs ↔
      rows = xs ∧ (xs = [] → looksLikeAppPage doc = true) := by
  rw [listed]
  split
  · next hcond =>
      rw [Bool.and_eq_true, List.isEmpty_iff, Bool.not_eq_true'] at hcond
      obtain ⟨rfl, hpage⟩ := hcond
      constructor
      · intro h
        cases h
      · rintro ⟨rfl, h⟩
        rw [h rfl] at hpage
        cases hpage
  · next hcond =>
      constructor
      · intro h
        cases h
        refine ⟨rfl, ?_⟩
        rintro rfl
        simpa using hcond
      · intro h
        rw [h.1]

/-- So is every file read from a page. -/
theorem scraped_of_variants {parseSize : String → Option Nat} {doc : Html} {package : String}
    {vs : List Variant} (h : variants parseSize doc package = .ok vs) :
    ∀ v ∈ vs, v.Scraped parseSize package := by
  intro v hv
  obtain ⟨rfl, -⟩ := listed_eq_ok.mp h
  obtain ⟨el, -, hel⟩ := List.mem_filterMap.mp hv
  exact scraped_of_variant hel

end Parse

end Xylitol.Apkpure
