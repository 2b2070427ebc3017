import Xylitol.Apkpure.Parse

/-!
# Pages that list files and releases

The other direction of scraping: a page is laid out from what it is to say. The layout leaves free
what a page may do as it likes, as far as the selectors of the client find nothing in it:

* a theme says what stands between the parts of a row and how a text is written,
* the rows stand in any surroundings.

Reading a page that was laid out gives back what it was laid out from, and nothing else can be read
from any page.
-/

namespace Xylitol.Apkpure.Parse

open Dom

/-! ### Themes -/

/-- What a page does as it likes: what stands in the gaps of a row, and how a text is written. -/
structure Theme (marks : List Compound) where
  gap : ℕ → List Node
  write : String → List Node
  quiet_gap : ∀ i, Quiet marks (gap i)
  quiet_write : ∀ s, Quiet marks (write s)
  trim_write : ∀ s, Text.trim s = s → Text.trim (String.ofList (chars (write s))) = s

namespace Theme

variable {marks : List Compound} (theme : Theme marks)

/-- `<tag class="cls">..</tag>` -/
def box (tag cls : String) (children : List Node) : Node := .element ⟨tag, [("class", cls)]⟩ children

def span (cls s : String) : Node := box "span" cls (theme.write s)

def spanOf (cls : String) (s : Option String) : List Node :=
  match s with
  | some s => [theme.span cls s]
  | none => []

@[simp] theorem pick_gap {s : Selector} (hs : s.target ∈ marks) (around : List Element) (i : ℕ) :
    pick s around (theme.gap i) = [] := pick_of_quiet hs (theme.quiet_gap i)

@[simp] theorem pick_write {s : Selector} (hs : s.target ∈ marks) (around : List Element) (t : String) :
    pick s around (theme.write t) = [] := pick_of_quiet hs (theme.quiet_write t)

@[simp] theorem pick_spanOf_neg {s : Selector} (hs : s.target ∈ marks) {cls : String}
    (hc : s.target.describes ⟨"span", [("class", cls)]⟩ = false) (around : List Element)
    (t : Option String) : pick s around (theme.spanOf cls t) = [] := by
  cases t with
  | none => rw [spanOf, pick_nil]
  | some t =>
    rw [spanOf, span, box, pick_element_neg _ _ hc, theme.pick_write hs, pick_nil, List.append_nil]

/-- The span a text is written in, if there is one. -/
def written (cls : String) (around : List Element) (t : Option String) : List ElementRef :=
  t.toList.map fun t => ⟨⟨"span", [("class", cls)]⟩, theme.write t, around⟩

@[simp] theorem pick_spanOf_pos {s : Selector} (hs : s.target ∈ marks) {cls : String}
    (hc : s.target.describes ⟨"span", [("class", cls)]⟩ = true) {e : Element}
    (he : surrounds s.around [e] = true) (around : List Element) (t : Option String) :
    pick s (e :: around) (theme.spanOf cls t) = theme.written cls (e :: around) t := by
  cases t with
  | none =>
    rw [spanOf, pick_nil]
    rfl
  | some t =>
    rw [spanOf, span, box, pick_element_pos _ _ hc (surrounds_of_nearest he around),
      theme.pick_write hs, pick_nil]
    rfl

theorem textOf_write {t : String} (ht : Text.trim t = t) (e : Element) (around : List Element) :
    textOf ⟨e, theme.write t, around⟩ = t := theme.trim_write t ht

/-- The text that is read where one is or is not written. -/
theorem firstText_of_select {el : ElementRef} {s : Selector} {cls : String} {around : List Element}
    {t : Option String} (ht : ∀ x ∈ t, Text.trim x = x)
    (hs : el.select s = theme.written cls around t) : firstText el s = t := by
  rw [firstText, hs]
  cases t with
  | none => rfl
  | some t => exact congrArg some (theme.textOf_write (ht t rfl) _ around)

end Theme

/-! ### The rows of a download page -/

/-- What the selectors of the download page look for. -/
def fileMarks : List Compound :=
  [apk.target, name.target, code.target, tag.target, time.target, size.target, sdk.target,
    btn.target, detailRow.target, label.target, value.target]

/-- A file, and what a page leaves open about it: the text its size is read from, its link, whether
the version code is shown, and what else the dialog says. -/
structure Listing where
  variant : Variant
  sizeText : Option String
  href : String
  codeShown : Bool
  others : List (String × String)
  deriving DecidableEq, Repr

/-- The listing describes its file. -/
structure Listing.Fits (parseSize : String → Option Nat) (package : String) (l : Listing) :
    Prop where
  scraped : l.variant.Scraped parseSize package
  sizeText : ∀ t ∈ l.sizeText, Text.trim t = t
  size : l.sizeText.bind parseSize = l.variant.size
  href : absolute l.href = l.variant.downloadUrl
  code : l.codeShown = true ∨ codeInUrl l.href = some l.variant.versionCode
  others : ∀ o ∈ l.others, Text.trim o.1 = o.1 ∧ Text.trim o.2 = o.2 ∧
    ∀ d : Details, d.say (Text.toAsciiLowercase o.1) o.2 = d

/-- What the dialog says about a file. -/
def said (v : Variant) : List (String × String) :=
  v.arch.toList.map ("Architecture", ·) ++ v.dpi.toList.map ("Screen DPI", ·)
    ++ v.sha1.toList.map ("File SHA1", ·) ++ v.signature.toList.map ("Signature", ·)
    ++ v.uploader.toList.map ("Uploaded by", ·)

namespace Theme

variable (theme : Theme fileMarks)

def codeText (v : Variant) : String := "(" ++ toString v.versionCode ++ ")"

def infoTop (l : Listing) : Node :=
  box "div" "info-top" (theme.gap 0 ++ theme.spanOf "name" (some l.variant.versionName)
    ++ theme.gap 1 ++ theme.spanOf "code" (if l.codeShown then some (codeText l.variant) else none)
    ++ theme.gap 2
    ++ [.element ⟨"span", [("class", "tag"), ("data-tag", l.variant.kind.asPathSegment)]⟩
      (theme.gap 3)] ++ theme.gap 4)

def infoBottom (l : Listing) : Node :=
  box "div" "info-bottom" (theme.gap 5 ++ theme.spanOf "time" l.variant.published ++ theme.gap 6
    ++ theme.spanOf "size" l.sizeText ++ theme.gap 7 ++ theme.spanOf "sdk" l.variant.minAndroid
    ++ theme.gap 8)

def detailChildren (r : String × String) : List Node :=
  theme.gap 9 ++ theme.spanOf "label" (some r.1) ++ theme.gap 10 ++ theme.spanOf "value" (some r.2)
    ++ theme.gap 11

def details : List (String × String) → List Node
  | [] => theme.gap 12
  | r :: rs => theme.gap 13 ++ .element ⟨"p", []⟩ (theme.detailChildren r) :: details rs

def rowChildren (l : Listing) : List Node :=
  theme.gap 14
    ++ [box "div" "info" (theme.gap 15 ++ [theme.infoTop l] ++ theme.gap 16 ++ [theme.infoBottom l]
      ++ theme.gap 17)]
    ++ theme.gap 18
    ++ [.element ⟨"a", [("class", "download-btn"), ("href", l.href)]⟩ (theme.gap 19)]
    ++ theme.gap 20
    ++ [box "div" "variants-desc-dialog" (theme.gap 21
      ++ [box "div" "content" (theme.details (l.others ++ said l.variant))] ++ theme.gap 22)]
    ++ theme.gap 23

/-- A row, where it stands. -/
def row (l : Listing) (around : List Element) : ElementRef :=
  ⟨⟨"div", [("class", "apk")]⟩, theme.rowChildren l, around⟩

/-- A selector that describes nothing in a row of the dialog. -/
@[simp] theorem pick_details_neg {s : Selector} (hs : s.target ∈ fileMarks)
    (hp : s.target.describes ⟨"p", []⟩ = false)
    (hlabel : s.target.describes ⟨"span", [("class", "label")]⟩ = false)
    (hvalue : s.target.describes ⟨"span", [("class", "value")]⟩ = false)
    (around : List Element) (rs : List (String × String)) :
    pick s around (theme.details rs) = [] := by
  induction rs with
  | nil => exact theme.pick_gap hs around 12
  | cons r rs ih => simp [details, detailChildren, pick_element_neg, *]

section Row

variable {l : Listing} (around : List Element)

theorem select_btn : (theme.row l around).select btn =
    [⟨⟨"a", [("class", "download-btn"), ("href", l.href)]⟩, theme.gap 19,
      ⟨"div", [("class", "apk")]⟩ :: around⟩] := by
  simp (disch := decide) [ElementRef.select, row, rowChildren, infoTop, infoBottom, box]

theorem select_tag : (theme.row l around).select tag =
    [⟨⟨"span", [("class", "tag"), ("data-tag", l.variant.kind.asPathSegment)]⟩, theme.gap 3,
      [⟨"div", [("class", "info-top")]⟩, ⟨"div", [("class", "info")]⟩, ⟨"div", [("class", "apk")]⟩]
        ++ around⟩] := by
  simp (disch := decide) [ElementRef.select, row, rowChildren, infoTop, infoBottom, box]

theorem firstText_name (h : Text.trim l.variant.versionName = l.variant.versionName) :
    firstText (theme.row l around) name = some l.variant.versionName := by
  apply theme.firstText_of_select (forall_mem_some h)
  simp (disch := decide) [ElementRef.select, row, rowChildren, infoTop, infoBottom, box]
  rfl

theorem firstText_time (h : ∀ t ∈ l.variant.published, Text.trim t = t) :
    firstText (theme.row l around) time = l.variant.published := by
  apply theme.firstText_of_select h
  simp (disch := decide) [ElementRef.select, row, rowChildren, infoTop, infoBottom, box]
  rfl

theorem firstText_size (h : ∀ t ∈ l.sizeText, Text.trim t = t) :
    firstText (theme.row l around) size = l.sizeText := by
  apply theme.firstText_of_select h
  simp (disch := decide) [ElementRef.select, row, rowChildren, infoTop, infoBottom, box]
  rfl

theorem firstText_sdk (h : ∀ t ∈ l.variant.minAndroid, Text.trim t = t) :
    firstText (theme.row l around) sdk = l.variant.minAndroid := by
  apply theme.firstText_of_select h
  simp (disch := decide) [ElementRef.select, row, rowChildren, infoTop, infoBottom, box]
  rfl

theorem trim_codeText (v : Variant) : Text.trim (codeText v) = codeText v := by
  have hcs : (codeText v).toList = '(' :: ((toString v.versionCode).toList ++ [')']) := by
    rw [codeText, String.toList_append, String.toList_append]
    rfl
  rw [Text.trim_eq, hcs, strip_eq_self, ← hcs, String.ofList_toList]
  · rintro x ⟨⟩
    decide
  · intro x hx
    rw [← List.cons_append, List.getLast?_concat] at hx
    cases hx
    decide

theorem trimMatches_codeText (v : Variant) :
    Text.trimMatches (fun c => c = '(' ∨ c = ')') (codeText v) = v.versionCode.repr := by
  have hcs : (codeText v).toList = '(' :: (v.versionCode.repr.toList ++ [')']) := by
    rw [codeText, String.toList_append, String.toList_append]
    rfl
  have hdigits : ∀ c ∈ v.versionCode.repr.toList, (c = '(' ∨ c = ')') = False := by
    intro c hc
    have hdigit := Text.isDigit_or_dash_of_mem_repr hc
    rw [eq_iff_iff, iff_false]
    rintro (rfl | rfl) <;> exact absurd hdigit (by decide)
  rw [Text.trimMatches, hcs, strip_cons (by decide), strip_concat (by decide), strip_eq_self,
    String.ofList_toList]
  · intro c hc
    simp [hdigits c (List.mem_of_mem_head? hc)]
  · intro c hc
    simp [hdigits c (List.mem_of_getLast? hc)]

theorem firstText_code : firstText (theme.row l around) code =
    if l.codeShown then some (codeText l.variant) else none := by
  apply theme.firstText_of_select
  · intro x hx
    split at hx
    · cases hx
      exact trim_codeText l.variant
    · cases hx
  · simp (disch := decide) [ElementRef.select, row, rowChildren, infoTop, infoBottom, box]
    rfl

theorem kindOf_row : kindOf (theme.row l around) = l.variant.kind := by
  rw [kindOf, theme.select_tag, List.head?_cons, Option.bind_some]
  have hattr : ∀ ns around, ElementRef.attr ⟨⟨"span",
      [("class", "tag"), ("data-tag", l.variant.kind.asPathSegment)]⟩, ns, around⟩ "data-tag"
        = some l.variant.kind.asPathSegment := fun _ _ => rfl
  rw [hattr, Option.getD_some, FileKind.parse_asPathSegment, Option.getD_some]

theorem codeOf_row (hcode : Text.isI64 l.variant.versionCode)
    (h : l.codeShown = true ∨ codeInUrl l.href = some l.variant.versionCode) :
    codeOf (theme.row l around) l.href = some l.variant.versionCode := by
  rw [codeOf, theme.firstText_code]
  cases hshown : l.codeShown with
  | false => simpa [hshown] using h
  | true =>
    rw [if_pos rfl, Option.bind_some, trimMatches_codeText, Text.parseI64_repr hcode,
      Option.some_or]

end Row

/-! The dialog -/

section Dialog

/-- A row of the dialog, where it stands. -/
def detailRow (around : List Element) (r : String × String) : ElementRef :=
  ⟨⟨"p", []⟩, theme.detailChildren r, around⟩

theorem pick_details {e₁ e₂ : Element} (h : surrounds Parse.detailRow.around [e₁, e₂] = true)
    (around : List Element) (rs : List (String × String)) :
    pick Parse.detailRow (e₁ :: e₂ :: around) (theme.details rs) =
      rs.map (theme.detailRow (e₁ :: e₂ :: around)) := by
  have haround : surrounds Parse.detailRow.around (e₁ :: e₂ :: around) = true :=
    surrounds_mono (((List.nil_sublist around).cons_cons e₂).cons_cons e₁) h
  induction rs with
  | nil => exact theme.pick_gap (by decide) _ 12
  | cons r rs ih =>
    have hinner : pick Parse.detailRow (⟨"p", []⟩ :: e₁ :: e₂ :: around) (theme.detailChildren r)
        = [] := by
      simp (disch := decide) [detailChildren]
    rw [details, pick_append, theme.pick_gap (by decide), List.nil_append,
      pick_element_pos _ _ (by decide) haround, hinner, ih]
    rfl

theorem select_detailRow (l : Listing) (around : List Element) :
    (theme.row l around).select Parse.detailRow = (l.others ++ said l.variant).map
      (theme.detailRow ([⟨"div", [("class", "content")]⟩,
        ⟨"div", [("class", "variants-desc-dialog")]⟩, ⟨"div", [("class", "apk")]⟩] ++ around)) := by
  simp (disch := decide) [ElementRef.select, row, rowChildren, infoTop, infoBottom, box,
    theme.pick_details]

theorem read_detailRow {r : String × String} (h₁ : Text.trim r.1 = r.1) (h₂ : Text.trim r.2 = r.2)
    (around : List Element) (d : Details) :
    d.read (theme.detailRow around r) = d.say (Text.toAsciiLowercase r.1) r.2 := by
  have hlabel : firstText (theme.detailRow around r) label = some r.1 := by
    apply theme.firstText_of_select (forall_mem_some h₁)
    simp (disch := decide) [ElementRef.select, detailRow, detailChildren]
    rfl
  have hvalue : firstText (theme.detailRow around r) value = some r.2 := by
    apply theme.firstText_of_select (forall_mem_some h₂)
    simp (disch := decide) [ElementRef.select, detailRow, detailChildren]
    rfl
  rw [Details.read, hlabel, hvalue]

/-- The details after the rows of a dialog. -/
def heard (d : Details) (rs : List (String × String)) : Details :=
  rs.foldl (fun d r => d.say (Text.toAsciiLowercase r.1) r.2) d

theorem foldl_read {rs : List (String × String)}
    (h : ∀ r ∈ rs, Text.trim r.1 = r.1 ∧ Text.trim r.2 = r.2) (around : List Element)
    (d : Details) : (rs.map (theme.detailRow around)).foldl Details.read d = heard d rs := by
  rw [List.foldl_map]
  apply List.foldl_ext
  intro d r hr
  exact theme.read_detailRow (h r hr).1 (h r hr).2 around d

theorem heard_others {rs : List (String × String)}
    (h : ∀ r ∈ rs, ∀ d : Details, d.say (Text.toAsciiLowercase r.1) r.2 = d) (d : Details) :
    heard d rs = d := by
  induction rs with
  | nil => rfl
  | cons r rs ih =>
    rw [heard, List.foldl_cons, h r List.mem_cons_self d]
    exact ih fun r' hr' => h r' (List.mem_cons_of_mem r hr')

/-- A row that sets a field sets it to what it says, if it is there. -/
theorem heard_field {p : String → Prop} {k : String} (set : Details → Option String → Details)
    (hset : ∀ d s, p s → d.say (Text.toAsciiLowercase k) s = set d (some s)) {x : Option String}
    (hx : ∀ s ∈ x, p s) {d : Details} (hd : set d none = d) :
    heard d (x.toList.map (k, ·)) = set d x := by
  cases x with
  | none => exact hd.symm
  | some s => exact hset d s (hx s rfl)

theorem heard_said {parseSize : String → Option Nat} {package : String} {v : Variant}
    (h : v.Scraped parseSize package) : heard ⟨none, none, none, none, none⟩ (said v) =
      ⟨v.arch, v.dpi, v.sha1, v.signature, v.uploader⟩ := by
  have happend : ∀ d xs ys, heard d (xs ++ ys) = heard (heard d xs) ys :=
    fun d xs ys => List.foldl_append
  rw [said, happend, happend, happend, happend,
    heard_field (fun d x => { d with arch := x }) _ h.arch rfl,
    heard_field (fun d x => { d with dpi := x }) _ h.dpi rfl,
    heard_field (fun d x => { d with sha1 := x }) _ h.sha1 rfl,
    heard_field (fun d x => { d with signature := x }) _ h.signature rfl,
    heard_field (fun d x => { d with uploader := x }) _ h.uploader rfl]
  · intro d s hs
    rw [Details.say, if_neg hs.1]
    rfl
  · intro d s hs
    rw [Details.say, if_neg hs.1.1, hs.2]
    rfl
  · intro d s hs
    rw [Details.say, if_neg hs.1.1, hs.2]
    rfl
  · intro d s hs
    rw [Details.say, if_neg hs.1]
    rfl
  · intro d s hs
    rw [Details.say, if_neg hs.1]
    rfl

theorem trim_said {parseSize : String → Option Nat} {package : String} {v : Variant}
    (h : v.Scraped parseSize package) :
    ∀ r ∈ said v, Text.trim r.1 = r.1 ∧ Text.trim r.2 = r.2 := by
  have hfield : ∀ {k : String} {x : Option String}, Text.trim k = k → (∀ s ∈ x, Text.trim s = s) →
      ∀ r ∈ x.toList.map (k, ·), Text.trim r.1 = r.1 ∧ Text.trim r.2 = r.2 := by
    intro k x hk hx r hr
    obtain ⟨s, hs, rfl⟩ := List.mem_map.mp hr
    exact ⟨hk, hx s (Option.mem_toList.mp hs)⟩
  simp only [said, List.forall_mem_append]
  exact ⟨⟨⟨⟨hfield (by decide) fun s hs => (h.arch s hs).2,
    hfield (by decide) fun s hs => (h.dpi s hs).2⟩,
    hfield (by decide) fun s hs => (h.sha1 s hs).1.2⟩,
    hfield (by decide) fun s hs => (h.signature s hs).1.2⟩,
    hfield (by decide) fun s hs => (h.uploader s hs).2⟩

/-- What the dialog of a listing says is what there is to say about its file. -/
theorem details_row {parseSize : String → Option Nat} {package : String} {l : Listing}
    (h : l.Fits parseSize package) (around : List Element) : Parse.details (theme.row l around) =
      ⟨l.variant.arch, l.variant.dpi, l.variant.sha1, l.variant.signature, l.variant.uploader⟩ := by
  have htrim : ∀ r ∈ l.others ++ said l.variant, Text.trim r.1 = r.1 ∧ Text.trim r.2 = r.2 := by
    intro r hr
    rcases List.mem_append.mp hr with hr | hr
    · exact ⟨(h.others r hr).1, (h.others r hr).2.1⟩
    · exact trim_said h.scraped r hr
  rw [Parse.details, theme.select_detailRow, theme.foldl_read htrim, heard, List.foldl_append]
  show heard (heard _ _) _ = _
  rw [heard_others fun r hr => (h.others r hr).2.2, heard_said h.scraped]

end Dialog

/-- A row is read as the file it was laid out from, whatever is around it. -/
theorem variant_row {parseSize : String → Option Nat} {package : String} {l : Listing}
    (h : l.Fits parseSize package) (around : List Element) :
    variant parseSize package (theme.row l around) = some l.variant := by
  have hs := h.scraped
  have hhref : ((theme.row l around).select btn).head?.bind (·.attr "href") = some l.href := by
    rw [theme.select_btn]
    rfl
  rw [variant, hhref]
  show (codeOf (theme.row l around) l.href >>= _) = _
  rw [theme.codeOf_row around hs.versionCode h.code]
  show some _ = some _
  rw [theme.firstText_name around hs.versionName, theme.kindOf_row,
    theme.firstText_size around h.sizeText, h.size,
    theme.firstText_time around fun t ht => (hs.published t ht).2, nonempty_eq_self hs.published,
    theme.firstText_sdk around fun t ht => (hs.minAndroid t ht).2, nonempty_eq_self hs.minAndroid,
    theme.details_row h, h.href, ← hs.package]
  rfl

end Theme

/-! ### The download page -/

/-- Where the rows stand: in the list of versions, and not in a row. -/
structure Surroundings (list mark : Compound) where
  frames : List Frame
  inList : ∃ f ∈ frames, list.describes f.element = true
  quiet : ∀ f ∈ frames, f.Quiet [mark]

/-- A row of the list: one that offers a file, or one without a download button. -/
inductive Row where
  | offer (l : Listing)
  | unavailable (children : List Node)

def Row.listing : Row → Option Listing
  | .offer l => some l
  | .unavailable _ => none

/-- What is offered is a file of the app, and what is not offered has no button and no further
row. -/
def Row.Fits (parseSize : String → Option Nat) (package : String) : Row → Prop
  | .offer l => l.Fits parseSize package
  | .unavailable children => Quiet [apk.target, btn.target] children

variable (theme : Theme fileMarks) (place : Surroundings versionList apk.target)

def Row.children : Row → List Node
  | .offer l => theme.rowChildren l
  | .unavailable children => children

def rows : List Row → List Node
  | [] => theme.gap 24
  | r :: rs =>
    theme.gap 25 ++ .element ⟨"div", [("class", "apk")]⟩ (r.children theme) :: rows rs

/-- A download page. -/
def downloadPage (rs : List Row) : Html := Html.ofTree (plug place.frames (rows theme rs))

theorem pick_apk_children {parseSize : String → Option Nat} {package : String} {r : Row}
    (hr : r.Fits parseSize package) (around : List Element) :
    pick apk around (r.children theme) = [] := by
  cases r with
  | unavailable children => exact pick_of_quiet List.mem_cons_self hr
  | offer l =>
    simp (disch := decide) [Row.children, Theme.rowChildren, Theme.infoTop, Theme.infoBottom,
      Theme.box]

theorem select_apk {parseSize : String → Option Nat} {package : String} {rs : List Row}
    (h : ∀ r ∈ rs, r.Fits parseSize package) : (downloadPage theme place rs).select apk =
      rs.map fun r => ⟨⟨"div", [("class", "apk")]⟩, r.children theme, chain place.frames []⟩ := by
  have hplug : (downloadPage theme place rs).select apk
      = pick apk (chain place.frames []) (rows theme rs) :=
    pick_plug List.mem_cons_self place.quiet (rows theme rs) []
  have hlist : surrounds [versionList] (chain place.frames []) = true := by
    obtain ⟨f, hf, hdescribes⟩ := place.inList
    apply surrounds_singleton _ hdescribes
    rw [chain, List.append_nil, List.mem_reverse]
    exact List.mem_map_of_mem hf
  rw [hplug]
  clear hplug
  induction rs with
  | nil => exact theme.pick_gap (by decide) _ 24
  | cons r rs ih =>
    obtain ⟨hr, hrs⟩ := List.forall_mem_cons.mp h
    rw [rows, pick_append, theme.pick_gap (by decide), List.nil_append,
      pick_element_pos _ _ (by decide) hlist, pick_apk_children theme hr, ih hrs]
    rfl

/-- The list is found in a page that has it. -/
theorem isSome_select_frame {list mark : Compound} (place : Surroundings list mark)
    (ns : List Node) : ((Html.ofTree (plug place.frames ns)).select ⟨list, []⟩).head?.isSome := by
  obtain ⟨f, hf, hdescribes⟩ := place.inList
  obtain ⟨el, hel, hf⟩ := exists_mem_elements_plug hf ns []
  rw [List.isSome_head?]
  apply List.ne_nil_of_mem
  refine List.mem_filter.mpr ⟨hel, ?_⟩
  rw [Selector.describes, hf, hdescribes, Bool.true_and, surrounds_nil]

/-- A page with a list of versions is that of an app. -/
theorem looksLikeAppPage_downloadPage (rs : List Row) :
    looksLikeAppPage (downloadPage theme place rs) = true := by
  have hsome := isSome_select_frame place (rows theme rs)
  rw [looksLikeAppPage, downloadPage, hsome, Bool.or_true]

theorem variant_children {parseSize : String → Option Nat} {package : String} {r : Row}
    (hr : r.Fits parseSize package) (around : List Element) :
    variant parseSize package ⟨⟨"div", [("class", "apk")]⟩, r.children theme, around⟩ =
      r.listing.map Listing.variant := by
  cases r with
  | offer l => exact theme.variant_row hr around
  | unavailable children =>
    have hbtn : ElementRef.select ⟨⟨"div", [("class", "apk")]⟩, children, around⟩ btn = [] :=
      pick_of_quiet (List.mem_cons_of_mem _ List.mem_cons_self) hr
    rw [variant, Row.children, hbtn]
    rfl

/-- A download page is read as the files it offers, in their order, whatever its theme and wherever
it has its list. -/
theorem variants_downloadPage {parseSize : String → Option Nat} {package : String}
    {rs : List Row} (h : ∀ r ∈ rs, r.Fits parseSize package) :
    variants parseSize (downloadPage theme place rs) package =
      .ok ((rs.filterMap Row.listing).map Listing.variant) := by
  rw [variants, listed_eq_ok]
  refine ⟨?_, fun _ => looksLikeAppPage_downloadPage theme place rs⟩
  rw [select_apk theme place h, List.filterMap_map, List.map_filterMap]
  apply List.filterMap_congr
  intro r hr
  exact variant_children theme (h r hr) _

/-- Nothing in the gaps, and every text as it is. -/
def plainTheme (marks : List Compound) : Theme marks where
  gap _ := []
  write s := [.text s]
  quiet_gap _ := by rw [Quiet]; trivial
  quiet_write s := by simp [Quiet, Node.Quiet]
  trim_write s h := by simpa [chars, Node.chars] using h

/-- Nothing around the list of versions. -/
def plainList : Surroundings versionList apk.target where
  frames := [⟨⟨"div", [("id", "version-list")]⟩, [], []⟩]
  inList := ⟨_, List.mem_cons_self, by decide⟩
  quiet f hf := by
    rw [List.mem_singleton.mp hf, Frame.Quiet]
    simp +decide [Quiet]

/-- Every file as a download page may describe it is described by some listing. -/
theorem exists_fits {parseSize : String → Option Nat} {package : String} {v : Variant}
    (h : v.Scraped parseSize package) :
    ∃ l : Listing, l.variant = v ∧ l.Fits parseSize package := by
  obtain ⟨t, ht, hsize⟩ : ∃ t : Option String,
      (∀ x ∈ t, Text.trim x = x) ∧ t.bind parseSize = v.size := by
    cases hv : v.size with
    | none => exact ⟨none, nofun, rfl⟩
    | some n =>
      obtain ⟨t, ht, hn⟩ := h.size n hv
      exact ⟨some t, forall_mem_some ht, hn⟩
  exact ⟨⟨v, t, v.downloadUrl, true, []⟩, rfl, h, ht, hsize, absolute_of_not_slash h.downloadUrl,
    Or.inl rfl, nofun⟩

/-- The file of the client's own test page. -/
def armFile : Variant where
  package := "com.example"
  versionName := "1.2.3"
  versionCode := 45
  kind := .xapk
  size := some 47081062
  published := some "Jul 1, 2026"
  arch := some "arm64-v8a"
  dpi := some "nodpi"
  minAndroid := some "Android 4.2+"
  sha1 := some "abcdef"
  signature := none
  uploader := none
  downloadUrl := "https://d.apkpure.com/b/XAPK/com.example?versionCode=45"

/-- Its version code is in the link only, and the dialog says more than the client reads. -/
def armListing : Listing :=
  ⟨armFile, some "44.9 MB", armFile.downloadUrl, false, [("Requires", "OpenGL ES 3.0")]⟩

def armSize (t : String) : Option Nat := if t = "44.9 MB" then some 47081062 else none

theorem armListing_fits : armListing.Fits armSize "com.example" where
  scraped := by
    refine ⟨rfl, by decide, by decide, ?_, ?_, ?_, ?_, ?_, ?_, nofun, nofun, by decide⟩
    · exact forall_mem_some ⟨"44.9 MB", by decide, by decide⟩
    all_goals exact forall_mem_some (by decide)
  sizeText := forall_mem_some (by decide)
  size := by decide
  href := by decide
  code := Or.inr (by decide)
  others := by
    intro o ho
    rw [List.mem_singleton.mp ho]
    exact ⟨by decide, by decide, fun d => rfl⟩

example :
    variants armSize (downloadPage (plainTheme fileMarks) plainList
      [.unavailable [.text "soon"], .offer armListing]) "com.example" = .ok [armFile] :=
  variants_downloadPage (plainTheme fileMarks) plainList
    (List.forall_mem_cons.mpr ⟨by rw [Row.Fits, Quiet, Node.Quiet, Quiet]; exact ⟨trivial, trivial⟩,
      List.forall_mem_cons.mpr ⟨armListing_fits, List.forall_mem_nil _⟩⟩)

theorem exists_rows {parseSize : String → Option Nat} {package : String} {vs : List Variant}
    (h : ∀ v ∈ vs, v.Scraped parseSize package) :
    ∃ rs : List Row, (rs.filterMap Row.listing).map Listing.variant = vs ∧
      ∀ r ∈ rs, r.Fits parseSize package := by
  induction vs with
  | nil => exact ⟨[], rfl, List.forall_mem_nil _⟩
  | cons v vs ih =>
    obtain ⟨l, hl, hfits⟩ := exists_fits (h v List.mem_cons_self)
    obtain ⟨rs, hrs, hall⟩ := ih fun w hw => h w (List.mem_cons_of_mem _ hw)
    refine ⟨.offer l :: rs, ?_, List.forall_mem_cons.mpr ⟨hfits, hall⟩⟩
    show l.variant :: (rs.filterMap Row.listing).map Listing.variant = _
    rw [hl, hrs]

end Xylitol.Apkpure.Parse
