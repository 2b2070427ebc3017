import Xylitol.Apkpure.Parse.Page

/-!
# The versions page

Its rows carry what they say in attributes; only the kinds a release is published in and the date
are in its text. Reading a versions page gives back the releases it was laid out from, and the
releases that can be read from any page are the ones that can be laid out.
-/

namespace Xylitol.Apkpure

/-- A release as a versions page of `package` describes it: in at least one format, none of them
listed twice. -/
structure Release.Scraped (package : String) (r : Release) : Prop where
  package : r.package = package
  versionName : Parse.Shown r.versionName
  versionCode : ∀ x ∈ r.versionCode, Text.isI64 x
  kinds_ne : r.kinds ≠ []
  kinds_nodup : r.kinds.Nodup
  size : ∀ n ∈ r.size, n < 2 ^ 64
  published : ∀ s ∈ r.published, Parse.Shown s

namespace Parse

open Dom

/-! ### Kinds -/

theorem nodup_pushKind {kinds : List FileKind} (h : kinds.Nodup) (kind : FileKind) :
    (pushKind kinds kind).Nodup := by
  rw [pushKind]
  split
  · exact h
  · next hno =>
      rw [List.nodup_append]
      refine ⟨h, List.nodup_singleton kind, ?_⟩
      rintro a ha b hb rfl
      rw [List.mem_singleton.mp hb] at ha
      exact hno (by simpa using ha)

theorem nodup_foldl_pushKind {kinds : List FileKind} (h : kinds.Nodup) (ks : List FileKind) :
    (ks.foldl pushKind kinds).Nodup := by
  induction ks generalizing kinds with
  | nil => exact h
  | cons k ks ih => exact ih (nodup_pushKind h k)

/-- Kinds that are listed once are taken as they are listed. -/
theorem foldl_pushKind {kinds ks : List FileKind} (h : (kinds ++ ks).Nodup) :
    ks.foldl pushKind kinds = kinds ++ ks := by
  induction ks generalizing kinds with
  | nil => exact (List.append_nil kinds).symm
  | cons k ks ih =>
    have hno : ¬ kinds.contains k = true := by
      rw [List.contains_iff_mem]
      intro hk
      exact (List.nodup_append.mp h).2.2 k hk k List.mem_cons_self rfl
    rw [List.foldl_cons, pushKind, if_neg hno, ih, List.append_assoc]
    · rfl
    · rwa [List.append_assoc]

theorem kindsOf_spec (el : ElementRef) : kindsOf el ≠ [] ∧ (kindsOf el).Nodup := by
  rw [kindsOf]
  split
  · exact ⟨List.cons_ne_nil _ _, List.nodup_singleton _⟩
  · next hne => exact ⟨fun h => hne (by rw [h]; rfl), nodup_foldl_pushKind List.nodup_nil _⟩

/-- Whatever the row, what is read from it is clean. -/
theorem scraped_release (package : String) (el : ElementRef) :
    (release package el).Scraped package := by
  obtain ⟨hne, hnodup⟩ := kindsOf_spec el
  refine ⟨rfl, ?_, ?_, hne, hnodup, ?_, holds_nonempty (holds_firstText el updateOn)⟩
  · show Shown ((nonempty ((el.attr "data-dt-version").map Text.trim)).getD "unknown")
    have htrim : ∀ t ∈ (el.attr "data-dt-version").map Text.trim, Text.trim t = t := by
      intro t ht
      obtain ⟨s, -, rfl⟩ := Option.map_eq_some_iff.mp ht
      exact Text.trim_trim s
    cases hname : nonempty ((el.attr "data-dt-version").map Text.trim) with
    | none => decide
    | some t => exact holds_nonempty htrim t hname
  · intro x hx
    obtain ⟨t, -, ht⟩ := Option.bind_eq_some_iff.mp hx
    exact Text.isI64_of_parseI64 ht
  · intro n hn
    obtain ⟨t, -, ht⟩ := Option.bind_eq_some_iff.mp hn
    exact (Text.parseU64_eq_some.mp ht).2

/-! ### The layout -/

/-- What the selectors of the versions page look for. -/
def releaseMarks : List Compound := [item.target, typeTag.target, updateOn.target]

/-- The attributes of a row. -/
def releaseAttrs (r : Release) : List (String × String) :=
  [("data-dt-version", r.versionName),
    ("data-dt-variant", if r.hasVariants then "true" else "false")]
    ++ r.versionCode.toList.map (fun x => ("data-dt-versioncode", toString x))
    ++ r.size.toList.map fun n => ("data-dt-filesize", toString n)

variable (theme : Theme releaseMarks) (place : Surroundings (marked "div" "ver-wrap") item.target)

def tagOf (kind : FileKind) : Node :=
  .element ⟨"span", [("class", "apk-type-tag"), ("data-tag", kind.asPathSegment)]⟩
    (theme.write kind.asPathSegment)

def tags : List FileKind → List Node
  | [] => theme.gap 0
  | kind :: kinds => theme.gap 1 ++ tagOf theme kind :: tags kinds

def releaseChildren (r : Release) : List Node :=
  tags theme r.kinds ++ theme.spanOf "update-on" r.published ++ theme.gap 2

/-- A row, where it stands. -/
def releaseRow (r : Release) (around : List Element) : ElementRef :=
  ⟨⟨"div", ("class", "ver_download_link") :: releaseAttrs r⟩, releaseChildren theme r, around⟩

def releaseRows : List Release → List Node
  | [] => theme.gap 3
  | r :: rs =>
    theme.gap 4 ++ .element ⟨"div", ("class", "ver_download_link") :: releaseAttrs r⟩
      (releaseChildren theme r) :: releaseRows rs

/-- A versions page. -/
def versionsPage (rs : List Release) : Html := Html.ofTree (plug place.frames (releaseRows theme rs))

/-! ### Reading it -/

theorem pick_tags_neg {s : Selector} (hs : s.target ∈ releaseMarks) (hid : s.target.id = none)
    (hc : s.target.describes ⟨"span", [("class", "apk-type-tag")]⟩ = false)
    (around : List Element) (kinds : List FileKind) : pick s around (tags theme kinds) = [] := by
  induction kinds with
  | nil => exact theme.pick_gap hs around 0
  | cons kind kinds ih => simp [tags, tagOf, hs, hid, hc, ih]

theorem filterMap_pick_tags (e : Element) (around : List Element) (kinds : List FileKind) :
    ((pick typeTag (e :: around) (tags theme kinds)).filterMap (·.attr "data-tag")) =
      kinds.map FileKind.asPathSegment := by
  induction kinds with
  | nil => rw [tags, theme.pick_gap (by decide)]; rfl
  | cons kind kinds ih =>
    have hinner : ∀ es, pick typeTag es (theme.write kind.asPathSegment) = [] :=
      fun es => theme.pick_write (by decide) es _
    rw [tags, pick_append, theme.pick_gap (by decide), List.nil_append, tagOf,
      pick_class_pos _ _ _ (by decide) (by decide) (surrounds_nil _), hinner, List.nil_append]
    show kind.asPathSegment :: List.filterMap _ _ = _
    rw [ih, List.map_cons]

theorem kindsOf_row {r : Release} (hne : r.kinds ≠ []) (hnodup : r.kinds.Nodup)
    (around : List Element) : kindsOf (releaseRow theme r around) = r.kinds := by
  have htags : ((releaseRow theme r around).select typeTag).filterMap (·.attr "data-tag")
      = r.kinds.map FileKind.asPathSegment := by
    rw [ElementRef.select, releaseRow, releaseChildren, pick_append, pick_append,
      theme.pick_spanOf_neg (by decide) (by decide), theme.pick_gap (by decide), List.append_nil,
      List.append_nil, filterMap_pick_tags]
  have hkinds : (r.kinds.map FileKind.asPathSegment).filterMap FileKind.parse = r.kinds := by
    simp only [List.filterMap_map, Function.comp_def, FileKind.parse_asPathSegment,
      List.filterMap_some]
  rw [kindsOf, htags, hkinds, foldl_pushKind (by rwa [List.nil_append]), List.nil_append, if_neg]
  rwa [List.isEmpty_iff]

theorem firstText_updateOn {r : Release} (h : ∀ t ∈ r.published, Text.trim t = t)
    (around : List Element) : firstText (releaseRow theme r around) updateOn = r.published := by
  apply theme.firstText_of_select h
  rw [ElementRef.select, releaseRow, releaseChildren, pick_append, pick_append,
    pick_tags_neg theme (by decide) (by decide) (by decide), theme.pick_gap (by decide),
    List.append_nil, List.nil_append,
    theme.pick_spanOf_pos (by decide) (by decide) (surrounds_nil _)]

/-- A row is read as the release it was laid out from, whatever is around it. -/
theorem release_row {package : String} {r : Release} (h : r.Scraped package)
    (around : List Element) : release package (releaseRow theme r around) = r := by
  have hversion : (releaseRow theme r around).attr "data-dt-version" = some r.versionName := rfl
  have hvariant : (releaseRow theme r around).attr "data-dt-variant"
      = some (if r.hasVariants then "true" else "false") := rfl
  have hlist : (releaseRow theme r around).attr "data-dt-apklist" = none := by
    show List.lookup _ (_ ++ _ ++ _) = _
    cases r.versionCode <;> cases r.size <;> rfl
  have hcode : (releaseRow theme r around).attr "data-dt-versioncode"
      = r.versionCode.map toString := by
    show List.lookup _ (_ ++ _ ++ _) = _
    cases r.versionCode <;> cases r.size <;> rfl
  have hsize : (releaseRow theme r around).attr "data-dt-filesize" = r.size.map toString := by
    show List.lookup _ (_ ++ _ ++ _) = _
    cases r.versionCode <;> cases r.size <;> rfl
  rw [release, hversion, hvariant, hlist, hcode, hsize, kindsOf_row theme h.kinds_ne h.kinds_nodup,
    firstText_updateOn theme fun t ht => (h.published t ht).2, nonempty_eq_self h.published]
  have hname : nonempty ((some r.versionName).map Text.trim) = some r.versionName := by
    rw [Option.map_some, h.versionName.2]
    exact nonempty_eq_self (forall_mem_some h.versionName)
  have hversionCode : (r.versionCode.map toString).bind Text.parseI64 = r.versionCode := by
    cases hx : r.versionCode with
    | none => rfl
    | some x => exact Text.parseI64_repr (h.versionCode x hx)
  have hfileSize : (r.size.map toString).bind Text.parseU64 = r.size := by
    cases hn : r.size with
    | none => rfl
    | some n => exact Text.parseU64_repr (h.size n hn)
  have hvariants : (some (if r.hasVariants then "true" else "false") == some "true") =
      r.hasVariants := by
    cases r.hasVariants <;> rfl
  rw [hname, hversionCode, hfileSize, hvariants, ← h.package]
  cases r
  simp

theorem select_item (rs : List Release) : (versionsPage theme place rs).select item =
    rs.map fun r => releaseRow theme r (chain place.frames []) := by
  have hplug : (versionsPage theme place rs).select item
      = pick item (chain place.frames []) (releaseRows theme rs) :=
    pick_plug List.mem_cons_self place.quiet (releaseRows theme rs) []
  have hchildren : ∀ (r : Release) (around : List Element),
      pick item around (releaseChildren theme r) = [] := by
    intro r around
    rw [releaseChildren, pick_append, pick_append,
      pick_tags_neg theme (by decide) (by decide) (by decide), theme.pick_gap (by decide),
      theme.pick_spanOf_neg (by decide) (by decide)]
    rfl
  rw [hplug]
  clear hplug
  induction rs with
  | nil => exact theme.pick_gap (by decide) _ 3
  | cons r rs ih =>
    have hdescribes : item.target.describes
        ⟨"div", ("class", "ver_download_link") :: releaseAttrs r⟩ = true := by
      rw [Compound.describes_class (by decide)]
      decide
    rw [releaseRows, pick_append, theme.pick_gap (by decide), List.nil_append,
      pick_element_pos _ _ hdescribes (surrounds_nil _), hchildren, ih]
    rfl

theorem looksLikeAppPage_versionsPage (rs : List Release) :
    looksLikeAppPage (versionsPage theme place rs) = true := by
  have hsome := isSome_select_frame place (releaseRows theme rs)
  rw [looksLikeAppPage, versionsPage, hsome, Bool.or_true, Bool.true_or]

/-- A versions page is read as the releases it was laid out from, in their order, whatever its theme
and wherever it has its list. -/
theorem releases_versionsPage {package : String} {rs : List Release}
    (h : ∀ r ∈ rs, r.Scraped package) :
    releases (versionsPage theme place rs) package = .ok rs := by
  rw [releases, listed_eq_ok]
  refine ⟨?_, fun _ => looksLikeAppPage_versionsPage theme place rs⟩
  rw [select_item, List.map_map]
  conv_rhs => rw [← List.map_id rs]
  apply List.map_congr_left
  intro r hr
  exact release_row theme (h r hr) _

/-- Nothing around the list of releases. -/
def plainReleases : Surroundings (marked "div" "ver-wrap") item.target where
  frames := [⟨⟨"div", [("class", "ver-wrap")]⟩, [], []⟩]
  inList := ⟨_, List.mem_cons_self, by decide⟩
  quiet f hf := by
    rw [List.mem_singleton.mp hf, Frame.Quiet]
    simp +decide [Quiet]

end Parse

end Xylitol.Apkpure
