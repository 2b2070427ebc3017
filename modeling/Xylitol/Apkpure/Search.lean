import Xylitol.Apkpure.Client

/-!
# Searching

What is typed goes into a URL and comes out of it at the other end as it was typed, whatever the
characters; what the site finds comes back as JSON. Between a site that reads the parameters of its
requests and a caller, the search is the site's own:

    query ──trim, encode──▶ URL ──parameters──▶ key ──db──▶ apps ──toJson──▶ body ──hit──▶ hits
-/

namespace Xylitol.Apkpure.Client

/-! ### The request -/

/-- The parameters of a URL, as a server reads them: what is asked, and each value decoded. -/
def parameters (url : String) : Option (String × List (String × Bytes)) :=
  (Text.splitOnce url '?').map fun (path, query) =>
    (path, (Text.split query '&').filterMap fun parameter =>
      (Text.splitOnce parameter '=').map fun (name, value) => (name, Percent.decode value.toList))

/-- The number of hits a search asks for. -/
def clamped (limit : Nat) : Nat := max 1 (min limit 50)

theorem not_mem_encode {c : Char} (hc : Percent.plain c = false) (s : String) :
    c ∉ (encode s).toList := by
  intro h
  rw [encode, String.toList_ofList] at h
  rw [Percent.plain_of_mem_encode h] at hc
  cases hc

theorem decode_encode (s : String) : Percent.decode (encode s).toList = utf8Bytes s := by
  rw [encode, String.toList_ofList, Percent.decode_encode]

/-- Only digits are in a number. -/
theorem notMem_repr {c : Char} (hc : c.isDigit = false) (n : Nat) : c ∉ (toString n).toList := by
  intro h
  rw [Nat.toString_eq_repr, Nat.toList_repr] at h
  rw [Nat.isDigit_of_mem_toDigits (by decide) (by decide) h] at hc
  cases hc

theorem split_parameter {name value : String} {c : Char} (h : c ∉ name.toList) :
    Text.splitOnce (name ++ String.singleton c ++ value) c = some (name, value) := by
  rw [Text.splitOnce_eq_some]
  refine ⟨?_, h⟩
  rw [String.toList_append, String.toList_append, String.toList_singleton, List.append_assoc]
  rfl

/-- A search asks for the trimmed query and the clamped number of hits, and for nothing else. -/
theorem parameters_searchUrl (query : String) (limit : Nat) :
    parameters (searchUrl query limit) = some (searchEndpoint,
      [("key", utf8Bytes (Text.trim query)), ("limit", utf8Bytes (toString (clamped limit)))]) := by
  have hurl : searchUrl query limit = searchEndpoint ++ String.singleton '?'
      ++ ("key" ++ String.singleton '=' ++ encode (Text.trim query) ++ String.singleton '&'
        ++ ("limit" ++ String.singleton '=' ++ toString (clamped limit))) := by
    rw [← String.toList_inj]
    simp [searchUrl, clamped, String.toList_append]
  have hkey : '&' ∉ ("key" ++ String.singleton '=' ++ encode (Text.trim query)).toList := by
    rw [String.toList_append, List.mem_append, not_or]
    exact ⟨by decide, not_mem_encode (by decide) _⟩
  have hlimit : '&' ∉ ("limit" ++ String.singleton '=' ++ toString (clamped limit)).toList := by
    rw [String.toList_append, List.mem_append, not_or]
    exact ⟨by decide, notMem_repr (by decide) _⟩
  rw [hurl, parameters, split_parameter (by decide), Option.map_some]
  show some (_, (Text.split _ '&').filterMap _) = _
  rw [Text.split, String.toList_append, String.toList_append, String.toList_singleton,
    List.append_assoc, List.singleton_append,
    List.splitOn_append_cons_self_of_not_mem hkey, List.splitOn_eq_singleton hlimit]
  simp only [List.map_cons, List.map_nil, String.ofList_toList]
  rw [List.filterMap_cons_some (by rw [split_parameter (by decide)]; rfl),
    List.filterMap_cons_some (by rw [split_parameter (by decide)]; rfl), List.filterMap_nil]
  show some (_, [("key", Percent.decode _), ("limit", Percent.decode _)]) = _
  rw [decode_encode, Percent.decode_of_notMem (notMem_repr (by decide) _)]
  rfl

/-! ### The answer -/

/-- The numbers of a hit fit into 64 bits. -/
structure Fits (h : SearchHit.Full) : Prop where
  latestSize : ∀ n ∈ h.latestSize, n < 2 ^ 64
  latestVersionCode : ∀ x ∈ h.latestVersionCode, Text.isI64 x

def jsonNat (n : Nat) : Value := .number (.posInt (.ofNat n))

def jsonInt (x : Int) : Value :=
  if 0 ≤ x then jsonNat x.toNat else .number (.negInt (.ofInt x))

/-- A hit as the site writes it, with whatever else it says about the app. -/
def toJson (h : SearchHit.Full) (more : List (String × Value)) : Value :=
  .object ([("packageName", .string h.package), ("title", .string h.title),
    ("icon", (h.iconUrl.map .string).getD .null),
    ("installTotal", (h.installs.map .string).getD .null),
    ("version", (h.latestVersion.map .string).getD .null),
    ("fileSize", (h.latestSize.map jsonNat).getD .null),
    ("developer", (h.developer.map .string).getD .null),
    ("score", (h.score.map .string).getD .null),
    ("versionCode", (h.latestVersionCode.map jsonInt).getD .null)] ++ more)

theorem asStr_getD (s : Option String) : ((s.map Value.string).getD .null).asStr = s := by
  cases s <;> rfl

theorem asU64_getD {n : Option Nat} (hn : ∀ x ∈ n, x < 2 ^ 64) :
    ((n.map jsonNat).getD .null).asU64 = n := by
  cases n with
  | none => rfl
  | some n => exact congrArg some (UInt64.toNat_ofNat_of_lt' (hn n rfl))

theorem asI64_getD {x : Option Int} (hx : ∀ y ∈ x, Text.isI64 y) :
    ((x.map jsonInt).getD .null).asI64 = x := by
  cases x with
  | none => rfl
  | some x =>
    have hbounds := hx x rfl
    simp only [Text.isI64, Bool.and_eq_true, decide_eq_true_eq] at hbounds
    show (jsonInt x).asI64 = some x
    rw [jsonInt]
    split
    · next hpos =>
        have hnat : (UInt64.ofNat x.toNat).toNat = x.toNat := UInt64.toNat_ofNat_of_lt' (by
          show x.toNat < 2 ^ 64
          omega)
        show (if (UInt64.ofNat x.toNat).toNat < 2 ^ 63 then some _ else none) = _
        rw [hnat, if_pos (by omega), Int.toNat_of_nonneg hpos]
    · next hneg =>
        exact congrArg some (Int64.toInt_ofInt_of_le hbounds.1 hbounds.2)

/-- A hit is read as it was written. -/
theorem hit_toJson {h : SearchHit.Full} (hfits : Fits h) (more : List (String × Value)) :
    hit (toJson h more) = some h := by
  have hhit : hit (toJson h more) = some
      { package := h.package
        title := h.title
        iconUrl := ((h.iconUrl.map Value.string).getD .null).asStr
        installs := ((h.installs.map Value.string).getD .null).asStr
        latestVersion := ((h.latestVersion.map Value.string).getD .null).asStr
        latestSize := ((h.latestSize.map jsonNat).getD .null).asU64
        developer := ((h.developer.map Value.string).getD .null).asStr
        score := ((h.score.map Value.string).getD .null).asStr
        latestVersionCode := ((h.latestVersionCode.map jsonInt).getD .null).asI64 } := rfl
  rw [hhit, asStr_getD, asStr_getD, asStr_getD, asStr_getD, asStr_getD,
    asU64_getD hfits.latestSize, asI64_getD hfits.latestVersionCode]

/-- A site that looks up what the parameters of a search say. -/
structure Site (web : Web) where
  find : (key limit : Bytes) → List (SearchHit.Full × List (String × Value))
  fits : ∀ key limit, ∀ h ∈ find key limit, Fits h.1
  respond : String → Response
  answers : ∀ url key limit,
    parameters url = some (searchEndpoint, [("key", key), ("limit", limit)]) →
      (respond url).isSuccess = true ∧ web.json (respond url) =
        .ok (.array ((find key limit).map fun h => toJson h.1 h.2))

/-- A search that the site answers, at once or after it was rate limited, finds what the site finds
for the trimmed query, whatever characters it has, in the order of the site. -/
theorem search_eq_find (web : Web) (site : Site web) (query : String) (limit : Nat)
    {answer : Nat → Option Response} {k : Nat} (hk : Decides answer k)
    (hanswer : answer k = some (site.respond (searchUrl query limit))) :
    search web query limit answer = .ok ((site.find (utf8Bytes (Text.trim query))
      (utf8Bytes (toString (clamped limit)))).map Prod.fst) := by
  obtain ⟨hok, hjson⟩ := site.answers _ _ _ (parameters_searchUrl query limit)
  have hget : (get (searchUrl query limit) answer 0).1
      = .ok (site.respond (searchUrl query limit)) := by
    rw [get_of_decides hk, hanswer, judge, if_pos hok]
  rw [search, hget]
  simp only [hjson, Value.asArray]
  rw [List.filterMap_map, ← List.filterMap_eq_map]
  refine congrArg Except.ok (List.filterMap_congr ?_)
  intro h hh
  exact hit_toJson (site.fits _ _ h hh) h.2

/-! ### A site with a catalogue -/

/-- Nothing in what is said about the app has to be escaped. -/
structure Plain (h : SearchHit.Full × List (String × Value)) : Prop where
  fits : Fits h.1
  texts : ∀ s ∈ [some h.1.package, some h.1.title, h.1.iconUrl, h.1.installs, h.1.latestVersion,
    h.1.developer, h.1.score], ∀ t ∈ s, Json.Plain (.string t)
  code : ∀ x ∈ h.1.latestVersionCode, 0 ≤ x
  more : ∀ f ∈ h.2, Json.Plain (.string f.1) ∧ Json.Plain f.2

theorem plain_toJson {h : SearchHit.Full × List (String × Value)} (hplain : Plain h) :
    Json.Plain (toJson h.1 h.2) := by
  have htext : ∀ s : Option String, (∀ t ∈ s, Json.Plain (.string t)) →
      Json.Plain ((s.map Value.string).getD .null) := by
    intro s hs
    cases s with
    | none => exact Json.plain_null
    | some t => exact hs t rfl
  have hsize : Json.Plain ((h.1.latestSize.map jsonNat).getD .null) := by
    cases h.1.latestSize with
    | none => exact Json.plain_null
    | some n => exact Json.plain_posInt _
  have hcode : Json.Plain ((h.1.latestVersionCode.map jsonInt).getD .null) := by
    cases hx : h.1.latestVersionCode with
    | none => exact Json.plain_null
    | some x =>
      have hpos := hplain.code x hx
      rw [Option.map_some, Option.getD_some, jsonInt, if_pos hpos]
      exact Json.plain_posInt _
  have htexts := hplain.texts
  simp only [List.forall_mem_cons, List.not_mem_nil, false_imp_iff, implies_true, and_true,
    Option.mem_some_iff, forall_eq'] at htexts
  obtain ⟨hpackage, htitle, hicon, hinstalls, hversion, hdeveloper, hscore⟩ := htexts
  apply Json.plain_object
  rw [List.forall_mem_append]
  refine ⟨?_, hplain.more⟩
  simp only [List.forall_mem_cons, List.not_mem_nil, false_imp_iff, implies_true, and_true]
  exact ⟨⟨by simp [Json.plain_string], hpackage⟩, ⟨by simp [Json.plain_string], htitle⟩,
    ⟨by simp [Json.plain_string], htext _ hicon⟩, ⟨by simp [Json.plain_string], htext _ hinstalls⟩,
    ⟨by simp [Json.plain_string], htext _ hversion⟩, ⟨by simp [Json.plain_string], hsize⟩,
    ⟨by simp [Json.plain_string], htext _ hdeveloper⟩, ⟨by simp [Json.plain_string], htext _ hscore⟩,
    ⟨by simp [Json.plain_string], hcode⟩⟩

/-- The apps with the key in their title, as many of them as are asked for. -/
def found (catalogue : List (SearchHit.Full × List (String × Value))) (key limit : Bytes) :
    List (SearchHit.Full × List (String × Value)) :=
  (catalogue.filter fun h => Text.contains h.1.title (fromUtf8Lossy key)).take
    ((Text.parseUsize (fromUtf8Lossy limit)).getD 20)

/-- A site that looks into a catalogue and sends what it finds as text. -/
def catalogueSite (parseSize : String → Option Nat)
    {catalogue : List (SearchHit.Full × List (String × Value))} (hplain : ∀ h ∈ catalogue, Plain h) :
    Site (plainWeb parseSize) where
  find := found catalogue
  fits key limit h hh := (hplain h (List.mem_filter.mp (List.mem_of_mem_take hh)).1).fits
  respond url := match parameters url with
    | some (_, [(_, key), (_, limit)]) =>
      sent (Json.write (.array ((found catalogue key limit).map fun h => toJson h.1 h.2)))
    | _ => ⟨404, none, none, []⟩
  answers url key limit h := by
    rw [h]
    refine ⟨rfl, json_sent parseSize (Json.plain_array ?_)⟩
    intro v hv
    obtain ⟨h, hfound, rfl⟩ := List.mem_map.mp hv
    exact plain_toJson (hplain h (List.mem_filter.mp (List.mem_of_mem_take hfound)).1)

def vlc : SearchHit.Full where
  package := "org.videolan.vlc"
  title := "VLC for Android"
  iconUrl := none
  installs := some "100M+"
  latestVersion := some "3.7.1"
  latestSize := some 47990842
  developer := some "Videolabs"
  score := none
  latestVersionCode := some 13070106

def remote : SearchHit.Full where
  package := "org.example.remote"
  title := "VLC ビデオ & 100% remote"
  iconUrl := some "https://image.example.org/remote.png"
  installs := none
  latestVersion := some "1.0"
  latestSize := none
  developer := none
  score := some "9.1"
  latestVersionCode := none

/-- Three of them have the key in their title, and one does not. -/
def apps : List (SearchHit.Full × List (String × Value)) :=
  [(remote, []), (vlc, [("tag", .null)]), ({ vlc with title := "ビデオ & 100%" }, [("tag", .null)]),
    ({ remote with title := "ビデオ & 100%=" }, [])]

theorem plain_apps : ∀ h ∈ apps, Plain h := by
  simp only [apps, List.forall_mem_cons]
  refine ⟨?_, ?_, ?_, ?_, List.forall_mem_nil _⟩
  all_goals
    refine ⟨⟨?_, ?_⟩, ?_, ?_, ?_⟩
    all_goals simp [remote, vlc, Json.plain_string, Json.plain_null, Text.isI64]

theorem found_apps : found apps (utf8Bytes (Text.trim " ビデオ & 100% "))
    (utf8Bytes (toString (clamped 2))) =
      [(remote, []), ({ vlc with title := "ビデオ & 100%" }, [("tag", .null)])] := by
  have hkey : Text.trim " ビデオ & 100% " = "ビデオ & 100%" := by decide
  have hlimit : Text.parseUsize (toString (clamped 2)) = some 2 := by decide
  rw [found, fromUtf8Lossy_utf8Bytes, fromUtf8Lossy_utf8Bytes, hkey, hlimit]
  rfl

/-- Where the apps are searched, and no size is read. -/
def store : Site (plainWeb fun _ => none) := catalogueSite _ plain_apps

theorem search_vlc :
    search (plainWeb fun _ => none) " ビデオ & 100% " 2
      (busyThen (store.respond (searchUrl " ビデオ & 100% " 2)))
      = .ok [remote, { vlc with title := "ビデオ & 100%" }] :=
  (search_eq_find _ store " ビデオ & 100% " 2
    (decides_busyThen (store.answers _ _ _ (parameters_searchUrl _ _)).1) rfl).trans
    (congrArg (fun hits => Except.ok (hits.map Prod.fst)) found_apps)

end Xylitol.Apkpure.Client
