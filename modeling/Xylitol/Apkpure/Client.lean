import Xylitol.Apkpure.Download
import Xylitol.Apkpure.Json
import Xylitol.Apkpure.Parse
import Xylitol.Markup
import Xylitol.Percent

/-!
# The client of the site

Three questions about an app go through one `GET` that waits and asks again while the site is rate
limiting. A question is a URL, and what it carries must come out of the URL on the other side as it
went in. What the site answers to the requests of one call is a parameter, and so is the code that
reads a body: the text of a response, its JSON, the HTML parser.
-/

namespace Xylitol.Apkpure

/-- A search hit with the fields that nothing shows. -/
structure SearchHit.Full extends SearchHit where
  developer : Option String
  score : Option String
  latestVersionCode : Option Int
  deriving DecidableEq, Repr

/-- The errors of a question. -/
inductive ClientError where
  | request (e : Error)
  | notFound (package : String)
  | parse (message : String)
  deriving DecidableEq, Repr

/-- The code that reads the body of a response. -/
structure Web where
  -- `response.text()`, nothing when the body does not arrive
  text : Response → Option String
  -- `response.json()`, or the text of its error
  json : Response → Except String Value
  parseDocument : String → Dom.Html
  parseSize : String → Option Nat

/-- The body of a response, if all of it arrives. -/
def bodyOf : List Item → Option Bytes
  | [] => some []
  | .chunk bytes :: rest => (bodyOf rest).map (bytes ++ ·)
  | .error :: _ => none

/-- What `response.text()` reads of a body in UTF-8. -/
def Response.text (r : Response) : Option String := (bodyOf r.body).map fromUtf8Lossy

/-- A text that is sent, in two pieces. -/
def sent (text : String) : Response :=
  ⟨200, none, none, [.chunk ((utf8Bytes text).take 64), .chunk ((utf8Bytes text).drop 64)]⟩

theorem text_sent (text : String) : (sent text).text = some text := by
  rw [Response.text, sent]
  simp only [bodyOf, Option.map_some, List.append_nil, List.take_append_drop]
  rw [fromUtf8Lossy_utf8Bytes]

/-- A web that reads the texts it is sent. -/
def plainWeb (parseSize : String → Option Nat) : Web where
  text := Response.text
  json r := match r.text.bind Json.read with
    | some v => .ok v
    | none => .error "expected value at line 1 column 1"
  parseDocument text := Dom.Html.ofTree (Markup.read text)
  parseSize := parseSize

theorem json_sent (parseSize : String → Option Nat) {v : Value} (h : Json.Plain v) :
    (plainWeb parseSize).json (sent (Json.write v)) = .ok v := by
  rw [plainWeb]
  simp only [text_sent, Option.bind_some, Json.read_write h]

def site : String := "https://apkpure.com"

def searchEndpoint : String := "https://apkpure.com/api/v1/search_suggestion_new"

def cdn : String := "https://d.apkpure.com"

/-- How many times a rate-limited request is retried before giving up. -/
def maxRetries : Nat := 3

namespace Client

/-- `urlencoding::encode`. -/
def encode (s : String) : String := String.ofList (Percent.encode (utf8Bytes s))

/-- How long is waited after the answer to a rate-limited request. -/
def wait (attempt : Nat) (r : Response) : Nat := r.retryAfterSecs.getD (backoff attempt)

/-- GET with a retry for 429, from the given attempt on: the result, and the seconds slept. -/
def get (url : String) (answer : Nat → Option Response) (attempt : Nat) :
    Except Error Response × List Nat :=
  match answer attempt with
  | none => (.error .http, [])
  | some r =>
    if r.isSuccess then (.ok r, [])
    else if r.status = 429 then
      if attempt ≥ maxRetries then (.error (.rateLimited (wait attempt r)), [])
      else
        let (result, slept) := get url answer (attempt + 1)
        (result, wait attempt r :: slept)
    else (.error (.status r.status url), [])
termination_by maxRetries - attempt

def getText (web : Web) (url : String) (answer : Nat → Option Response) :
    Except ClientError String :=
  match (get url answer 0).1 with
  | .error e => .error (.request e)
  | .ok r => match web.text r with
    | none => .error (.request .http)
    | some text => .ok text

def searchUrl (query : String) (limit : Nat) : String :=
  searchEndpoint ++ "?key=" ++ encode (Text.trim query) ++ "&limit="
    ++ toString (max 1 (min limit 50))

/-- One item of a search response, when it names a package. -/
def hit (it : Value) : Option SearchHit.Full := do
  let package ← (it.get "packageName").bind Value.asStr
  return {
    package := package
    title := ((it.get "title").bind Value.asStr).getD package
    iconUrl := (it.get "icon").bind Value.asStr
    installs := (it.get "installTotal").bind Value.asStr
    latestVersion := (it.get "version").bind Value.asStr
    latestSize := (it.get "fileSize").bind Value.asU64
    developer := (it.get "developer").bind Value.asStr
    score := (it.get "score").bind Value.asStr
    latestVersionCode := (it.get "versionCode").bind Value.asI64 }

/-- Search by app name or package name. -/
def search (web : Web) (query : String) (limit : Nat) (answer : Nat → Option Response) :
    Except ClientError (List SearchHit.Full) :=
  match (get (searchUrl query limit) answer 0).1 with
  | .error e => .error (.request e)
  | .ok r => match web.json r with
    | .error message => .error (.parse message)
    | .ok body => match body.asArray with
      | none => .error (.parse "search response was not a list")
      | some items => .ok (items.filterMap hit)

def releasesUrl (package : String) : String := site ++ "/a/" ++ package ++ "/versions"

/-- Every published release of an app. -/
def releases (web : Web) (package : String) (answer : Nat → Option Response) :
    Except ClientError (List Release) :=
  match getText web (releasesUrl package) answer with
  | .error e => .error e
  | .ok html => (Parse.releases (web.parseDocument html) package).mapError
      fun e => .notFound e.package

def variantsUrl (package : String) (versionName : Option String) : String :=
  match versionName with
  | some v => site ++ "/a/" ++ package ++ "/download/" ++ encode v
  | none => site ++ "/a/" ++ package ++ "/download"

/-- Every downloadable file for an app, or for one specific release: what the page lists, in order. -/
def fetchVariants (web : Web) (package : String) (versionName : Option String)
    (answer : Nat → Option Response) : Except ClientError (List Variant) :=
  match getText web (variantsUrl package versionName) answer with
  | .error e => .error e
  | .ok html => match Parse.variants web.parseSize (web.parseDocument html) package with
    | .error e => .error (.notFound e.package)
    | .ok parsed => .ok (variants parsed)

/-- The stable download URL for a specific build. -/
def downloadUrl (package : String) (kind : FileKind) (versionCode : Int) : String :=
  cdn ++ "/b/" ++ kind.asPathSegment ++ "/" ++ package ++ "?versionCode=" ++ toString versionCode

/-! ## How a question is answered -/

/-- The answer asks the client to come back later. -/
def limited : Option Response → Bool
  | some r => r.status = 429
  | none => false

/-- The answer `k` is the one that counts: the first that does not ask to come back, or the last that
is waited for. -/
structure Decides (answer : Nat → Option Response) (k : Nat) : Prop where
  le : k ≤ maxRetries
  before : ∀ i < k, limited (answer i) = true
  last : k = maxRetries ∨ limited (answer k) = false

/-- What the answer that counts says. -/
def judge (url : String) (attempt : Nat) : Option Response → Except Error Response
  | none => .error .http
  | some r =>
    if r.isSuccess then .ok r
    else if r.status = 429 then .error (.rateLimited (wait attempt r))
    else .error (.status r.status url)

/-- The seconds slept after the answer `i`. -/
def slept (answer : Nat → Option Response) (i : Nat) : Nat := ((answer i).map (wait i)).getD 0

theorem wait_le (attempt : Nat) (r : Response) : wait attempt r ≤ 60 := by
  rw [wait, Response.retryAfterSecs]
  cases r.retryAfter.bind fun value => Text.parseU64 (Text.trim value) with
  | some secs => exact Nat.min_le_right secs 60
  | none =>
    have hpow : 2 ^ min attempt 4 ≤ 2 ^ 4 :=
      Nat.pow_le_pow_right (by decide) (Nat.min_le_right attempt 4)
    exact hpow.trans (by decide)

theorem slept_le (answer : Nat → Option Response) (i : Nat) : slept answer i ≤ 60 := by
  rw [slept]
  cases answer i with
  | none => exact Nat.zero_le _
  | some r => exact wait_le i r

/-- A rate-limited attempt sleeps and goes on. -/
theorem get_limited {url : String} {answer : Nat → Option Response} {attempt : Nat}
    (h : limited (answer attempt) = true) (hlt : attempt < maxRetries) :
    get url answer attempt = ((get url answer (attempt + 1)).1,
      slept answer attempt :: (get url answer (attempt + 1)).2) := by
  rw [get, slept]
  cases hr : answer attempt with
  | none =>
    rw [hr] at h
    cases h
  | some r =>
    rw [hr] at h
    have hstatus : r.status = 429 := of_decide_eq_true h
    have hsuccess : ¬ r.isSuccess = true := by
      rw [Response.isSuccess, hstatus]
      decide
    show (if _ then _ else _) = _
    rw [if_neg hsuccess, if_pos hstatus, if_neg (Nat.not_le.mpr hlt)]
    rfl

/-- The answer that counts ends the call. -/
theorem get_judge {url : String} {answer : Nat → Option Response} {attempt : Nat}
    (h : maxRetries ≤ attempt ∨ limited (answer attempt) = false) :
    get url answer attempt = (judge url attempt (answer attempt), []) := by
  rw [get, judge.eq_def]
  cases hr : answer attempt with
  | none => rfl
  | some r =>
    rw [hr] at h
    show (if _ then _ else _) = (if _ then _ else _, _)
    split
    · rfl
    · split
      · next hstatus =>
          have hlast : maxRetries ≤ attempt :=
            h.resolve_right (Bool.ne_false_iff.mpr (decide_eq_true hstatus))
          rw [if_pos hlast]
      · rfl

theorem get_of_decides {url : String} {answer : Nat → Option Response} {k : Nat}
    (hk : Decides answer k) : get url answer 0 =
      (judge url k (answer k), (List.range k).map (slept answer)) := by
  -- backwards from the answer that counts
  have hfrom : ∀ n ≤ k, get url answer (k - n) =
      (judge url k (answer k), (List.range' (k - n) n).map (slept answer)) := by
    intro n hn
    induction n with
    | zero =>
      exact get_judge (hk.last.imp_left fun h => le_of_eq h.symm)
    | succ n ih =>
      have hlt : k - (n + 1) < k := by omega
      have hnext : k - (n + 1) + 1 = k - n := by omega
      rw [get_limited (hk.before _ hlt) (hlt.trans_le hk.le), hnext, ih (by omega),
        List.range'_succ, hnext, List.map_cons]
  have h := hfrom k le_rfl
  rwa [Nat.sub_self, ← List.range_eq_range'] at h

theorem exists_decides (answer : Nat → Option Response) : ∃ k, Decides answer k := by
  have hex : ∃ k, k = maxRetries ∨ limited (answer k) = false := ⟨maxRetries, Or.inl rfl⟩
  refine ⟨Nat.find hex, Nat.find_min' hex (Or.inl rfl), ?_, Nat.find_spec hex⟩
  intro i hi
  have hno := Nat.find_min hex hi
  rw [not_or] at hno
  exact Bool.ne_false_iff.mp hno.2

/-- Whatever the site answers, a call asks at most four times and sleeps three minutes at most, and
its result is what the first answer that does not ask it to come back says; later answers are not
asked for. -/
theorem get_spec (url : String) (answer : Nat → Option Response) : ∃ k, Decides answer k ∧
    (get url answer 0).1 = judge url k (answer k) ∧
    (get url answer 0).2 = (List.range k).map (slept answer) ∧ (get url answer 0).2.sum ≤ 180 ∧
    ∀ answer', (∀ i ≤ k, answer' i = answer i) → get url answer' 0 = get url answer 0 := by
  obtain ⟨k, hk⟩ := exists_decides answer
  refine ⟨k, hk, by rw [get_of_decides hk], by rw [get_of_decides hk], ?_, ?_⟩
  · have hsum : ((List.range k).map (slept answer)).sum ≤
        ((List.range k).map (slept answer)).length • 60 := by
      apply List.sum_le_card_nsmul
      intro x hx
      obtain ⟨i, -, rfl⟩ := List.mem_map.mp hx
      exact slept_le answer i
    have hk3 : k ≤ 3 := hk.le
    rw [List.length_map, List.length_range, smul_eq_mul] at hsum
    rw [get_of_decides hk]
    exact hsum.trans (by omega)
  · intro answer' hsame
    have hk' : Decides answer' k := by
      refine ⟨hk.le, fun i hi => ?_, ?_⟩
      · rw [hsame i hi.le]
        exact hk.before i hi
      · rw [hsame k le_rfl]
        exact hk.last
    rw [get_of_decides hk, get_of_decides hk', hsame k le_rfl]
    refine Prod.ext rfl (List.map_congr_left ?_)
    intro i hi
    rw [slept, slept, hsame i (List.mem_range.mp hi).le]

/-- The first request comes too early. -/
def busyThen (r : Response) : Nat → Option Response
  | 0 => some ⟨429, some "2", none, []⟩
  | _ => some r

theorem decides_busyThen {r : Response} (hr : r.isSuccess = true) : Decides (busyThen r) 1 := by
  refine ⟨by decide, ?_, Or.inr ?_⟩
  · intro i hi
    rw [Nat.lt_one_iff.mp hi]
    rfl
  · have hstatus : r.status ≠ 429 := by
      intro h
      rw [Response.isSuccess, h] at hr
      exact absurd hr (by decide)
    exact decide_eq_false hstatus

end Client

end Xylitol.Apkpure
