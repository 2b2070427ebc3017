import Xylitol.Apkpure.Model
import Xylitol.Generations
import Xylitol.Runs

/-!
# Searching APKPure

Each keystroke starts a timer and each timer that runs out sends a request, so several of both can be
outstanding at once, and they run out and come back in any order:

    generation 1   "sig" ─ timer ─ request ───────────────────── reply: dropped
    generation 2   "signal" ─────────────── timer ─ request ─ reply: on the page

`page_shows_last` says that the page ends up with the reply to the last query.
-/

namespace Xylitol.Gui.Discover

open Apkpure

/-! ### The page -/

structure ActionRow where
  title : String
  subtitle : String
  /-- The icon that is loaded in place of the placeholder. -/
  icon : Option String
  /-- The package and the title that activating the row passes on. -/
  target : String × String
  deriving DecidableEq, Repr

/-- What `build` creates and its closures change. -/
structure Page where
  results : List ActionRow
  resultsVisible : Bool
  statusTitle : String
  statusDescription : String
  statusVisible : Bool
  spinning : Bool
  spinnerVisible : Bool
  deriving DecidableEq, Repr

/-- How a label escapes a text, and how a size is written. -/
structure Look where
  markup : String → String
  humanSize : Nat → String

section

variable (look : Look)

def rowFor (hit : SearchHit) : ActionRow where
  title := look.markup hit.title
  subtitle := look.markup (" · ".intercalate (hit.package :: hit.latestVersion.toList
    ++ (hit.latestSize.map look.humanSize).toList
    ++ (hit.installs.map (· ++ " installs")).toList))
  icon := hit.iconUrl
  target := (hit.package, hit.title)

namespace Page

def built : Page where
  results := []
  resultsVisible := false
  statusTitle := "Find an app"
  statusDescription := "Search APKPure, then pick which build to download."
  statusVisible := true
  spinning := false
  spinnerVisible := false

/-- What an empty query does. -/
def emptied (page : Page) : Page :=
  { page with
    resultsVisible := false
    spinnerVisible := false
    statusVisible := true
    statusTitle := "Find an app"
    statusDescription := "Search APKPure, then pick which build to download." }

def searching (page : Page) : Page := { page with spinnerVisible := true, spinning := true }

/-- The source's `show`. -/
def showHits (page : Page) (query : String) (hits : List SearchHit) : Page :=
  if hits.isEmpty then
    { page with
      results := []
      resultsVisible := false
      statusVisible := true
      statusTitle := "No results"
      statusDescription := "APKPure has no app matching “" ++ query ++ "”." }
  else
    { page with
      results := hits.map (rowFor look)
      statusVisible := false
      resultsVisible := true }

def searchFailed (page : Page) (error : String) : Page :=
  -- the rows of an earlier search stay, unseen
  { page with
    resultsVisible := false
    statusVisible := true
    statusTitle := "Search failed"
    statusDescription := error }

def answered (page : Page) (query : String) (outcome : Except String (List SearchHit)) : Page :=
  let page := { page with spinning := false, spinnerVisible := false }
  match outcome with
  | .ok hits => page.showHits look query hits
  | .error e => page.searchFailed e

end Page

/-! ### The closures -/

/-- What a timer, and then a request, has captured. -/
structure Ticket where
  generation : UInt64
  query : String
  deriving DecidableEq, Repr

structure State where
  generation : UInt64
  timers : List Ticket
  requests : List Ticket
  page : Page
  deriving DecidableEq, Repr

def build : State where
  generation := 0
  timers := []
  requests := []
  page := .built

/-- What the main loop delivers: of the outstanding timers or requests, the one at `i`. -/
inductive Event where
  | searchChanged (text : String)
  | fires (i : Nat)
  | replies (i : Nat) (outcome : Except String (List SearchHit))

/-- A step can send the query of a ticket to APKPure, or put the outcome for it on the page. -/
inductive Action where
  | sent (ticket : Ticket)
  | shown (ticket : Ticket) (outcome : Except String (List SearchHit))

def State.step (s : State) : Event → State × Option Action
  | .searchChanged text =>
    let query := Text.trim text
    let current := s.generation + 1
    if query = "" then ({ s with generation := current, page := s.page.emptied }, none)
    else ({ s with generation := current, timers := s.timers ++ [⟨current, query⟩] }, none)
  | .fires i =>
    match s.timers[i]? with
    | none => (s, none)
    | some t =>
      let s := { s with timers := s.timers.eraseIdx i }
      if s.generation ≠ t.generation then (s, none)
      else ({ s with requests := s.requests ++ [t], page := s.page.searching }, some (.sent t))
  | .replies i outcome =>
    match s.requests[i]? with
    | none => (s, none)
    | some t =>
      let s := { s with requests := s.requests.eraseIdx i }
      if s.generation ≠ t.generation then (s, none)
      else ({ s with page := s.page.answered look t.query outcome }, some (.shown t outcome))

/-- What a step can do. -/
inductive Moves (s : State) : Event → State → Option Action → Prop
  | emptied {text} (hempty : Text.trim text = "") :
      Moves s (.searchChanged text)
        { s with generation := s.generation + 1, page := s.page.emptied } none
  | started {text} (hquery : Text.trim text ≠ "") :
      Moves s (.searchChanged text)
        { s with
          generation := s.generation + 1
          timers := s.timers ++ [⟨s.generation + 1, Text.trim text⟩] } none
  | noTimer {i} : Moves s (.fires i) s none
  | staleTimer {i t} (hget : s.timers[i]? = some t) (hstale : t.generation ≠ s.generation) :
      Moves s (.fires i) { s with timers := s.timers.eraseIdx i } none
  | sent {i t} (hget : s.timers[i]? = some t) (hcurrent : t.generation = s.generation) :
      Moves s (.fires i)
        { s with
          timers := s.timers.eraseIdx i
          requests := s.requests ++ [t]
          page := s.page.searching } (some (.sent t))
  | noRequest {i outcome} : Moves s (.replies i outcome) s none
  | staleReply {i t outcome} (hget : s.requests[i]? = some t)
      (hstale : t.generation ≠ s.generation) :
      Moves s (.replies i outcome) { s with requests := s.requests.eraseIdx i } none
  | shown {i t outcome} (hget : s.requests[i]? = some t)
      (hcurrent : t.generation = s.generation) :
      Moves s (.replies i outcome)
        { s with
          requests := s.requests.eraseIdx i
          page := s.page.answered look t.query outcome } (some (.shown t outcome))

theorem step_moves (s : State) (e : Event) : Moves look s e (s.step look e).1 (s.step look e).2 := by
  cases e with
  | searchChanged text =>
    simp only [State.step]
    split
    · next hempty => exact .emptied hempty
    · next hquery => exact .started hquery
  | fires i =>
    simp only [State.step]
    split
    · exact .noTimer
    · next t hget =>
      split
      · next hstale => exact .staleTimer hget (Ne.symm hstale)
      · next hcurrent => exact .sent hget (not_not.mp hcurrent).symm
  | replies i outcome =>
    simp only [State.step]
    split
    · exact .noRequest
    · next t hget =>
      split
      · next hstale => exact .staleReply hget (Ne.symm hstale)
      · next hcurrent => exact .shown hget (not_not.mp hcurrent).symm

/-! ### What the page shows -/

/-- The rows and the message of a page, as far as they are visible. -/
structure Screen where
  rows : Option (List ActionRow)
  message : Option (String × String)
  deriving DecidableEq, Repr

def Page.screen (page : Page) : Screen where
  rows := if page.resultsVisible then some page.results else none
  message :=
    if page.statusVisible then some (page.statusTitle, page.statusDescription) else none

def Screen.initial : Screen where
  rows := none
  message := some ("Find an app", "Search APKPure, then pick which build to download.")

/-- What a reply is meant to show: the apps found, or a message. -/
def Screen.reply (query : String) : Except String (List SearchHit) → Screen
  | .ok [] => ⟨none, some ("No results", "APKPure has no app matching “" ++ query ++ "”.")⟩
  | .ok hits => ⟨some (hits.map (rowFor look)), none⟩
  | .error e => ⟨none, some ("Search failed", e)⟩

@[simp] theorem Page.screen_emptied (page : Page) : page.emptied.screen = .initial := rfl

@[simp] theorem Page.screen_searching (page : Page) : page.searching.screen = page.screen := rfl

@[simp] theorem Page.screen_answered (page : Page) (query : String)
    (outcome : Except String (List SearchHit)) :
    (page.answered look query outcome).screen = .reply look query outcome := by
  cases outcome with
  | error e => rfl
  | ok hits => cases hits <;> rfl

@[simp] theorem Page.spinnerVisible_answered (page : Page) (query : String)
    (outcome : Except String (List SearchHit)) :
    (page.answered look query outcome).spinnerVisible = false := by
  cases outcome with
  | error e => rfl
  | ok hits => cases hits <;> rfl

/-- What is on the screen only gives way to the initial page, on an empty query, or to a reply that
the step shows. -/
theorem screen_step (s : State) (e : Event) :
    (s.step look e).1.page.screen = s.page.screen ∨
      (∃ text, e = .searchChanged text ∧ Text.trim text = "" ∧
        (s.step look e).1.page.screen = .initial) ∨
      ∃ t outcome, (s.step look e).2 = some (.shown t outcome) ∧
        (s.step look e).1.page.screen = .reply look t.query outcome := by
  have hmoves := step_moves look s e
  generalize s.step look e = next at hmoves ⊢
  obtain ⟨s', action⟩ := next
  cases hmoves with
  | emptied hempty => exact Or.inr (Or.inl ⟨_, rfl, hempty, Page.screen_emptied _⟩)
  | started | noTimer | staleTimer | sent | noRequest | staleReply => exact Or.inl rfl
  | shown => exact Or.inr (Or.inr ⟨_, _, rfl, Page.screen_answered look _ _ _⟩)

/-! ### Runs -/

/-- The query of a signal. -/
def Event.query : Event → Option String
  | .searchChanged text => some (Text.trim text)
  | .fires _ | .replies _ _ => none

def Action.ticket : Action → Ticket
  | .sent t | .shown t _ => t

/-- The ticket of an action that puts something on the page. -/
def Action.shows : Action → Option Ticket
  | .sent _ => none
  | .shown t _ => some t

/-- The queries signalled and the actions taken so far, and the state they led to. -/
structure History where
  queries : List String
  actions : List Action
  now : State

def History.step (h : History) (e : Event) : History where
  queries := h.queries ++ e.query.toList
  actions := h.actions ++ (h.now.step look e).2.toList
  now := (h.now.step look e).1

def history (events : List Event) : History :=
  Runs.run (History.step look) ⟨[], [], build⟩ events

theorem queries_history (events : List Event) :
    (history look events).queries = events.filterMap Event.query := by
  have hrun : ∀ h : History,
      (Runs.run (History.step look) h events).queries
        = h.queries ++ events.filterMap Event.query := by
    induction events with
    | nil => simp
    | cons e rest ih =>
      intro h
      rw [Runs.run_cons, ih, List.filterMap_cons]
      cases hquery : e.query <;> simp [History.step, hquery]
  exact hrun _

namespace History

variable {look} {h : History}

/-- The tickets of outstanding timers and requests. -/
def pending (h : History) : List Ticket := h.now.timers ++ h.now.requests

/-- The tickets whose outcome has been shown. -/
def answered (h : History) : List Ticket := h.actions.filterMap Action.shows

/-- How far the last query has come. -/
inductive Phase (look : Look) (h : History) : Prop
  | quiet (hlast : h.queries.getLast?.getD "" = "") (hspinner : h.now.page.spinnerVisible = false)
      (hscreen : h.now.page.screen = .initial)
  | waiting (t : Ticket) (ht : t ∈ h.now.timers) (hcurrent : t.generation = h.now.generation)
  | loading (t : Ticket) (ht : t ∈ h.now.requests) (hcurrent : t.generation = h.now.generation)
  | done (t : Ticket) (outcome : Except String (List SearchHit))
      (hshown : .shown t outcome ∈ h.actions) (hcurrent : t.generation = h.now.generation)
      (hlast : h.queries.getLast? = some t.query) (hquery : t.query ≠ "")
      (hspinner : h.now.page.spinnerVisible = false)
      (hscreen : h.now.page.screen = .reply look t.query outcome)

structure Inv (look : Look) (h : History) : Prop where
  counted : h.now.generation.toNat = h.queries.length
  asked : ∀ t ∈ h.pending, t.query ≠ ""
  numbered : Generations.Numbered (·.generation.toNat) Ticket.query h.queries.getLast?
    h.queries.length h.pending h.answered
  phase : Phase look h

/-- A current ticket is for the last query. -/
theorem Inv.last (hinv : h.Inv look) {t : Ticket} (ht : t ∈ h.pending)
    (hcurrent : t.generation = h.now.generation) :
    t.generation.toNat = h.queries.length ∧ h.queries.getLast? = some t.query := by
  have hnumber : t.generation.toNat = h.queries.length := by rw [hcurrent, hinv.counted]
  exact ⟨hnumber, hinv.numbered.latest t ht hnumber⟩

theorem inv_build : Inv look ⟨[], [], build⟩ := by
  constructor
  · rfl
  · intro t ht
    exact absurd ht List.not_mem_nil
  · exact .start
  · exact .quiet rfl rfl rfl

/-- What is outstanding at `i` goes to the front. -/
theorem perm_of_getElem? {ts : List Ticket} {i : Nat} {t : Ticket} (hget : ts[i]? = some t) :
    List.Perm (t :: ts.eraseIdx i) ts := by
  obtain ⟨hi, rfl⟩ := List.getElem?_eq_some_iff.mp hget
  exact List.getElem_cons_eraseIdx_perm hi

/-- Only what was outstanding at `i` is gone. -/
theorem mem_eraseIdx {ts : List Ticket} {i : Nat} {t t' : Ticket} (hget : ts[i]? = some t)
    (hne : t' ≠ t) (ht' : t' ∈ ts) : t' ∈ ts.eraseIdx i := by
  rw [← (perm_of_getElem? hget).mem_iff] at ht'
  exact List.mem_of_ne_of_mem hne ht'

/-- A step that neither signals nor acts, and only drops tickets of earlier queries. -/
theorem inv_drop (hinv : h.Inv look) {timers requests : List Ticket}
    (htimers : List.Sublist timers h.now.timers) (hrequests : List.Sublist requests h.now.requests)
    (hcurrent : ∀ t, t.generation = h.now.generation →
      (t ∈ h.now.timers → t ∈ timers) ∧ (t ∈ h.now.requests → t ∈ requests)) :
    Inv look ⟨h.queries, h.actions, { h.now with timers, requests }⟩ := by
  have hpending : List.Sublist (timers ++ requests) h.pending := htimers.append hrequests
  constructor
  · exact hinv.counted
  · intro t ht
    exact hinv.asked t (hpending.subset ht)
  · exact hinv.numbered.of_subperm (hpending.append_right _).subperm hpending.subset
  · cases hinv.phase with
    | quiet hlast hspinner hscreen => exact .quiet hlast hspinner hscreen
    | waiting t ht hgen => exact .waiting t ((hcurrent t hgen).1 ht) hgen
    | loading t ht hgen => exact .loading t ((hcurrent t hgen).2 ht) hgen
    | done t outcome hshown hgen hlast hquery hspinner hscreen =>
      exact .done t outcome hshown hgen hlast hquery hspinner hscreen

/-- A timer that runs out for the last query. -/
theorem inv_sent (hinv : h.Inv look) {i : Nat} {t : Ticket} (hget : h.now.timers[i]? = some t)
    (hcurrent : t.generation = h.now.generation) :
    Inv look ⟨h.queries, h.actions ++ [.sent t],
      { h.now with
        timers := h.now.timers.eraseIdx i
        requests := h.now.requests ++ [t]
        page := h.now.page.searching }⟩ := by
  have hperm : List.Perm (h.now.timers.eraseIdx i ++ (h.now.requests ++ [t])) h.pending := by
    rw [← List.append_assoc]
    exact (List.perm_append_singleton t _).trans ((perm_of_getElem? hget).append_right _)
  have hanswered : (h.actions ++ [Action.sent t]).filterMap Action.shows = h.answered := by
    simp [answered, Action.shows]
  constructor
  · exact hinv.counted
  · intro t' ht'
    exact hinv.asked t' (hperm.subset ht')
  · apply hinv.numbered.of_subperm _ hperm.subset
    rw [History.answered, hanswered]
    exact (hperm.append_right _).subperm
  · exact .loading t (List.mem_append_right _ List.mem_cons_self) hcurrent

/-- A reply for the last query. -/
theorem inv_shown (hinv : h.Inv look) {i : Nat} {t : Ticket} (hget : h.now.requests[i]? = some t)
    (hcurrent : t.generation = h.now.generation) (outcome : Except String (List SearchHit)) :
    Inv look ⟨h.queries, h.actions ++ [.shown t outcome],
      { h.now with
        requests := h.now.requests.eraseIdx i
        page := h.now.page.answered look t.query outcome }⟩ := by
  have ht : t ∈ h.pending := List.mem_append_right _ (List.mem_of_getElem? hget)
  have hsub : List.Sublist (h.now.timers ++ h.now.requests.eraseIdx i) h.pending :=
    (List.eraseIdx_sublist _ i).append_left _
  have hanswered : (h.actions ++ [Action.shown t outcome]).filterMap Action.shows
      = h.answered ++ [t] := by
    simp [answered, Action.shows]
  -- the ticket moves from the outstanding ones to those shown
  have hperm : List.Perm (h.now.timers ++ h.now.requests.eraseIdx i ++ (h.answered ++ [t]))
      (h.pending ++ h.answered) := by
    calc h.now.timers ++ h.now.requests.eraseIdx i ++ (h.answered ++ [t])
        _ = (h.now.timers ++ h.now.requests.eraseIdx i ++ h.answered) ++ [t] := by
          rw [← List.append_assoc]
        List.Perm _ (t :: (h.now.timers ++ h.now.requests.eraseIdx i) ++ h.answered) :=
          List.perm_append_singleton t _
        List.Perm _ (h.now.timers ++ t :: h.now.requests.eraseIdx i ++ h.answered) :=
          List.perm_middle.symm.append_right _
        List.Perm _ (h.pending ++ h.answered) :=
          ((perm_of_getElem? hget).append_left _).append_right _
  constructor
  · exact hinv.counted
  · intro t' ht'
    exact hinv.asked t' (hsub.subset ht')
  · apply hinv.numbered.of_subperm _ hsub.subset
    rw [History.answered, hanswered]
    exact hperm.subperm
  · exact .done t outcome (List.mem_append_right _ List.mem_cons_self) hcurrent
      (hinv.last ht hcurrent).2 (hinv.asked t ht) (Page.spinnerVisible_answered look _ _ _)
      (Page.screen_answered look _ _ _)

theorem inv_signal (hinv : h.Inv look) (text : String) (hcount : h.queries.length + 1 < 2 ^ 64)
    {s : State} (hmoves : Moves look h.now (.searchChanged text) s none) :
    Inv look ⟨h.queries ++ [Text.trim text], h.actions, s⟩ := by
  have hnext : (h.now.generation + 1).toNat = h.queries.length + 1 := by
    rw [UInt64.toNat_add, hinv.counted]
    exact Nat.mod_eq_of_lt hcount
  have hlast : (h.queries ++ [Text.trim text]).getLast? = some (Text.trim text) :=
    List.getLast?_concat
  cases hmoves with
  | emptied hempty =>
    constructor
    · rw [List.length_append]
      exact hnext
    · exact hinv.asked
    · rw [hlast, List.length_append]
      exact hinv.numbered.skip _
    · refine .quiet ?_ rfl (Page.screen_emptied _)
      rw [hlast]
      exact hempty
  | started hquery =>
    let t : Ticket := ⟨h.now.generation + 1, Text.trim text⟩
    have hperm : List.Perm (h.now.timers ++ [t] ++ h.now.requests) (t :: h.pending) :=
      (List.perm_append_singleton t _).append_right _
    constructor
    · rw [List.length_append]
      exact hnext
    · intro t' ht'
      rcases List.mem_cons.mp (hperm.subset ht') with rfl | ht'
      · exact hquery
      · exact hinv.asked t' ht'
    · rw [hlast, List.length_append]
      exact (hinv.numbered.issue hnext).of_subperm (hperm.append_right _).subperm hperm.subset
    · exact .waiting t (List.mem_append_right _ List.mem_cons_self) rfl

/-- As long as the counter does not wrap, every step keeps the invariant. -/
theorem inv_step (hinv : h.Inv look) (e : Event)
    (hcount : (h.step look e).queries.length < 2 ^ 64) : (h.step look e).Inv look := by
  have hmoves := step_moves look h.now e
  obtain ⟨queries, actions, now⟩ := h
  simp only [History.step] at hcount hmoves ⊢
  generalize now.step look e = next at hmoves ⊢
  obtain ⟨s', action⟩ := next
  cases hmoves with
  | emptied hempty =>
    rw [Option.toList_none, List.append_nil]
    refine inv_signal hinv _ ?_ (.emptied hempty)
    simpa [Event.query] using hcount
  | started hquery =>
    rw [Option.toList_none, List.append_nil]
    refine inv_signal hinv _ ?_ (.started hquery)
    simpa [Event.query] using hcount
  | noTimer | noRequest => simpa [Event.query] using hinv
  | @staleTimer i t hget hstale =>
    simp only [Event.query, Option.toList_none, List.append_nil]
    apply inv_drop hinv (List.eraseIdx_sublist _ i) (List.Sublist.refl _)
    intro t' hcurrent
    exact ⟨mem_eraseIdx hget (by grind), id⟩
  | sent hget hcurrent =>
    simp only [Event.query, Option.toList_none, List.append_nil]
    exact inv_sent hinv hget hcurrent
  | @staleReply i t outcome hget hstale =>
    simp only [Event.query, Option.toList_none, List.append_nil]
    apply inv_drop hinv (List.Sublist.refl _) (List.eraseIdx_sublist _ i)
    intro t' hcurrent
    exact ⟨id, mem_eraseIdx hget (by grind)⟩
  | shown hget hcurrent =>
    simp only [Event.query, Option.toList_none, List.append_nil]
    exact inv_shown hinv hget hcurrent _

theorem inv_history {events : List Event}
    (hcount : (events.filterMap Event.query).length < 2 ^ 64) :
    (history look events).Inv look := by
  have hstep : ∀ (h : History) (e : Event), (h.queries.length < 2 ^ 64 → h.Inv look) → True →
      (h.step look e).queries.length < 2 ^ 64 → (h.step look e).Inv look := by
    intro h e hinv _ hnext
    refine inv_step (hinv ?_) e hnext
    have : h.queries.length ≤ (h.step look e).queries.length := by simp [History.step]
    omega
  have hrun := Runs.invariant_run hstep (fun _ => inv_build)
    (Runs.along_of_forall (fun _ _ _ => trivial) _ : Runs.Along _ _ _ events)
  exact hrun (by rwa [← history, queries_history])

end History

/-! ### The last query -/

/-- The ticket is that of the last signal. -/
def ForLast (queries : List String) (t : Ticket) : Prop :=
  t.generation.toNat = queries.length ∧ queries.getLast? = some t.query

/-- The page once nothing is outstanding: there is no query, or the outcome for it has been shown and
is still there. -/
structure Settled (look : Look) (queries : List String) (h : History) : Prop where
  spinner : h.now.page.spinnerVisible = false
  initial : queries.getLast?.getD "" = "" → h.now.page.screen = .initial
  reply : ∀ query, queries.getLast? = some query → query ≠ "" → ∃ t outcome,
    .shown t outcome ∈ h.actions ∧ ForLast queries t ∧
      h.now.page.screen = .reply look query outcome

section

variable {look} {h : History}

/-- What a step sends or shows is for the last signal. -/
theorem History.Inv.forLast (hinv : h.Inv look) {e : Event} {action : Action}
    (haction : (h.now.step look e).2 = some action) : ForLast h.queries action.ticket := by
  have hmoves := step_moves look h.now e
  rw [haction] at hmoves
  generalize (h.now.step look e).1 = next at hmoves
  cases hmoves with
  | sent hget hcurrent =>
    exact hinv.last (List.mem_append_left _ (List.mem_of_getElem? hget)) hcurrent
  | shown hget hcurrent =>
    exact hinv.last (List.mem_append_right _ (List.mem_of_getElem? hget)) hcurrent

theorem History.Inv.nodup_answered (hinv : h.Inv look) :
    (h.answered.map Ticket.generation).Nodup := by
  have hnumbers := List.Nodup.sublist
    ((List.sublist_append_right h.pending h.answered).map _) hinv.numbered.distinct
  have hcomp : h.answered.map (·.generation.toNat)
      = (h.answered.map Ticket.generation).map UInt64.toNat := by
    rw [List.map_map]
    rfl
  rw [hcomp] at hnumbers
  exact hnumbers.of_map _

/-- With nothing outstanding, the last query has come to its end. -/
theorem History.Inv.settled (hinv : h.Inv look) (htimers : h.now.timers = [])
    (hrequests : h.now.requests = []) : Settled look h.queries h := by
  cases hinv.phase with
  | quiet hempty hspinner hscreen =>
    refine ⟨hspinner, fun _ => hscreen, ?_⟩
    intro query hquery hne
    rw [hquery] at hempty
    exact absurd hempty hne
  | waiting t ht _ => simp [htimers] at ht
  | loading t ht _ => simp [hrequests] at ht
  | done t outcome hshown hcurrent hquery hne hspinner hscreen =>
    refine ⟨hspinner, ?_, ?_⟩
    · intro hempty
      rw [hquery] at hempty
      exact absurd hempty hne
    · intro query hquery'
      obtain rfl : t.query = query := Option.some.inj (hquery.symm.trans hquery')
      intro _
      refine ⟨t, outcome, hshown, ⟨?_, hquery⟩, hscreen⟩
      rw [hcurrent, hinv.counted]

end

/-- Requests are sent and outcomes shown for the last signal alone, each at most once, and once
nothing is outstanding the page shows the outcome for the last query. -/
theorem page_shows_last (events : List Event)
    (hcount : (events.filterMap Event.query).length < 2 ^ 64) :
    let queries := events.filterMap Event.query
    let h := history look events
    (∀ e action, (h.now.step look e).2 = some action → ForLast queries action.ticket) ∧
      (∀ e, (h.now.step look e).1.page.screen = h.now.page.screen ∨
        (e.query = some "" ∧ (h.now.step look e).1.page.screen = .initial) ∨
        ∃ t outcome, (h.now.step look e).2 = some (.shown t outcome) ∧
          (h.now.step look e).1.page.screen = .reply look t.query outcome) ∧
      ((h.actions.filterMap Action.shows).map Ticket.generation).Nodup ∧
      (h.now.timers = [] → h.now.requests = [] → Settled look queries h) := by
  intro queries h
  have hinv : h.Inv look := History.inv_history hcount
  have hqueries : h.queries = queries := queries_history look events
  rw [← hqueries]
  refine ⟨?_, ?_, hinv.nodup_answered, hinv.settled⟩
  · intro e action haction
    exact hinv.forLast haction
  · intro e
    rcases screen_step look h.now e with hsame | ⟨text, rfl, hempty, hscreen⟩ | hshown
    · exact Or.inl hsame
    · exact Or.inr (Or.inl ⟨congrArg some hempty, hscreen⟩)
    · exact Or.inr (Or.inr hshown)

/-- The reply to `sig` comes after that to `signal`, and is dropped. -/
def slowReply : List Event :=
  [.searchChanged "sig", .fires 0, .searchChanged " signal ", .fires 0,
    .replies 1 (.ok [⟨"org.thoughtcrime.securesms", "Signal", none, none, some "7.0", none⟩]),
    .replies 0 (.error "timed out")]

theorem page_shows_last_slowReply :
    Settled ⟨id, toString⟩ (slowReply.filterMap Event.query)
      (history ⟨id, toString⟩ slowReply) :=
  (page_shows_last ⟨id, toString⟩ slowReply (by decide)).2.2.2 (by decide)
    (by decide)

example : (history ⟨id, toString⟩ slowReply).now.page.screen =
    ⟨some [⟨"Signal", "org.thoughtcrime.securesms · 7.0", none,
      ("org.thoughtcrime.securesms", "Signal")⟩], none⟩ := by
  decide

end

end Xylitol.Gui.Discover
