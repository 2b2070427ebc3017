import Xylitol.Gui.Rows

/-!
# The library page

The window opens the library once and keeps it in memory. A finished download adds to it and a click
removes from it; both write the index file, and the page is drawn anew except when an addition could
not be written:

    memory    ──Ok──▶  index file, page
              ──Err─▶  a toast

So the page lags behind the memory by the additions that were announced as failed.
-/

namespace Xylitol.Gui

open Apkpure

variable {R J : Type} [DecidableEq R] {g : Setting R J} {w w' : Window R J} {row : R}

namespace Window

/-! ### What is done to the library -/

/-- The entry that is made of a finished download. -/
def Enters (g : Setting R J) (w : Window R J) (row : R) (done : Downloaded) (now : String)
    (entry : Library.Entry) : Prop :=
  ∃ content info, w.machine.disk.read done.path = some content ∧
    Apk.inspect g.tools.env content = .ok info ∧
    entry = ⟨done.path, info, some (g.variant row), now, done.verified⟩

/-- A finished download is entered, written and shown, or a toast says that it was not. -/
theorem finish_cases (g : Setting R J) (w : Window R J) (row : R) (done : Downloaded)
    (faults : Library.Faults) (now : String) :
    let w' := w.finish g row done faults now
    (∃ e, w'.toasts = w.toasts ++ [.notAdded e] ∧ w'.shown = w.shown ∧ w'.machine = w.machine ∧
      (w'.library = w.library ∨
        ∃ entry, Enters g w row done now entry ∧ w'.library = w.library.insert entry.key entry)) ∨
    ∃ entry j, Enters g w row done now entry ∧ w'.library = w.library.insert entry.key entry ∧
      g.tools.json.toVecPretty w'.library = some j ∧ w'.machine = ⟨w.machine.disk, some j⟩ ∧
      w'.shown = Library.entries w'.library ∧ w'.toasts = w.toasts ++ [.saved done.path] := by
  have hadd := add_settle g.tools w.library w.machine faults done.path (some (g.variant row))
    done.verified now
  unfold finish
  dsimp only at hadd ⊢
  rcases hadd with ⟨e, hresult, hindex, hsettle⟩ | ⟨content, info, hread, hinfo, hindex,
    ⟨e, hresult, hsettle⟩ | ⟨j, hj, hresult, hsettle⟩⟩
  · rw [hresult]
    exact Or.inl ⟨e, rfl, rfl, hsettle, Or.inl hindex⟩
  · rw [hresult]
    exact Or.inl ⟨e, rfl, rfl, hsettle, Or.inr ⟨_, ⟨content, info, hread, hinfo, rfl⟩, hindex⟩⟩
  · rw [hresult]
    exact Or.inr ⟨_, j, ⟨content, info, hread, hinfo, rfl⟩, hindex, hj, hsettle, rfl, rfl⟩

/-- A result that is delivered: the download has failed, or is finished. -/
theorem returned_cases (g : Setting R J) (w : Window R J) (n : Nat) (t : Task R)
    (result : Except Apkpure.Error Downloaded) (faults : Library.Faults) (now : String) :
    let w' := w.returned g n t result faults now
    (∃ toast, (toast = .stopped ∨ ∃ e, toast = .failed e) ∧ w'.toasts = w.toasts ++ [toast] ∧
      w'.shown = w.shown ∧ w'.machine = w.machine ∧ w'.library = w.library) ∨
    ∃ done, result = .ok done ∧ w' =
      ((w.setTask n { t with delivered := true }).setRow t.row (·.ended n)).finish g t.row done
        faults now := by
  unfold returned
  dsimp only
  split
  · exact Or.inr ⟨_, rfl, rfl⟩
  · exact Or.inl ⟨_, Or.inl rfl, rfl, rfl, rfl, rfl⟩
  · exact Or.inl ⟨_, Or.inr ⟨_, rfl⟩, rfl, rfl, rfl, rfl⟩

end Window

/-! ### The page and the memory -/

/-- How many additions have failed since the page was last drawn. -/
def lag (toasts : List Toast) : Nat :=
  toasts.foldl (fun n toast => match toast with
    | .notAdded _ => n + 1
    | .saved _ | .removed _ | .alreadyGone | .notRemoved _ => 0
    | .stopped | .failed _ => n) 0

/-- The page shows the library but for the last additions, `n` of them at most. -/
def Lags (n : Nat) (library : Library.Index) (shown : List Library.Entry) : Prop :=
  ∃ (past : Library.Index) (added : List Library.Entry), shown = Library.entries past ∧
    added.length ≤ n ∧ library = added.foldl (fun index e => index.insert e.key e) past

theorem lags_drawn (n : Nat) (library : Library.Index) :
    Lags n library (Library.entries library) :=
  ⟨library, [], rfl, Nat.zero_le n, rfl⟩

theorem Lags.succ {n : Nat} {library : Library.Index} {shown : List Library.Entry}
    (h : Lags n library shown) : Lags (n + 1) library shown := by
  obtain ⟨past, added, hshown, hlen, hlibrary⟩ := h
  exact ⟨past, added, hshown, Nat.le_succ_of_le hlen, hlibrary⟩

theorem Lags.insert {n : Nat} {library : Library.Index} {shown : List Library.Entry}
    (h : Lags n library shown) (entry : Library.Entry) :
    Lags (n + 1) (library.insert entry.key entry) shown := by
  obtain ⟨past, added, hshown, hlen, hlibrary⟩ := h
  refine ⟨past, added ++ [entry], hshown, ?_, ?_⟩
  · rw [List.length_append]
    exact Nat.succ_le_succ hlen
  · rw [List.foldl_append, ← hlibrary]
    rfl

/-- The page shows what is in memory but for the additions that were announced as failed since it was
last drawn. -/
def Drawn (w : Window R J) : Prop := Lags (lag w.toasts) w.library w.shown

theorem drawn_step (h : Drawn w) (e : Event R J) : Drawn (w.step g e) := by
  have hmoves := Window.step_moves g w e
  generalize w.step g e = w' at hmoves
  cases hmoves with
  | idle | clicked | cancelled | worked | updated | elsewhere => exact h
  | removed =>
    -- the page is drawn after every removal, whatever has come of it
    exact lags_drawn _ _
  | @returned n t result faults now hget hphase hnew =>
    unfold Drawn at h ⊢
    rcases Window.returned_cases g w n t result faults now with
      ⟨toast, htoast, htoasts, hshown, -, hlibrary⟩ | ⟨done, -, hfinish⟩
    · rw [hshown, hlibrary, htoasts, lag, List.foldl_append]
      rcases htoast with rfl | ⟨e, rfl⟩ <;> exact h
    · rw [hfinish]
      rcases Window.finish_cases g ((w.setTask n { t with delivered := true }).setRow t.row
        (·.ended n)) t.row done faults now with
        ⟨e, htoasts, hshown, -, hlibrary⟩ | ⟨entry, j, -, hlibrary, -, -, hshown, htoasts⟩
      · rw [hshown, htoasts, lag, List.foldl_append]
        rcases hlibrary with hsame | ⟨entry, -, hinsert⟩
        · rw [hsame]
          exact h.succ
        · rw [hinsert]
          exact h.insert entry
      · rw [hshown]
        exact lags_drawn _ _

/-- In every run the library page lags behind the memory by what was announced. -/
theorem page_drawn (g : Setting R J) (machine : Machine J) (events : List (Event R J)) :
    Drawn (Runs.run (Window.step g) (build g machine) events) := by
  have hstep : ∀ (w : Window R J) (e : Event R J), Drawn w → Drawn (w.step g e) :=
    fun _ e h => drawn_step h e
  have hstart : Drawn (build g machine) := lags_drawn _ _
  exact Runs.invariant_every_run hstep hstart events

end Xylitol.Gui
