import Mathlib

/-!
# Bounded channels

A sender that does not wait drops what finds the channel full. What the receiver gets is then what
was sent with some left out, in order:

    sent       1 2 3 4 5 6 7 8 9
    received   1 2 3                queue   4 5 8
-/

namespace Xylitol

/-- A channel that holds `capacity` items at most. -/
structure Channel (α : Type) (capacity : Nat) where
  queue : List α
  fits : queue.length ≤ capacity

namespace Channel

variable {α : Type} {capacity : Nat} {c : Channel α capacity} {sent received : List α} {x : α}

def empty (α : Type) (capacity : Nat) : Channel α capacity := ⟨[], Nat.zero_le _⟩

/-- Puts an item into the channel, or drops it. -/
def trySend (c : Channel α capacity) (x : α) : Channel α capacity :=
  if h : c.queue.length < capacity then ⟨c.queue ++ [x], by simpa using h⟩ else c

/-- Takes the oldest item out of the channel. -/
def recv (c : Channel α capacity) : Option (α × Channel α capacity) :=
  match h : c.queue with
  | [] => none
  | x :: rest => some (x, ⟨rest, by
      have hfits := c.fits
      rw [h, List.length_cons] at hfits
      exact Nat.le_of_succ_le hfits⟩)

theorem queue_trySend (c : Channel α capacity) (x : α) :
    (c.trySend x).queue = c.queue ++ [x] ∨ (c.trySend x).queue = c.queue := by
  unfold trySend
  split
  · exact Or.inl rfl
  · exact Or.inr rfl

theorem queue_recv {c' : Channel α capacity} (h : c.recv = some (x, c')) :
    c.queue = x :: c'.queue := by
  unfold recv at h
  split at h
  · cases h
  · next hqueue =>
      cases h
      exact hqueue

/-- What was received and what is still to come was sent, in this order. -/
def Carries (c : Channel α capacity) (sent received : List α) : Prop :=
  List.Sublist (received ++ c.queue) sent

theorem carries_empty : (empty α capacity).Carries [] [] := List.Sublist.refl []

theorem Carries.trySend (h : c.Carries sent received) (x : α) :
    (c.trySend x).Carries (sent ++ [x]) received := by
  unfold Carries at h ⊢
  rcases c.queue_trySend x with hqueue | hqueue
  · rw [hqueue, ← List.append_assoc]
    exact h.append (List.Sublist.refl [x])
  · rw [hqueue]
    exact h.trans (List.sublist_append_left sent [x])

theorem Carries.foldl_trySend (h : c.Carries sent received) (xs : List α) :
    (xs.foldl Channel.trySend c).Carries (sent ++ xs) received := by
  induction xs generalizing c sent with
  | nil =>
    rw [List.append_nil]
    exact h
  | cons x xs ih =>
    rw [List.foldl_cons, ← List.singleton_append, ← List.append_assoc]
    exact ih (h.trySend x)

theorem Carries.recv {c' : Channel α capacity} (h : c.Carries sent received)
    (hrecv : c.recv = some (x, c')) : c'.Carries sent (received ++ [x]) := by
  unfold Carries at h ⊢
  rw [queue_recv hrecv] at h
  rw [List.append_assoc, List.singleton_append]
  exact h

theorem Carries.received_sublist (h : c.Carries sent received) : List.Sublist received sent :=
  (List.sublist_append_left received c.queue).trans h

end Channel

end Xylitol
