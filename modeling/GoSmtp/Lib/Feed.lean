import Mathlib.Data.List.Basic

/-!
# Feeds

A feed is what a buffered reader can still obtain from the other side of a connection:
a sequence of items, interrupted by faults.  A fault is reported once, to the operation
that runs into it, and does not end the feed: an expired deadline may be followed by
further items.  The end of the list is the end of the connection, reported every time.
-/

/-- An event of a feed: an item, or a fault in its place. -/
inductive Event (α φ : Type) where
  | item : α → Event α φ
  | fault : φ → Event α φ
  deriving DecidableEq, Repr

/-- The events still to come. -/
abbrev Feed (α φ : Type) := List (Event α φ)

/-- Why an operation on a feed obtained nothing: the feed has ended, or a fault. -/
inductive FeedError (φ : Type) where
  | ended : FeedError φ
  | fault : φ → FeedError φ
  deriving DecidableEq, Repr

namespace Feed

variable {α φ : Type}

/-- The feed of the items `w`, without a fault. -/
def items (w : List α) : Feed α φ := w.map Event.item

@[simp]
theorem items_nil :
  (items [] : Feed α φ) = []
  := rfl

@[simp]
theorem items_cons (a : α) (w : List α) :
  (items (a :: w) : Feed α φ) = Event.item a :: items w
  := rfl

@[simp]
theorem items_append (v w : List α) :
  (items (v ++ w) : Feed α φ) = items v ++ items w
  := List.map_append

theorem items_injective {v w : List α} (h : (items v : Feed α φ) = items w) :
  v = w
  := by
  apply List.map_injective_iff.mpr _ h
  intro a b hab
  exact Event.item.inj hab

/-- The items of a feed, without the faults. -/
def payload : Feed α φ → List α
  | [] => []
  | .item a :: s => a :: payload s
  | .fault _ :: s => payload s

@[simp]
theorem payload_items (w : List α) :
  (items w : Feed α φ).payload = w
  := by
  induction w with
  | nil => rfl
  | cons a w ih => simp [payload, ih]

@[simp]
theorem payload_items_append (w : List α) (s : Feed α φ) :
  (items w ++ s).payload = w ++ s.payload
  := by
  induction w with
  | nil => rfl
  | cons a w ih => simp [payload, ih]

/-- The first item, with the feed after it. -/
def next : Feed α φ → Except (FeedError φ) α × Feed α φ
  | [] => (.error .ended, [])
  | .fault e :: s => (.error (.fault e), s)
  | .item a :: s => (.ok a, s)

/-- The first `n` items, left in the feed.  A fault among them is consumed and
reported, the items before it stay. -/
def peek : Nat → Feed α φ → Except (FeedError φ) (List α) × Feed α φ
  | 0, s => (.ok [], s)
  | _ + 1, [] => (.error .ended, [])
  | _ + 1, .fault e :: s => (.error (.fault e), s)
  | n + 1, .item a :: s =>
    match peek n s with
    | (.ok w, s') => (.ok (a :: w), .item a :: s')
    | (.error e, s') => (.error e, .item a :: s')

/-- Up to `n` items, stopping early only at a fault or at the end of the feed. -/
def take : Nat → Feed α φ → List α × Option (FeedError φ) × Feed α φ
  | 0, s => ([], none, s)
  | _ + 1, [] => ([], some .ended, [])
  | _ + 1, .fault e :: s => ([], some (.fault e), s)
  | n + 1, .item a :: s =>
    match take n s with
    | (w, e, s') => (a :: w, e, s')

theorem take_eq_none {n : Nat} {s s' : Feed α φ} {w : List α} (h : take n s = (w, none, s')) :
  w.length = n ∧ s = items w ++ s'
  := by
  induction n generalizing s w with
  | zero =>
    cases h
    simp
  | succ n ih =>
    match s with
    | [] => cases h
    | .fault e :: s => cases h
    | .item a :: s =>
      simp only [take] at h
      generalize ht : take n s = t at h
      obtain ⟨v, e, r⟩ := t
      simp only [Prod.mk.injEq] at h
      obtain ⟨rfl, rfl, rfl⟩ := h
      obtain ⟨hlen, rfl⟩ := ih ht
      simp [hlen]

theorem take_items_append (w : List α) (s : Feed α φ) :
  take w.length (items w ++ s) = (w, none, s)
  := by
  induction w with
  | nil => rfl
  | cons a w ih => simp [take, ih]

end Feed
