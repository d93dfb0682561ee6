import Mathlib.Data.List.Basic
import Mathlib.Tactic.Common

/-!
# Readers

A reader is a state with a `read` operation that fills a buffer of a given size.  A
meaning of a reader says what the reader delivers in total from each state, without
mention of the buffers: the content, the error it ends with, and the state it ends in.
`Reader.drive` reads with a given sequence of buffer sizes until the first error, and
`Meaning.drive_of_pos` computes it from the meaning: the buffer sizes do not
matter.
-/

/-- What a read returns: the items placed in the buffer, and an error, if any. -/
structure ReadResult (α ε : Type) where
  data : List α
  err : Option ε
  deriving DecidableEq, Repr

namespace ReadResult

variable {α ε : Type}

/-- The items of a sequence of reads. -/
def items (xs : List (ReadResult α ε)) : List α := xs.flatMap (·.data)

/-- The items of a sequence of reads, up to the first error and with the read that reports it. -/
def upToError : List (ReadResult α ε) → List α
  | [] => []
  | ⟨w, some _⟩ :: _ => w
  | ⟨w, none⟩ :: xs => w ++ upToError xs

@[simp]
theorem items_nil :
  items ([] : List (ReadResult α ε)) = []
  := rfl

@[simp]
theorem items_cons (x : ReadResult α ε) (xs : List (ReadResult α ε)) :
  items (x :: xs) = x.data ++ items xs
  := rfl

end ReadResult

/-- A reader with states `σ`, items `α` and errors `ε`: `read n` fills a buffer of size
`n`. -/
structure Reader (σ α ε : Type) where
  read : Nat → σ → ReadResult α ε × σ

namespace Reader

variable {σ α ε : Type}

/-- Read with the buffer sizes of a list, in order, until the first error. -/
def drive (r : Reader σ α ε) : List Nat → σ → ReadResult α ε × σ
  | [], s => (⟨[], none⟩, s)
  | n :: ns, s =>
    match r.read n s with
    | (⟨w, some e⟩, s') => (⟨w, some e⟩, s')
    | (⟨w, none⟩, s') =>
      match drive r ns s' with
      | (⟨v, e⟩, s'') => (⟨w ++ v, e⟩, s'')

/-- Read with a buffer of size `n` until the first error, at most `fuel` times, and
return that error.  The items are discarded. -/
def drain (r : Reader σ α ε) (n : Nat) : Nat → σ → Option ε × σ
  | 0, s => (none, s)
  | fuel + 1, s =>
    match r.read n s with
    | (⟨_, some e⟩, s') => (some e, s')
    | (⟨_, none⟩, s') => drain r n fuel s'

/-- Reads with a buffer of size `n` come from `s` to a first error `e`, in the state `s'`. -/
inductive Stops (r : Reader σ α ε) (n : Nat) : σ → ε → σ → Prop where
  | error {s s' : σ} {w : List α} {e : ε} (h : r.read n s = (⟨w, some e⟩, s')) : Stops r n s e s'
  | more {s s₁ s' : σ} {w : List α} {e : ε} (h : r.read n s = (⟨w, none⟩, s₁))
      (rest : Stops r n s₁ e s') : Stops r n s e s'

theorem Stops.drain {r : Reader σ α ε} {n : Nat} {s s' : σ} {e : ε} (h : r.Stops n s e s') :
  ∃ least, ∀ fuel, least ≤ fuel → r.drain n fuel s = (some e, s')
  := by
  induction h with
  | error h =>
    refine ⟨1, fun fuel hfuel => ?_⟩
    obtain ⟨fuel, rfl⟩ := Nat.exists_eq_add_of_le' hfuel
    simp [Reader.drain, h]
  | more h _ ih =>
    obtain ⟨least, hleast⟩ := ih
    refine ⟨least + 1, fun fuel hfuel => ?_⟩
    obtain ⟨fuel, rfl⟩ := Nat.exists_eq_add_of_le' (Nat.le_of_add_left_le hfuel)
    simp only [Reader.drain, h]
    exact hleast fuel (Nat.le_of_succ_le_succ hfuel)

theorem Stops.of_drain {r : Reader σ α ε} {n fuel : Nat} {s s' : σ} {e : ε}
    (h : r.drain n fuel s = (some e, s')) :
  r.Stops n s e s'
  := by
  induction fuel generalizing s with
  | zero => cases h
  | succ fuel ih =>
    rw [Reader.drain] at h
    rcases hread : r.read n s with ⟨⟨w, _ | e'⟩, s₁⟩ <;> rw [hread] at h
    · exact .more hread (ih h)
    · cases h
      exact .error hread

/-- Read with the buffer sizes of a list, in order, past all errors: what the reads return, and the
state after them. -/
def results (r : Reader σ α ε) : List Nat → σ → List (ReadResult α ε) × σ
  | [], s => ([], s)
  | n :: ns, s => ((r.read n s).1 :: (results r ns (r.read n s).2).1, (results r ns (r.read n s).2).2)

/-- The reader `r` with its errors renamed. -/
def mapErr {ε' : Type} (f : ε → ε') (r : Reader σ α ε) : Reader σ α ε' where
  read n s :=
    match r.read n s with
    | (⟨w, e⟩, s') => (⟨w, e.map f⟩, s')

/-- A meaning of a reader: from the state `s` it delivers `content s`, then the error
`final s` in the state `last s`. -/
structure Meaning (r : Reader σ α ε) where
  content : σ → List α
  final : σ → ε
  last : σ → σ
  /-- A read that is given no room either does nothing or reports the end. -/
  read_zero : ∀ s, r.read 0 s = (⟨[], none⟩, s) ∨
    (content s = [] ∧ r.read 0 s = (⟨[], some (final s)⟩, last s))
  /-- A reader with nothing left to deliver reports the end. -/
  read_done : ∀ n s, content s = [] → r.read (n + 1) s = (⟨[], some (final s)⟩, last s)
  /-- A reader with something left to deliver delivers some of it. -/
  read_more : ∀ n s, content s ≠ [] → ∃ w s', w ≠ [] ∧ r.read (n + 1) s = (⟨w, none⟩, s') ∧
    content s = w ++ content s' ∧ final s' = final s ∧ last s' = last s

namespace Meaning

variable {r : Reader σ α ε} (d : Meaning r)

theorem read_cases (n : Nat) (s : σ) :
  (∃ w s', r.read n s = (⟨w, none⟩, s') ∧ d.content s = w ++ d.content s' ∧
      d.final s' = d.final s ∧ d.last s' = d.last s ∧ (0 < n → w ≠ [])) ∨
    (d.content s = [] ∧ r.read n s = (⟨[], some (d.final s)⟩, d.last s))
  := by
  cases n with
  | zero =>
    rcases d.read_zero s with h | h
    · exact Or.inl ⟨[], s, h, rfl, rfl, rfl, by simp⟩
    · exact Or.inr h
  | succ n =>
    by_cases hc : d.content s = []
    · exact Or.inr ⟨hc, d.read_done n s hc⟩
    · obtain ⟨w, s', hw, h, happ, hf, hl⟩ := d.read_more n s hc
      exact Or.inl ⟨w, s', h, happ, hf, hl, fun _ => hw⟩

/-- A reader whose end is final: from there it reports the same end again. -/
structure Sticky : Prop where
  content : ∀ s, d.content (d.last s) = []
  final : ∀ s, d.final (d.last s) = d.final s
  last : ∀ s, d.last (d.last s) = d.last s

/-- The meaning of a reader with renamed errors. -/
def mapErr {ε' : Type} (f : ε → ε') : Meaning (r.mapErr f) where
  content := d.content
  final s := f (d.final s)
  last := d.last
  read_zero s := by
    rcases d.read_zero s with h | ⟨hc, h⟩
    · exact Or.inl (by simp [Reader.mapErr, h])
    · exact Or.inr ⟨hc, by simp [Reader.mapErr, h]⟩
  read_done n s hc := by simp [Reader.mapErr, d.read_done n s hc]
  read_more n s hc := by
    obtain ⟨w, s', hw, h, happ, hf, hl⟩ := d.read_more n s hc
    exact ⟨w, s', hw, by simp [Reader.mapErr, h], happ, by rw [hf], hl⟩

theorem Sticky.mapErr {ε' : Type} (f : ε → ε') (h : d.Sticky) :
  (d.mapErr f).Sticky
  where
  content := h.content
  final s := by simp [Meaning.mapErr, h.final]
  last := h.last

/-- Reading with any buffer sizes delivers the whole content and then the final error,
or else a prefix of the content and no error, in a state that delivers the rest. -/
theorem drive_cases (ns : List Nat) (s : σ) :
  r.drive ns s = (⟨d.content s, some (d.final s)⟩, d.last s) ∨
    ∃ w s', r.drive ns s = (⟨w, none⟩, s') ∧ d.content s = w ++ d.content s' ∧
      d.final s' = d.final s ∧ d.last s' = d.last s
  := by
  induction ns generalizing s with
  | nil => exact Or.inr ⟨[], s, rfl, rfl, rfl, rfl⟩
  | cons n ns ih =>
    cases n with
    | zero =>
      rcases d.read_zero s with h | ⟨hc, h⟩
      · simp only [drive, h, List.nil_append]
        apply ih
      · left
        simp only [drive, h, hc]
    | succ n =>
      by_cases hc : d.content s = []
      · left
        simp only [drive, d.read_done n s hc, hc]
      · obtain ⟨w, s', -, h, hw, hf, hl⟩ := d.read_more n s hc
        rcases ih s' with h' | ⟨v, s'', h', hv, hf', hl'⟩
        · left
          simp only [drive, h, h', hw, hf, hl]
        · right
          use w ++ v, s''
          simp only [drive, h, h', hw, hv, hf', hf, hl', hl, List.append_assoc, and_self]

/-- An error reported to a sequence of reads is the final error, and the whole content
has been delivered before it. -/
theorem drive_some {ns : List Nat} {s s' : σ} {w : List α} {e : ε}
    (h : r.drive ns s = (⟨w, some e⟩, s')) :
  w = d.content s ∧ e = d.final s ∧ s' = d.last s
  := by
  rcases d.drive_cases ns s with h' | ⟨v, t, h', -⟩
  · rw [h] at h'
    simpa [and_assoc] using h'
  · rw [h] at h'
    simp at h'

/-- Reads of positive sizes, more of them than there are items to deliver, deliver the
whole content and the final error. -/
theorem drive_of_pos {ns : List Nat} {s : σ} (hpos : ∀ n ∈ ns, 0 < n)
    (hlen : (d.content s).length < ns.length) :
  r.drive ns s = (⟨d.content s, some (d.final s)⟩, d.last s)
  := by
  induction ns generalizing s with
  | nil => simp at hlen
  | cons n ns ih =>
    obtain ⟨n, rfl⟩ : ∃ m, n = m + 1 := Nat.exists_eq_add_one.mpr (hpos n (by simp))
    by_cases hc : d.content s = []
    · simp only [drive, d.read_done n s hc, hc]
    · obtain ⟨w, s', hw, h, happ, hf, hl⟩ := d.read_more n s hc
      have hw' : 0 < w.length := List.length_pos_iff.mpr hw
      have hlen' : (d.content s').length < ns.length := by
        rw [happ, List.length_append, List.length_cons] at hlen
        omega
      have hpos' : ∀ m ∈ ns, 0 < m := fun m hm => hpos m (by simp [hm])
      simp only [drive, h, ih hpos' hlen', happ, hf, hl]

end Meaning

end Reader
