import Mathlib.Data.List.Basic

/-!
# UTF-8

Whether a sequence of octets is UTF-8, as an automaton that reads one octet at a time, and the
first character of a text.  An ASCII octet is a character wherever it stands: a text is valid
exactly if its parts before and after such an octet are.
-/

namespace Utf8

/-- What a character still lacks.  The second octet of some characters has a smaller range. -/
inductive State where
  | start
  | one
  | two
  | three
  | afterE0
  | afterED
  | afterF0
  | afterF4
  deriving DecidableEq, Repr

def between (low high b : UInt8) : Bool := low ≤ b && b ≤ high

/-- An octet that continues a character. -/
def continues (b : UInt8) : Bool := between 0x80 0xBF b

def first (b : UInt8) : Option State :=
  if b < 0x80 then some .start
  else if between 0xC2 0xDF b then some .one
  else if b == 0xE0 then some .afterE0
  else if b == 0xED then some .afterED
  else if between 0xE1 0xEF b then some .two
  else if b == 0xF0 then some .afterF0
  else if between 0xF1 0xF3 b then some .three
  else if b == 0xF4 then some .afterF4
  else none

def step : State → UInt8 → Option State
  | .start, b => first b
  | .one, b => if continues b then some .start else none
  | .two, b => if continues b then some .one else none
  | .three, b => if continues b then some .two else none
  | .afterE0, b => if between 0xA0 0xBF b then some .one else none
  | .afterED, b => if between 0x80 0x9F b then some .one else none
  | .afterF0, b => if between 0x90 0xBF b then some .two else none
  | .afterF4, b => if between 0x80 0x8F b then some .two else none

def run (st : State) : List UInt8 → Option State
  | [] => some st
  | b :: w => (step st b).bind fun st => run st w

/-- The octets are whole characters. -/
def valid (w : List UInt8) : Bool := run .start w == some .start

theorem run_append (st : State) (v w : List UInt8) :
  run st (v ++ w) = (run st v).bind fun st => run st w
  := by
  induction v generalizing st with
  | nil => rfl
  | cons b v ih =>
    simp only [List.cons_append, run]
    cases step st b with
    | none => rfl
    | some st' => simp [ih]

theorem not_between_of_ascii {low high b : UInt8} (hlow : 0x80 ≤ low) (hb : b < 0x80) :
  between low high b = false
  := by
  have hlt : b < low := UInt8.lt_of_lt_of_le hb hlow
  simp [between, UInt8.not_le.mpr hlt]

theorem step_ascii {b : UInt8} (hb : b < 0x80) (st : State) :
  step st b = if st = .start then some .start else none
  := by
  have hcontinues : continues b = false := not_between_of_ascii (by decide) hb
  have hE0 : between 0xA0 0xBF b = false := not_between_of_ascii (by decide) hb
  have hED : between 0x80 0x9F b = false := not_between_of_ascii (by decide) hb
  have hF0 : between 0x90 0xBF b = false := not_between_of_ascii (by decide) hb
  have hF4 : between 0x80 0x8F b = false := not_between_of_ascii (by decide) hb
  cases st <;> simp [step, first, hb, hcontinues, hE0, hED, hF0, hF4]

@[simp]
theorem valid_nil :
  valid [] = true
  := rfl

theorem valid_append_cons {b : UInt8} (hb : b < 0x80) (v w : List UInt8) :
  valid (v ++ b :: w) = (valid v && valid w)
  := by
  rw [valid, valid, valid, run_append]
  cases hv : run .start v with
  | none => rfl
  | some st =>
    simp only [Option.bind_some, run, step_ascii hb]
    by_cases hst : st = .start
    · simp [hst]
    · simp [hst]

theorem valid_cons {b : UInt8} (hb : b < 0x80) (w : List UInt8) :
  valid (b :: w) = valid w
  := by simpa using valid_append_cons hb [] w

/-! ### Characters -/

/-- What a decoder returns in place of octets that are no character. -/
def runeError : Nat := 0xFFFD

/-- The second octet of a character of three octets is in its range. -/
def three (b c : UInt8) : Bool :=
  (b == 0xE0 && between 0xA0 0xBF c) || (b == 0xED && between 0x80 0x9F c) ||
    (between 0xE1 0xEF b && b != 0xED && continues c)

/-- The second octet of a character of four octets is in its range. -/
def four (b c : UInt8) : Bool :=
  (b == 0xF0 && between 0x90 0xBF c) || (between 0xF1 0xF3 b && continues c) ||
    (b == 0xF4 && between 0x80 0x8F c)

/-- The first character of a text that does not begin with an ASCII octet, and its length.  NUL
stands for the octets behind the text, since it continues nothing. -/
def decodeRune (w : List UInt8) : Nat × Nat :=
  let b := w.getD 0 0
  let c := w.getD 1 0
  let d := w.getD 2 0
  let e := w.getD 3 0
  if between 0xC2 0xDF b && continues c then (b.toNat % 32 * 64 + c.toNat % 64, 2)
  else if three b c && continues d then
    (b.toNat % 16 * 4096 + c.toNat % 64 * 64 + d.toNat % 64, 3)
  else if four b c && continues d && continues e then
    (b.toNat % 8 * 262144 + c.toNat % 64 * 4096 + d.toNat % 64 * 64 + e.toNat % 64, 4)
  else (runeError, 1)

theorem le_of_between {low high b : UInt8} (h : between low high b = true) :
  low ≤ b
  := by
  simp only [between, Bool.and_eq_true, decide_eq_true_eq] at h
  exact h.1

theorem le_of_three {b c : UInt8} (h : three b c = true) :
  0x80 ≤ c
  := by
  simp only [three, Bool.or_eq_true, Bool.and_eq_true] at h
  rcases h with (⟨-, h⟩ | ⟨-, h⟩) | ⟨-, h⟩
  · exact UInt8.le_trans (by decide) (le_of_between h)
  · exact le_of_between h
  · exact le_of_between h

theorem le_of_four {b c : UInt8} (h : four b c = true) :
  0x80 ≤ c
  := by
  simp only [four, Bool.or_eq_true, Bool.and_eq_true] at h
  rcases h with (⟨-, h⟩ | ⟨-, h⟩) | ⟨-, h⟩
  · exact UInt8.le_trans (by decide) (le_of_between h)
  · exact le_of_between h
  · exact le_of_between h

theorem take_high {w : List UInt8} {n : Nat} (h : ∀ i < n, 0x80 ≤ w.getD i 0) :
  ∀ b ∈ w.take n, 0x80 ≤ b
  := by
  intro b hb
  obtain ⟨i, hi, rfl⟩ := List.mem_iff_getElem.mp hb
  rw [List.length_take, Nat.lt_min] at hi
  have hget := h i hi.1
  rw [List.getD, List.getElem?_eq_getElem hi.2, Option.getD_some] at hget
  rw [List.getElem_take]
  exact hget

theorem decodeRune_high {w : List UInt8} (h0 : 0x80 ≤ w.getD 0 0) :
  1 ≤ (decodeRune w).2 ∧ ∀ b ∈ w.take (decodeRune w).2, 0x80 ≤ b
  := by
  rw [decodeRune]
  split
  · next h =>
    simp only [Bool.and_eq_true] at h
    refine ⟨by simp, take_high ?_⟩
    intro i hi
    have hi : i = 0 ∨ i = 1 := by omega
    rcases hi with rfl | rfl
    · exact h0
    · exact le_of_between h.2
  · split
    · next h =>
      simp only [Bool.and_eq_true] at h
      refine ⟨by simp, take_high ?_⟩
      intro i hi
      have hi : i = 0 ∨ i = 1 ∨ i = 2 := by omega
      rcases hi with rfl | rfl | rfl
      · exact h0
      · exact le_of_three h.1
      · exact le_of_between h.2
    · split
      · next h =>
        simp only [Bool.and_eq_true] at h
        refine ⟨by simp, take_high ?_⟩
        intro i hi
        have hi : i = 0 ∨ i = 1 ∨ i = 2 ∨ i = 3 := by omega
        rcases hi with rfl | rfl | rfl | rfl
        · exact h0
        · exact le_of_four h.1.1
        · exact le_of_between h.1.2
        · exact le_of_between h.2
      · refine ⟨by decide, take_high ?_⟩
        intro i hi
        have hi : i = 0 := by omega
        subst hi
        exact h0

end Utf8
