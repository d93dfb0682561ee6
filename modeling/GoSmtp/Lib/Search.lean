import Mathlib.Data.List.GetD

/-!
# Binary search

The least index at which a condition holds, by halving the range it can be in.  The condition
must hold from that index on.
-/

namespace Search

def loop (f : Nat → Bool) (i j : Nat) : Nat :=
  if i < j then
    let h := (i + j) / 2
    if f h then loop f i h else loop f (h + 1) j
  else i
  termination_by j - i

/-- The least index below `n` at which the condition holds, or `n`. -/
def search (n : Nat) (f : Nat → Bool) : Nat := loop f 0 n

theorem loop_spec {f : Nat → Bool} {n i j : Nat} (hle : i ≤ j) (hj : j ≤ n)
    (hmono : ∀ a b, a ≤ b → b < n → f a = true → f b = true)
    (hlow : ∀ a < i, f a = false) (hhigh : ∀ a, j ≤ a → a < n → f a = true) :
  loop f i j ≤ n ∧ (∀ a < loop f i j, f a = false) ∧
    ∀ a, loop f i j ≤ a → a < n → f a = true
  := by
  fun_induction loop with
  | case1 i j hlt h hf ih =>
    apply ih (by omega) (by omega) hlow
    intro a ha han
    exact hmono h a ha han hf
  | case2 i j hlt h hf ih =>
    apply ih (by omega) hj _ hhigh
    intro a ha
    -- The condition would hold at the middle if it held before it.
    rw [← Bool.not_eq_true]
    intro hfa
    exact hf (hmono a h (by omega) (by omega) hfa)
  | case3 i j hlt =>
    obtain rfl : i = j := by omega
    exact ⟨hj, hlow, hhigh⟩

/-- A condition that keeps holding does so from the index found on, and not before it. -/
theorem search_spec {f : Nat → Bool} {n : Nat}
    (hmono : ∀ a b, a ≤ b → b < n → f a = true → f b = true) :
  search n f ≤ n ∧ (∀ a < search n f, f a = false) ∧
    ∀ a, search n f ≤ a → a < n → f a = true
  := by
  apply loop_spec (Nat.zero_le n) (Nat.le_refl n) hmono
  · exact fun a ha => absurd ha (Nat.not_lt_zero a)
  · exact fun a ha han => absurd han (Nat.not_lt.mpr ha)

/-- The index of a key among sorted ones. -/
def lookup (keys : List Nat) (key : Nat) : Option Nat :=
  let i := search keys.length fun i => decide (keys.getD i 0 ≥ key)
  if i < keys.length ∧ keys.getD i 0 = key then some i else none

theorem lookup_some {keys : List Nat} {key i : Nat} (h : lookup keys key = some i) :
  i < keys.length ∧ keys.getD i 0 = key
  := by
  rw [lookup] at h
  split at h
  · next hfound =>
    obtain rfl := Option.some.inj h
    exact hfound
  · exact absurd h (by simp)

theorem lookup_of_not_mem {keys : List Nat} {key : Nat} (h : key ∉ keys) :
  lookup keys key = none
  := by
  rw [Option.eq_none_iff_forall_ne_some]
  intro i hi
  obtain ⟨hlt, hget⟩ := lookup_some hi
  rw [List.getD_eq_getElem _ _ hlt] at hget
  exact h (hget ▸ List.getElem_mem hlt)

/-! ### Intervals -/

/-- The numbers from one to another, both included. -/
structure Interval where
  lo : Nat
  hi : Nat
  deriving DecidableEq, Repr, Inhabited

/-- Intervals in ascending order that have no number in common. -/
structure Intervals where
  ranges : List Interval
  proper : ∀ range ∈ ranges, range.lo ≤ range.hi
  sorted : ranges.Pairwise fun a b => a.hi < b.lo

instance : Membership Nat Intervals where
  mem table r := ∃ range ∈ table.ranges, range.lo ≤ r ∧ r ≤ range.hi

/-- The number is in the first interval that does not end before it. -/
def inTable (table : Intervals) (r : Nat) : Bool :=
  let i := search table.ranges.length fun i => decide (table.ranges[i]!.hi ≥ r)
  decide (i < table.ranges.length) && decide (table.ranges[i]!.lo ≤ r)

theorem inTable_iff {table : Intervals} {r : Nat} :
  inTable table r = true ↔ r ∈ table
  := by
  obtain ⟨ranges, hproper, hsorted⟩ := table
  have hlt {i j : Nat} (hi : i < ranges.length) (hj : j < ranges.length) (hij : i < j) :
      ranges[i].hi < ranges[j].lo :=
    List.pairwise_iff_getElem.mp hsorted i j hi hj hij
  have hle {i : Nat} (hi : i < ranges.length) : ranges[i].lo ≤ ranges[i].hi :=
    hproper _ (List.getElem_mem hi)
  obtain ⟨-, hbefore, hfrom⟩ := search_spec (n := ranges.length)
    (f := fun i => decide (ranges[i]!.hi ≥ r))
    (by
      intro a b hab hb ha
      rw [getElem!_pos ranges a (by omega), decide_eq_true_iff] at ha
      rw [getElem!_pos ranges b hb, decide_eq_true_iff]
      rcases Nat.eq_or_lt_of_le hab with rfl | hab
      · exact ha
      · have hnext := hlt (by omega) hb hab
        have hend := hle hb
        omega)
  simp only [inTable, Bool.and_eq_true, decide_eq_true_eq]
  generalize search ranges.length (fun i => decide (ranges[i]!.hi ≥ r)) = i at hbefore hfrom
  constructor
  · rintro ⟨hi, hlo⟩
    have hhi := hfrom i (Nat.le_refl i) hi
    rw [getElem!_pos ranges i hi] at hlo
    rw [getElem!_pos ranges i hi, decide_eq_true_iff] at hhi
    exact ⟨_, List.getElem_mem hi, hlo, hhi⟩
  · rintro ⟨range, hrange, hlo, hhi⟩
    obtain ⟨j, hj, rfl⟩ := List.mem_iff_getElem.mp hrange
    change j < ranges.length at hj
    change ranges[j].lo ≤ r at hlo
    have hij : i ≤ j := by
      apply Nat.not_lt.mp
      intro hji
      have hend := hbefore j hji
      rw [getElem!_pos ranges j hj, decide_eq_false_iff_not] at hend
      exact hend hhi
    have hi : i < ranges.length := by omega
    refine ⟨hi, ?_⟩
    rw [getElem!_pos ranges i hi]
    rcases Nat.eq_or_lt_of_le hij with rfl | hij
    · exact hlo
    · have hnext := hlt hi hj hij
      have hstart := hle hi
      omega

end Search
