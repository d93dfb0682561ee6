import GoSmtp.Lib.Utf8

/-!
# Texts as code points

The code points of a text, as a loop over it reads them, and the text of code points.  A loop
reads an octet that begins no character as the replacement character, and so does the text of a
code point that has no encoding.
-/

namespace Utf8

/-- The code point has an encoding: it is in range and no surrogate. -/
def isScalar (r : Nat) : Bool := r < 0xD800 || (0xE000 ≤ r && r < 0x110000)

/-- The first character of a text, and its length. -/
def firstRune : List UInt8 → Nat × Nat
  | [] => (runeError, 0)
  | b :: w => if b < 0x80 then (b.toNat, 1) else decodeRune (b :: w)

def runes : List UInt8 → List Nat
  | [] => []
  | b :: w => (firstRune (b :: w)).1 :: runes (w.drop ((firstRune (b :: w)).2 - 1))
  termination_by w => w.length
  decreasing_by
    rw [List.length_drop, List.length_cons]
    omega

def encodeRune (r : Nat) : List UInt8 :=
  if r < 0x80 then [UInt8.ofNat r]
  else if r < 0x800 then [UInt8.ofNat (0xC0 + r / 64), UInt8.ofNat (0x80 + r % 64)]
  else if r < 0x10000 then
    [UInt8.ofNat (0xE0 + r / 4096), UInt8.ofNat (0x80 + r / 64 % 64), UInt8.ofNat (0x80 + r % 64)]
  else
    [UInt8.ofNat (0xF0 + r / 262144), UInt8.ofNat (0x80 + r / 4096 % 64),
      UInt8.ofNat (0x80 + r / 64 % 64), UInt8.ofNat (0x80 + r % 64)]

/-- What a text says of a code point. -/
def orError (r : Nat) : Nat := if isScalar r then r else runeError

def encode (rs : List Nat) : List UInt8 := rs.flatMap fun r => encodeRune (orError r)

/-! ### Octets as numbers -/

theorem between_ofNat {n : Nat} (hn : n < 256) (low high : UInt8) :
  between low high (UInt8.ofNat n) = decide (low.toNat ≤ n ∧ n ≤ high.toNat)
  := by
  rw [between, Bool.decide_and]
  simp only [UInt8.le_iff_toNat_le, UInt8.toNat_ofNat', Nat.mod_eq_of_lt hn]

theorem beq_ofNat {n : Nat} (hn : n < 256) (b : UInt8) :
  (UInt8.ofNat n == b) = decide (n = b.toNat)
  := by
  rw [Bool.eq_iff_iff, beq_iff_eq, decide_eq_true_iff, ← UInt8.toNat_inj]
  simp only [UInt8.toNat_ofNat', Nat.mod_eq_of_lt hn]

theorem lt_ofNat {n : Nat} (hn : n < 256) (b : UInt8) :
  UInt8.ofNat n < b ↔ n < b.toNat
  := by
  simp only [UInt8.lt_iff_toNat_lt, UInt8.toNat_ofNat', Nat.mod_eq_of_lt hn]

theorem toNat_ofNat {n : Nat} (hn : n < 256) :
  (UInt8.ofNat n).toNat = n
  := by rw [UInt8.toNat_ofNat', Nat.mod_eq_of_lt hn]

theorem continues_ofNat {n : Nat} (hn : n < 64) :
  continues (UInt8.ofNat (0x80 + n)) = true
  := by
  rw [continues, between_ofNat (by omega), decide_eq_true_iff]
  simp only [UInt8.reduceToNat]
  omega

/-! ### Characters of two, three and four octets -/

theorem decodeRune_two {m n : Nat} (hlow : 2 ≤ m) (hm : m < 32) (hn : n < 64) (w : List UInt8) :
  decodeRune (UInt8.ofNat (0xC0 + m) :: UInt8.ofNat (0x80 + n) :: w) = (m * 64 + n, 2)
  := by
  have hfirst : between 0xC2 0xDF (UInt8.ofNat (0xC0 + m)) = true := by
    rw [between_ofNat (by omega), decide_eq_true_iff]
    simp only [UInt8.reduceToNat]
    omega
  simp only [decodeRune, List.getD_cons_zero, List.getD_cons_succ, hfirst, continues_ofNat hn,
    Bool.and_self, if_true, Prod.mk.injEq, and_true]
  rw [toNat_ofNat (by omega), toNat_ofNat (by omega)]
  omega

theorem three_ofNat {l m : Nat} (hl : l < 16) (hm : m < 64) (hlong : 0x20 ≤ l * 64 + m)
    (hscalar : l * 64 + m < 0x360 ∨ 0x380 ≤ l * 64 + m) :
  three (UInt8.ofNat (0xE0 + l)) (UInt8.ofNat (0x80 + m)) = true
  := by
  rw [three, continues_ofNat hm, between_ofNat (by omega), between_ofNat (by omega),
    between_ofNat (by omega), beq_ofNat (by omega), bne, beq_ofNat (by omega)]
  simp only [UInt8.reduceToNat, Bool.or_eq_true, Bool.and_eq_true, decide_eq_true_eq,
    Bool.not_eq_true', decide_eq_false_iff_not, and_true]
  omega

theorem decodeRune_three {l m n : Nat} (hl : l < 16) (hm : m < 64) (hn : n < 64)
    (hlong : 0x20 ≤ l * 64 + m) (hscalar : l * 64 + m < 0x360 ∨ 0x380 ≤ l * 64 + m)
    (w : List UInt8) :
  decodeRune
      (UInt8.ofNat (0xE0 + l) :: UInt8.ofNat (0x80 + m) :: UInt8.ofNat (0x80 + n) :: w) =
    (l * 4096 + m * 64 + n, 3)
  := by
  have hfirst : between 0xC2 0xDF (UInt8.ofNat (0xE0 + l)) = false := by
    rw [between_ofNat (by omega), decide_eq_false_iff_not]
    simp only [UInt8.reduceToNat]
    omega
  simp only [decodeRune, List.getD_cons_zero, List.getD_cons_succ, hfirst, continues_ofNat hn,
    three_ofNat hl hm hlong hscalar, Bool.false_and, Bool.and_self, if_true, Prod.mk.injEq,
    and_true, Bool.false_eq_true, if_false]
  rw [toNat_ofNat (by omega), toNat_ofNat (by omega), toNat_ofNat (by omega)]
  omega

theorem four_ofNat {l m : Nat} (hm : m < 64) (hlong : 0x10 ≤ l * 64 + m)
    (hrange : l * 64 + m < 0x110) :
  four (UInt8.ofNat (0xF0 + l)) (UInt8.ofNat (0x80 + m)) = true
  := by
  rw [four, continues_ofNat hm, between_ofNat (by omega), between_ofNat (by omega),
    between_ofNat (by omega), beq_ofNat (by omega), beq_ofNat (by omega)]
  simp only [UInt8.reduceToNat, Bool.or_eq_true, Bool.and_eq_true, decide_eq_true_eq, and_true]
  omega

theorem decodeRune_four {k l m n : Nat} (hl : l < 64) (hm : m < 64) (hn : n < 64)
    (hlong : 0x10 ≤ k * 64 + l) (hrange : k * 64 + l < 0x110) (w : List UInt8) :
  decodeRune
      (UInt8.ofNat (0xF0 + k) :: UInt8.ofNat (0x80 + l) :: UInt8.ofNat (0x80 + m) ::
        UInt8.ofNat (0x80 + n) :: w) =
    (k * 262144 + l * 4096 + m * 64 + n, 4)
  := by
  have hfirst : between 0xC2 0xDF (UInt8.ofNat (0xF0 + k)) = false := by
    rw [between_ofNat (by omega), decide_eq_false_iff_not]
    simp only [UInt8.reduceToNat]
    omega
  have hsecond (c : UInt8) : three (UInt8.ofNat (0xF0 + k)) c = false := by
    rw [three, between_ofNat (by omega), beq_ofNat (by omega), beq_ofNat (by omega)]
    simp only [UInt8.reduceToNat, show ¬ 0xF0 + k = 224 by omega, show ¬ 0xF0 + k = 237 by omega,
      show ¬ (225 ≤ 0xF0 + k ∧ 0xF0 + k ≤ 239) by omega, decide_false, Bool.false_and,
      Bool.or_self]
  simp only [decodeRune, List.getD_cons_zero, List.getD_cons_succ, hfirst, hsecond,
    continues_ofNat hn, continues_ofNat hm, four_ofNat hl hlong hrange, Bool.false_and,
    Bool.and_self, if_true, Prod.mk.injEq, and_true, Bool.false_eq_true, if_false]
  rw [toNat_ofNat (by omega), toNat_ofNat (by omega), toNat_ofNat (by omega),
    toNat_ofNat (by omega)]
  omega

/-! ### A character there and back -/

theorem firstRune_high {n : Nat} (hlow : 0x80 ≤ n) (hn : n < 256) (w : List UInt8) :
  firstRune (UInt8.ofNat n :: w) = decodeRune (UInt8.ofNat n :: w)
  := by
  rw [firstRune, if_neg]
  rw [lt_ofNat hn]
  exact Nat.not_lt.mpr hlow

theorem firstRune_encodeRune {r : Nat} (hr : isScalar r = true) (w : List UInt8) :
  firstRune (encodeRune r ++ w) = (r, (encodeRune r).length)
  := by
  simp only [isScalar, Bool.or_eq_true, Bool.and_eq_true, decide_eq_true_eq] at hr
  rw [encodeRune]
  split
  · next h =>
    have hlt : UInt8.ofNat r < 0x80 := (lt_ofNat (by omega) _).mpr h
    rw [List.singleton_append, firstRune, if_pos hlt, toNat_ofNat (by omega)]
    rfl
  · split
    · rw [List.cons_append, List.cons_append, List.nil_append,
        firstRune_high (by omega) (by omega), decodeRune_two (by omega) (by omega) (by omega)]
      simp only [List.length_cons, List.length_nil, Prod.mk.injEq, and_true]
      omega
    · split
      · rw [List.cons_append, List.cons_append, List.cons_append, List.nil_append,
          firstRune_high (by omega) (by omega),
          decodeRune_three (by omega) (by omega) (by omega) (by omega) (by omega)]
        simp only [List.length_cons, List.length_nil, Prod.mk.injEq, and_true]
        omega
      · rw [List.cons_append, List.cons_append, List.cons_append, List.cons_append,
          List.nil_append, firstRune_high (by omega) (by omega),
          decodeRune_four (by omega) (by omega) (by omega) (by omega) (by omega)]
        simp only [List.length_cons, List.length_nil, Prod.mk.injEq, and_true]
        omega

theorem encodeRune_ne_nil (r : Nat) :
  encodeRune r ≠ []
  := by
  rw [encodeRune]
  split_ifs <;> simp

theorem runes_encodeRune {r : Nat} (hr : isScalar r = true) (w : List UInt8) :
  runes (encodeRune r ++ w) = r :: runes w
  := by
  have hfirst := firstRune_encodeRune hr w
  obtain ⟨b, v, hv⟩ := List.exists_cons_of_ne_nil (encodeRune_ne_nil r)
  rw [hv, List.cons_append] at hfirst
  rw [hv, List.cons_append, runes, hfirst]
  simp

/-! ### Texts there and back -/

theorem isScalar_orError (r : Nat) :
  isScalar (orError r) = true
  := by
  rw [orError]
  split
  · next h => exact h
  · decide

theorem orError_of_isScalar {r : Nat} (hr : isScalar r = true) :
  orError r = r
  := if_pos hr

@[simp]
theorem encode_nil :
  encode [] = []
  := rfl

theorem encode_cons (r : Nat) (rs : List Nat) :
  encode (r :: rs) = encodeRune (orError r) ++ encode rs
  := List.flatMap_cons

theorem runes_encode (rs : List Nat) :
  runes (encode rs) = rs.map orError
  := by
  induction rs with
  | nil => rw [encode_nil, runes, List.map_nil]
  | cons r rs ih =>
    rw [encode_cons, runes_encodeRune (isScalar_orError r), ih, List.map_cons]

theorem runes_encode_of_isScalar {rs : List Nat} (h : ∀ r ∈ rs, isScalar r = true) :
  runes (encode rs) = rs
  := by
  have hmap : rs.map orError = rs.map id :=
    List.map_congr_left fun r hr => orError_of_isScalar (h r hr)
  rw [runes_encode, hmap, List.map_id]

theorem encode_map_orError (rs : List Nat) :
  encode (rs.map orError) = encode rs
  := by
  rw [encode, encode, List.flatMap_map]
  simp only [orError_of_isScalar (isScalar_orError _)]

/-- Octets that are the text of code points are the text of the code points that a loop reads. -/
theorem encode_runes_encode (rs : List Nat) :
  encode (runes (encode rs)) = encode rs
  := by rw [runes_encode, encode_map_orError]

/-! ### What a loop reads has an encoding -/

theorem isScalar_decodeRune (w : List UInt8) :
  isScalar (decodeRune w).1 = true
  := by
  have hlt (b : UInt8) : b.toNat < 256 := b.toNat_lt
  rw [decodeRune]
  generalize w.getD 0 0 = b
  generalize w.getD 1 0 = c
  generalize w.getD 2 0 = d
  generalize w.getD 3 0 = e
  split
  · simp only [isScalar, Bool.or_eq_true, Bool.and_eq_true, decide_eq_true_eq]
    omega
  · split
    · next h =>
      simp only [three, between, continues, Bool.or_eq_true, Bool.and_eq_true, beq_iff_eq,
        bne_iff_ne, decide_eq_true_eq, UInt8.le_iff_toNat_le, ← UInt8.toNat_inj,
        UInt8.reduceToNat, Ne] at h
      simp only [isScalar, Bool.or_eq_true, Bool.and_eq_true, decide_eq_true_eq]
      omega
    · split
      · next h =>
        simp only [four, between, continues, Bool.or_eq_true, Bool.and_eq_true, beq_iff_eq,
          decide_eq_true_eq, UInt8.le_iff_toNat_le, ← UInt8.toNat_inj, UInt8.reduceToNat] at h
        simp only [isScalar, Bool.or_eq_true, Bool.and_eq_true, decide_eq_true_eq]
        omega
      · decide

theorem isScalar_firstRune (b : UInt8) (w : List UInt8) :
  isScalar (firstRune (b :: w)).1 = true
  := by
  rw [firstRune]
  split
  · have hlt := b.toNat_lt
    simp only [isScalar, Bool.or_eq_true, Bool.and_eq_true, decide_eq_true_eq]
    omega
  · apply isScalar_decodeRune

theorem isScalar_of_mem_runes {w : List UInt8} {r : Nat} (hr : r ∈ runes w) :
  isScalar r = true
  := by
  fun_induction runes with
  | case1 => exact absurd hr List.not_mem_nil
  | case2 b w ih =>
    rcases List.mem_cons.mp hr with rfl | hr
    · apply isScalar_firstRune
    · exact ih hr

/-! ### The text of code points is valid -/

theorem first_ofNat {n : Nat} (hn : n < 256) :
  first (UInt8.ofNat n) =
    if n < 0x80 then some .start
    else if 0xC2 ≤ n ∧ n ≤ 0xDF then some .one
    else if n = 0xE0 then some .afterE0
    else if n = 0xED then some .afterED
    else if 0xE1 ≤ n ∧ n ≤ 0xEF then some .two
    else if n = 0xF0 then some .afterF0
    else if 0xF1 ≤ n ∧ n ≤ 0xF3 then some .three
    else if n = 0xF4 then some .afterF4
    else none
  := by
  simp only [first, lt_ofNat hn, between_ofNat hn, beq_ofNat hn, decide_eq_true_eq,
    UInt8.reduceToNat]

theorem run_continues {n : Nat} (hn : n < 64) (w : List UInt8) :
  run .one (UInt8.ofNat (0x80 + n) :: w) = run .start w ∧
    run .two (UInt8.ofNat (0x80 + n) :: w) = run .one w ∧
    run .three (UInt8.ofNat (0x80 + n) :: w) = run .two w
  := by
  have hcontinues := continues_ofNat hn
  simp only [run, step, hcontinues, if_true, Option.bind_some, and_self]

theorem run_three {l m : Nat} (hl : l < 16) (hm : m < 64) (hlong : 0x20 ≤ l * 64 + m)
    (hscalar : l * 64 + m < 0x360 ∨ 0x380 ≤ l * 64 + m) (w : List UInt8) :
  run .start (UInt8.ofNat (0xE0 + l) :: UInt8.ofNat (0x80 + m) :: w) = run .one w
  := by
  rw [run, step, first_ofNat (by omega), if_neg (by omega), if_neg (by omega)]
  by_cases hzero : l = 0
  · rw [if_pos (by omega), Option.bind_some, run, step, between_ofNat (by omega), if_pos,
      Option.bind_some]
    simp only [UInt8.reduceToNat, decide_eq_true_eq]
    omega
  · rw [if_neg (by omega)]
    by_cases hsurrogate : l = 13
    · rw [if_pos (by omega), Option.bind_some, run, step, between_ofNat (by omega), if_pos,
        Option.bind_some]
      simp only [UInt8.reduceToNat, decide_eq_true_eq]
      omega
    · rw [if_neg (by omega), if_pos (by omega), Option.bind_some]
      exact (run_continues hm w).2.1

theorem run_four {l m : Nat} (hm : m < 64) (hlong : 0x10 ≤ l * 64 + m)
    (hrange : l * 64 + m < 0x110) (w : List UInt8) :
  run .start (UInt8.ofNat (0xF0 + l) :: UInt8.ofNat (0x80 + m) :: w) = run .two w
  := by
  rw [run, step, first_ofNat (by omega), if_neg (by omega), if_neg (by omega), if_neg (by omega),
    if_neg (by omega), if_neg (by omega)]
  by_cases hzero : l = 0
  · rw [if_pos (by omega), Option.bind_some, run, step, between_ofNat (by omega), if_pos,
      Option.bind_some]
    simp only [UInt8.reduceToNat, decide_eq_true_eq]
    omega
  · rw [if_neg (by omega)]
    by_cases hlast : l = 4
    · rw [if_neg (by omega), if_pos (by omega), Option.bind_some, run, step,
        between_ofNat (by omega), if_pos, Option.bind_some]
      simp only [UInt8.reduceToNat, decide_eq_true_eq]
      omega
    · rw [if_pos (by omega), Option.bind_some]
      exact (run_continues hm w).2.2

theorem run_encodeRune {r : Nat} (hr : isScalar r = true) (w : List UInt8) :
  run .start (encodeRune r ++ w) = run .start w
  := by
  simp only [isScalar, Bool.or_eq_true, Bool.and_eq_true, decide_eq_true_eq] at hr
  rw [encodeRune]
  split
  · next h =>
    have hlt : UInt8.ofNat r < 0x80 := (lt_ofNat (by omega) _).mpr h
    rw [List.singleton_append, run, step_ascii hlt, if_pos rfl, Option.bind_some]
  · split
    · rw [List.cons_append, List.cons_append, List.nil_append, run, step,
        first_ofNat (by omega), if_neg (by omega), if_pos (by omega), Option.bind_some]
      exact (run_continues (by omega) w).1
    · split
      · rw [List.cons_append, List.cons_append, List.cons_append, List.nil_append,
          run_three (by omega) (by omega) (by omega) (by omega)]
        exact (run_continues (by omega) w).1
      · rw [List.cons_append, List.cons_append, List.cons_append, List.cons_append,
          List.nil_append, run_four (by omega) (by omega) (by omega),
          (run_continues (by omega) _).2.1]
        exact (run_continues (by omega) w).1

theorem valid_encode (rs : List Nat) :
  valid (encode rs) = true
  := by
  induction rs with
  | nil => rfl
  | cons r rs ih =>
    rw [encode_cons, valid, run_encodeRune (isScalar_orError r)]
    exact ih

end Utf8
