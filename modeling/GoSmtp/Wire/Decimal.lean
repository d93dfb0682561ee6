import GoSmtp.Wire.Command

/-!
# Decimal numbers

Numbers as `strconv` writes and reads them.
-/

namespace GoSmtp

/-- `strconv.Itoa`. -/
def itoa (n : Int) : Bytes := ascii (toString n)

theorem toNat_of_mem_toDigits {n : Nat} {c : Char} (h : c ∈ Nat.toDigits 10 n) :
  48 ≤ c.toNat ∧ c.toNat ≤ 57
  := by
  have hdigit := Nat.isDigit_of_mem_toDigits (by decide) (by decide) h
  simp only [Char.isDigit, Bool.and_eq_true, decide_eq_true_eq, UInt32.le_iff_toNat_le] at hdigit
  exact hdigit

theorem itoa_natCast (n : Nat) :
  itoa n = (Nat.toDigits 10 n).map fun c => c.toNat.toUInt8
  := by
  have hrepr : (toString (n : Int)).toList = Nat.toDigits 10 n := String.toList_ofList
  rw [itoa, ascii, hrepr]

theorem itoa_digits {n : Int} (h : 0 ≤ n) {b : UInt8} (hb : b ∈ itoa n) :
  48 ≤ b ∧ b ≤ 57
  := by
  obtain ⟨k, rfl⟩ := Int.eq_ofNat_of_zero_le h
  rw [itoa_natCast] at hb
  obtain ⟨c, hc, rfl⟩ := List.mem_map.mp hb
  have hdigit := toNat_of_mem_toDigits hc
  simp [UInt8.le_iff_toNat_le]
  omega

theorem itoa_ne_nil (n : Nat) :
  itoa n ≠ []
  := by
  simp [itoa_natCast, Nat.toDigits_ne_nil]

theorem itoa_length_le {n k : Nat} (hk : 0 < k) :
  (itoa n).length ≤ k ↔ n < 10 ^ k
  := by
  rw [itoa_natCast, List.length_map, Nat.length_toDigits_le_iff (by decide) hk]

theorem head_itoa {n : Nat} (h : 0 < n) :
  (itoa n).head? ≠ some 48
  := by
  have hdigit : ∀ n ∈ List.range' 1 9,
      ([Nat.digitChar n].map fun c => c.toNat.toUInt8).head? ≠ some 48 := by decide
  rw [itoa_natCast]
  induction n using Nat.strongRecOn with
  | ind n ih =>
    rw [Nat.toDigits_eq_if (by decide)]
    split
    · next hlt =>
      exact hdigit n (by simp; omega)
    · next hle =>
      have hne : (Nat.toDigits 10 (n / 10)).map (fun c => c.toNat.toUInt8) ≠ [] := by
        simp [Nat.toDigits_ne_nil]
      rw [List.map_append, List.head?_append_of_ne_nil _ hne]
      exact ih (n / 10) (by omega) (by omega)

theorem foldl_itoa (n : Nat) :
  (itoa n).foldl (fun n c => 10 * n + (c.toNat - 48)) 0 = n
  := by
  rw [itoa_natCast, List.foldl_map]
  apply Eq.trans _ (Nat.ofDigitChars_toDigits (b := 10) (by decide) (by decide))
  rw [Nat.ofDigitChars_eq_foldl]
  apply List.foldl_ext
  intro m c hc
  have hlt := toNat_of_mem_toDigits hc
  have hoctet : c.toNat.toUInt8.toNat = c.toNat := by simp; omega
  rw [hoctet]
  rfl

theorem parseUint_itoa {n : Nat} (h : n < 2 ^ 64) :
  parseUint (itoa n) = some n
  := by
  have hdigits : (itoa n).all (fun c => 48 ≤ c && c ≤ 57) = true := by
    simpa using fun c hc => itoa_digits (Int.natCast_nonneg n) hc
  have hempty : (itoa n).isEmpty = false := List.isEmpty_eq_false_iff.mpr (itoa_ne_nil _)
  rw [parseUint]
  simp only [hempty, hdigits, foldl_itoa, if_pos h]
  rfl

/-- `strconv.ParseInt` in base 10 and 64 bits. -/
def parseInt : Bytes → Option Int
  | 43 :: w => (parseUint w).bind fun n => if n < 2 ^ 63 then some n else none
  | 45 :: w => (parseUint w).bind fun n => if n ≤ 2 ^ 63 then some (-n) else none
  | w => (parseUint w).bind fun n => if n < 2 ^ 63 then some n else none

theorem itoa_three {n : Nat} (hlow : 100 ≤ n) (hhigh : n < 1000) :
  itoa n = [(48 + n / 100).toUInt8, (48 + n / 10 % 10).toUInt8, (48 + n % 10).toUInt8]
  := by
  have hdigit : ∀ d ∈ List.range 10, (Nat.digitChar d).toNat.toUInt8 = (48 + d).toUInt8 := by
    decide
  have hsplit : Nat.toDigits 10 n =
      [Nat.digitChar (n / 100), Nat.digitChar (n / 10 % 10), Nat.digitChar (n % 10)] := by
    rw [Nat.toDigits_eq_if (by decide), if_neg (by omega), Nat.toDigits_eq_if (by decide),
      if_neg (by omega), Nat.toDigits_eq_if (by decide), if_pos (by omega), Nat.div_div_eq_div_mul]
    rfl
  rw [itoa_natCast, hsplit]
  simp only [List.map_cons, List.map_nil]
  rw [hdigit _ (by simp; omega), hdigit _ (by simp; omega), hdigit _ (by simp; omega)]

end GoSmtp
