import GoSmtp.Wire.PathStable
import GoSmtp.Wire.Xtext

/-!
# Xtext there and back

What the encoders of xtext write is decoded to what they were given, and stands as the value of
a parameter, which is parsed to itself.
-/

namespace GoSmtp

open Octet

/-! ### One octet -/

/-- How an octet is written. -/
def xtextOf (c : UInt8) : Bytes :=
  if isEscaped c then
    [plus, xtextHexDigits.getD (c >>> 4).toNat 0, xtextHexDigits.getD (c &&& 15).toNat 0]
  else [c]

theorem encodeXtextLoop_eq (b raw : Bytes) :
  encodeXtextLoop xtextHexDigits b raw = b ++ raw.flatMap xtextOf
  := by
  induction raw generalizing b with
  | nil => simp [encodeXtextLoop]
  | cons c raw ih =>
    rw [encodeXtextLoop, List.flatMap_cons, ← List.append_assoc, xtextOf]
    split
    · apply ih
    · apply ih

theorem encodeXtext_eq (raw : Bytes) :
  encodeXtext raw = raw.flatMap xtextOf
  := encodeXtextLoop_eq [] raw

theorem hexVal_digit {n : Nat} (h : n < 16) :
  hexVal (xtextHexDigits.getD n 0) = some (UInt8.ofNat n)
  := by
  revert n
  decide

theorem octet_of_halves (c : UInt8) :
  UInt8.ofNat (c >>> 4).toNat <<< 4 ||| UInt8.ofNat (c &&& 15).toNat = c
  := by
  rw [UInt8.ofNat_toNat, UInt8.ofNat_toNat, ← UInt8.toNat_inj]
  simp only [UInt8.toNat_or, UInt8.toNat_shiftLeft, UInt8.toNat_shiftRight, UInt8.toNat_and,
    UInt8.reduceToNat]
  have hlow : c.toNat &&& 15 = c.toNat % 16 := Nat.and_two_pow_sub_one_eq_mod c.toNat 4
  have hhigh : (c.toNat >>> (4 % 8)) <<< (4 % 8) % 2 ^ 8 = (c.toNat / 16) <<< 4 := by
    have hc := c.toNat_lt
    simp only [Nat.shiftRight_eq_div_pow, Nat.shiftLeft_eq, Nat.reduceMod, Nat.reducePow]
    omega
  rw [hlow, hhigh, ← Nat.shiftLeft_add_eq_or_of_lt (by omega), Nat.shiftLeft_eq]
  omega

theorem digit_in_value {n : Nat} (h : n < 16) :
  !(xtextHexDigits.getD n 0 < 33 || xtextHexDigits.getD n 0 > 126 ||
    xtextHexDigits.getD n 0 == equals)
  := by
  revert n
  decide

theorem high_half_lt (c : UInt8) :
  (c >>> 4).toNat < 16
  := by
  have hc := c.toNat_lt
  simp only [UInt8.toNat_shiftRight, UInt8.reduceToNat, Nat.shiftRight_eq_div_pow,
    Nat.reduceMod, Nat.reducePow]
  omega

theorem low_half_lt (c : UInt8) :
  (c &&& 15).toNat < 16
  := by
  rw [UInt8.toNat_and]
  exact Nat.lt_of_le_of_lt Nat.and_le_right (by decide)

theorem decodeXtext_octet (c : UInt8) (w : Bytes) :
  decodeXtext (xtextOf c ++ w) = (decodeXtext w).map (c :: ·)
  := by
  rw [xtextOf]
  split
  · rw [List.cons_append, List.cons_append, List.cons_append, List.nil_append, decodeXtext]
    simp only [beq_self_eq_true, if_true, hexVal_digit (high_half_lt c),
      hexVal_digit (low_half_lt c), octet_of_halves]
  · next h =>
    simp only [isEscaped, Bool.or_eq_true, not_or, Bool.not_eq_true] at h
    rw [List.cons_append, List.nil_append, decodeXtext.eq_def]
    simp [h]

theorem octet_in_value (c : UInt8) :
  ∀ d ∈ xtextOf c, !(d < 33 || d > 126 || d == equals)
  := by
  intro d hd
  rw [xtextOf] at hd
  split at hd
  · simp only [List.mem_cons, List.not_mem_nil, or_false] at hd
    rcases hd with rfl | rfl | rfl
    · decide
    · apply digit_in_value (high_half_lt c)
    · apply digit_in_value (low_half_lt c)
  · next h =>
    obtain rfl := List.mem_singleton.mp hd
    simp only [isEscaped, Bool.or_eq_true, not_or, Bool.not_eq_true] at h
    simp [h]

/-! ### Texts -/

theorem decodeXtext_encodeXtext (v : Bytes) :
  decodeXtext (encodeXtext v) = some v
  := by
  rw [encodeXtext_eq]
  induction v with
  | nil => rfl
  | cons c v ih => rw [List.flatMap_cons, decodeXtext_octet, ih, Option.map_some]

theorem validateESMTPValue_encodeXtext {v : Bytes} (h : v ≠ []) :
  validateESMTPValue (encodeXtext v) = true
  := by
  have hne : encodeXtext v ≠ [] := by
    obtain ⟨c, v, rfl⟩ := List.exists_cons_of_ne_nil h
    rw [encodeXtext_eq, List.flatMap_cons, xtextOf]
    split <;> simp
  rw [validateESMTPValue, List.isEmpty_eq_false_iff.mpr hne, encodeXtext_eq, Bool.not_false,
    Bool.true_and, List.all_eq_true]
  intro d hd
  obtain ⟨c, _, hd⟩ := List.mem_flatMap.mp hd
  apply octet_in_value c d hd

/-- Both encoders agree, the decoder undoes them, and what they make of a text that is not empty
is the value of a parameter: the encoder of parameters takes it behind every keyword, and among
any other parameters the server parses it back. -/
theorem xtext_there_and_back (v : Bytes) :
  Smtp.encodeXtext v = encodeXtext v
    ∧ decodeXtext (encodeXtext v) = some v
    ∧ (v ≠ [] → validateESMTPValue (encodeXtext v) = true
      ∧ ∀ keyword, validateKeyword keyword = true →
        encodeParam ⟨keyword, encodeXtext v⟩ = some (keyword ++ [equals] ++ encodeXtext v)
        ∧ ∀ before after texts,
          (before ++ ⟨keyword, encodeXtext v⟩ :: after).mapM encodeParam = some texts →
            parsePathParams (precede texts) = .ok (before ++ ⟨keyword, encodeXtext v⟩ :: after))
  := by
  refine ⟨rfl, decodeXtext_encodeXtext v, fun hne => ?_⟩
  have hvalue := validateESMTPValue_encodeXtext hne
  refine ⟨hvalue, fun keyword hkeyword => ⟨?_, fun before after texts htexts => ?_⟩⟩
  · obtain ⟨hfilled, _⟩ := visible_value hvalue
    simp [encodeParam, hkeyword, hvalue, hfilled]
  · apply parsePathParams_of_encodeParam htexts

theorem xtext_there_and_back_plus :
  let v := ascii "a+b =\n"
  encodeXtext v = ascii "a+2Bb+20+3D+0A" ∧
    parsePathParams (precede [ascii "ENVID=a+2Bb+20+3D+0A"])
      = .ok [⟨ascii "ENVID", encodeXtext v⟩]
  := by
  have hparsed := ((xtext_there_and_back (ascii "a+b =\n")).2.2 (by decide)).2 (ascii "ENVID")
    (by decide)
  exact ⟨by decide, hparsed.2 [] [] [ascii "ENVID=a+2Bb+20+3D+0A"] (by decide)⟩

end GoSmtp
