import GoSmtp.Client.ReplyCodec
import Mathlib.Data.List.TakeWhile
import Mathlib.Data.Nat.Digits.Defs

/-!
# The grammar of enhanced codes

`ExtractEnhancedCode` finds a code at the beginning of a text exactly if the grammar of RFC 3463
says that there is one, and it undoes `formatEnhancedCode`.
-/

namespace GoSmtp.Client

/-! ### Numbers -/

/-- The value of decimal digits, of which the first is the most significant one. -/
def decimalValue (digits : Bytes) : Nat :=
  Nat.ofDigits 10 (digits.reverse.map fun c => c.toNat - 48)

theorem scannedValue_eq (digits : Bytes) :
  scannedValue digits = decimalValue digits
  := by
  rw [scannedValue, decimalValue, Nat.ofDigits_eq_foldr, List.foldr_map, List.foldr_reverse]
  congr 1
  funext n c
  simp
  omega

theorem scanUpTo3Digits_iff {w : Bytes} {value n : Nat} :
  scanUpTo3Digits w = some (value, n)
    ↔ ∃ digits rest, w = digits ++ rest ∧ IsShortNumber digits
      ∧ rest.head?.any isDigitByte = false ∧ value = decimalValue digits ∧ n = digits.length
  := by
  constructor
  · intro h
    rw [scanUpTo3Digits] at h
    split at h
    · cases h
    · next hne =>
      split at h
      · cases h
      · next hrest =>
        cases h
        have hstart : (w.take 3).takeWhile isDigitByte <+: w :=
          (List.takeWhile_prefix isDigitByte).trans (List.take_prefix 3 w)
        refine ⟨(w.take 3).takeWhile isDigitByte, w.drop _,
          (List.prefix_iff_eq_append.mp hstart).symm, ⟨?_, ?_, ?_⟩, by simpa using hrest,
          scannedValue_eq _, rfl⟩
        · simpa using hne
        · exact (List.takeWhile_prefix isDigitByte).length_le.trans (List.length_take_le 3 w)
        · intro c hc
          exact List.mem_takeWhile_imp hc
  · rintro ⟨digits, rest, rfl, hdigits, hrest, rfl, rfl⟩
    rw [scanUpTo3Digits_append hdigits hrest, scannedValue_eq]

/-! ### Codes -/

/-- The code that a text says. -/
def codeOf (c : UInt8) (subject detail : Bytes) : EnhancedCode where
  cls := (c.toNat - 48 : Nat)
  subject := decimalValue subject
  detail := decimalValue detail
  raw := codeText c subject detail

/-- A text that begins with a code, and what stands behind the code. -/
inductive BeginsWithCode : Bytes → EnhancedCode → Bytes → Prop where
  | alone {c : UInt8} {subject detail : Bytes} (hc : c ∈ [50, 52, 53])
      (hsubject : IsShortNumber subject) (hdetail : IsShortNumber detail) :
      BeginsWithCode (codeText c subject detail) (codeOf c subject detail) []
  | spaced {c : UInt8} {subject detail : Bytes} (hc : c ∈ [50, 52, 53])
      (hsubject : IsShortNumber subject) (hdetail : IsShortNumber detail) (rest : Bytes) :
      BeginsWithCode (codeText c subject detail ++ sp :: rest) (codeOf c subject detail) rest

theorem codeOf_eq (c : UInt8) (subject detail : Bytes) :
  codeOf c subject detail
    = ⟨(c.toNat - 48 : Nat), scannedValue subject, scannedValue detail,
        codeText c subject detail⟩
  := by
  rw [codeOf, scannedValue_eq, scannedValue_eq]

theorem beginsWithCode_of_extractEnhancedCode {text rest : Bytes} {code : EnhancedCode}
    (h : extractEnhancedCode text = some (code, rest)) :
  BeginsWithCode text code rest
  := by
  have hparts : ∃ c subject detail tail, c ∈ [50, 52, 53] ∧ IsShortNumber subject
      ∧ IsShortNumber detail ∧ tail.head?.any isDigitByte = false
      ∧ text = codeText c subject detail ++ tail := by
    rcases text with _ | ⟨c, _ | ⟨d, w⟩⟩
    · cases h
    · cases h
    rw [extractEnhancedCode] at h
    split at h
    · cases h
    next hclass =>
    simp only [Bool.or_eq_true, decide_eq_true_eq, bne_iff_ne, ne_eq, not_or, not_not] at hclass
    obtain ⟨hc, rfl⟩ := hclass
    split at h
    · cases h
    next subject_value n hsubject_scan =>
    obtain ⟨subject, w', rfl, hsubject, _, _, rfl⟩ := scanUpTo3Digits_iff.mp hsubject_scan
    rw [List.drop_left] at h
    split at h
    · cases h
    next d w _ =>
    split at h
    · cases h
    next hdot =>
    obtain rfl : d = dot := by simpa using hdot
    split at h
    · cases h
    next detail_value m hdetail_scan =>
    obtain ⟨detail, tail, rfl, hdetail, htail, _, rfl⟩ := scanUpTo3Digits_iff.mp hdetail_scan
    use c, subject, detail, tail, by simpa using hc, hsubject, hdetail, htail
    simp [codeText]
  obtain ⟨c, subject, detail, tail, hc, hsubject, hdetail, htail, rfl⟩ := hparts
  rw [extractEnhancedCode_codeText hc hsubject hdetail htail, ← codeOf_eq] at h
  cases tail with
  | nil =>
    cases h
    rw [List.append_nil]
    apply BeginsWithCode.alone hc hsubject hdetail
  | cons b tail =>
    obtain ⟨rest, hrest, h⟩ := Option.map_eq_some_iff.mp h
    cases h
    rw [behindCode] at hrest
    split at hrest
    · next hb =>
      cases hrest
      obtain rfl := eq_of_beq hb
      apply BeginsWithCode.spaced hc hsubject hdetail
    · cases hrest

theorem extractEnhancedCode_of_beginsWithCode {text rest : Bytes} {code : EnhancedCode}
    (h : BeginsWithCode text code rest) :
  extractEnhancedCode text = some (code, rest)
  := by
  cases h with
  | @alone c subject detail hc hsubject hdetail =>
    have halone : extractEnhancedCode (codeText c subject detail ++ []) = _ :=
      extractEnhancedCode_codeText hc hsubject hdetail rfl
    rw [List.append_nil, ← codeOf_eq] at halone
    apply halone
  | spaced hc hsubject hdetail rest =>
    have htail : (sp :: rest).head?.any isDigitByte = false := rfl
    rw [extractEnhancedCode_codeText hc hsubject hdetail htail, ← codeOf_eq]
    rfl

/-- A code is extracted from a text exactly if the grammar has it there, with the decimal values
and the text behind it; and a code that the encoder of replies writes in front of any text is
extracted from the two. -/
theorem extractEnhancedCode_exact :
  (∀ text code rest, extractEnhancedCode text = some (code, rest) ↔ BeginsWithCode text code rest)
    ∧ ∀ replyCode enhanced w, formatEnhancedCode replyCode enhanced = .ok w →
      ∀ text, extractEnhancedCode (w ++ sp :: text) = some ({ enhanced with raw := w }, text)
  := by
  constructor
  · intro text code rest
    exact ⟨beginsWithCode_of_extractEnhancedCode, extractEnhancedCode_of_beginsWithCode⟩
  · intro replyCode enhanced w hw text
    apply extractEnhancedCode_format hw
    show isDigitByte sp = false
    decide

theorem extractEnhancedCode_exact_relayed :
  extractEnhancedCode (ascii "5.7.1 relay denied")
    = some (⟨5, 7, 1, ascii "5.7.1"⟩, ascii "relay denied")
  := extractEnhancedCode_exact.2 550 ⟨5, 7, 1, []⟩ (ascii "5.7.1") (by decide) (ascii "relay denied")

end GoSmtp.Client
