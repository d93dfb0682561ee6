import GoSmtp.Unicode.Equivalence

/-!
# SASLprep

Strings are mapped, normalized, and checked for prohibited characters and for their direction.
The three large tables are parameters; the tables of what is mapped and of what is always
prohibited are those of the source.
-/

namespace GoSmtp.Unicode

open Search (Interval Intervals inTable)

variable {out s : List UInt8} {prohibitUnassigned : Bool} {r : Rune}

/-! ### Tables -/

def tableB1 : Intervals where
  ranges := [
    ⟨0xAD, 0xAD⟩, ⟨0x34F, 0x34F⟩, ⟨0x1806, 0x1806⟩, ⟨0x180B, 0x180D⟩, ⟨0x200B, 0x200D⟩,
    ⟨0x2060, 0x2060⟩, ⟨0xFE00, 0xFE0F⟩, ⟨0xFEFF, 0xFEFF⟩]
  proper := by decide
  sorted := by decide

def tableC12 : Intervals where
  ranges := [
    ⟨0xA0, 0xA0⟩, ⟨0x1680, 0x1680⟩, ⟨0x2000, 0x200B⟩, ⟨0x202F, 0x202F⟩, ⟨0x205F, 0x205F⟩,
    ⟨0x3000, 0x3000⟩]
  proper := by decide
  sorted := by decide

def tableC21 : Intervals where
  ranges := [⟨0x0, 0x1F⟩, ⟨0x7F, 0x7F⟩]
  proper := by decide
  sorted := by decide

def tableC22 : Intervals where
  ranges := [
    ⟨0x80, 0x9F⟩, ⟨0x6DD, 0x6DD⟩, ⟨0x70F, 0x70F⟩, ⟨0x180E, 0x180E⟩, ⟨0x200C, 0x200D⟩,
    ⟨0x2028, 0x2029⟩, ⟨0x2060, 0x2063⟩, ⟨0x206A, 0x206F⟩, ⟨0xFEFF, 0xFEFF⟩,
    ⟨0xFFF9, 0xFFFC⟩, ⟨0x1D173, 0x1D17A⟩]
  proper := by decide
  sorted := by decide

def tableC3 : Intervals where
  ranges := [⟨0xE000, 0xF8FF⟩, ⟨0xF0000, 0xFFFFD⟩, ⟨0x100000, 0x10FFFD⟩]
  proper := by decide
  sorted := by decide

def tableC4 : Intervals where
  ranges := [
    ⟨0xFDD0, 0xFDEF⟩, ⟨0xFFFE, 0xFFFF⟩, ⟨0x1FFFE, 0x1FFFF⟩, ⟨0x2FFFE, 0x2FFFF⟩,
    ⟨0x3FFFE, 0x3FFFF⟩, ⟨0x4FFFE, 0x4FFFF⟩, ⟨0x5FFFE, 0x5FFFF⟩, ⟨0x6FFFE, 0x6FFFF⟩,
    ⟨0x7FFFE, 0x7FFFF⟩, ⟨0x8FFFE, 0x8FFFF⟩, ⟨0x9FFFE, 0x9FFFF⟩, ⟨0xAFFFE, 0xAFFFF⟩,
    ⟨0xBFFFE, 0xBFFFF⟩, ⟨0xCFFFE, 0xCFFFF⟩, ⟨0xDFFFE, 0xDFFFF⟩, ⟨0xEFFFE, 0xEFFFF⟩,
    ⟨0xFFFFE, 0xFFFFF⟩, ⟨0x10FFFE, 0x10FFFF⟩]
  proper := by decide
  sorted := by decide

def tableC5 : Intervals where
  ranges := [⟨0xD800, 0xDFFF⟩]
  proper := by decide
  sorted := by decide

def tableC6 : Intervals where
  ranges := [⟨0xFFF9, 0xFFFD⟩]
  proper := by decide
  sorted := by decide

def tableC7 : Intervals where
  ranges := [⟨0x2FF0, 0x2FFB⟩]
  proper := by decide
  sorted := by decide

def tableC8 : Intervals where
  ranges := [⟨0x340, 0x341⟩, ⟨0x200E, 0x200F⟩, ⟨0x202A, 0x202E⟩, ⟨0x206A, 0x206F⟩]
  proper := by decide
  sorted := by decide

def tableC9 : Intervals where
  ranges := [⟨0xE0001, 0xE0001⟩, ⟨0xE0020, 0xE007F⟩]
  proper := by decide
  sorted := by decide

structure ProhibitedTable where
  rfcTable : String
  table : Intervals

/-- What every profile prohibits. -/
def prohibitedTables : List ProhibitedTable := [
  ⟨"C.1.2 (non-ASCII space character)", tableC12⟩,
  ⟨"C.2.1 (ASCII control character)", tableC21⟩,
  ⟨"C.2.2 (non-ASCII control character)", tableC22⟩,
  ⟨"C.3 (private use code point)", tableC3⟩,
  ⟨"C.4 (non-character code point)", tableC4⟩,
  ⟨"C.5 (surrogate code point)", tableC5⟩,
  ⟨"C.6 (inappropriate for plain text)", tableC6⟩,
  ⟨"C.7 (inappropriate for canonical representation)", tableC7⟩,
  ⟨"C.8 (changes display properties, or deprecated)", tableC8⟩,
  ⟨"C.9 (tagging character)", tableC9⟩]

/-- The tables of the normalizer, the code points that Unicode 3.2 does not assign (A.1), and
those written from right to left (D.1) and from left to right (D.2). -/
structure PrepTables where
  norm : Tables
  a1 : Intervals
  d1 : Intervals
  d2 : Intervals

/-! ### Errors -/

/-- None of the errors says more of the string than one code point. -/
inductive PrepError where
  | invalidUTF8
  | unassigned (r : Rune)
  | prohibited (rfcTable : String) (r : Rune)
  | mixedDirections (r : Rune)
  | badStart (r : Rune)
  | badEnd (r : Rune)
  deriving DecidableEq, Repr

/-- The code point in at least four upper-case hexadecimal digits. -/
def formatRune (r : Rune) : String :=
  let digits := (Nat.toDigits 16 r).map Char.toUpper
  "U+" ++ String.ofList (List.replicate (4 - digits.length) '0' ++ digits)

def PrepError.message : PrepError → String
  | .invalidUTF8 => "saslprep: invalid UTF-8"
  | .unassigned r =>
    "saslprep: prohibited by RFC 3454 Table A.1 (unassigned code point in Unicode 3.2): " ++
      formatRune r
  | .prohibited rfcTable r =>
    "saslprep: prohibited by RFC 3454 Table " ++ rfcTable ++ ": " ++ formatRune r
  | .mixedDirections r =>
    "saslprep: bidi check failed (RFC 3454 Section 6): string contains a RandALCat " ++
      "(Table D.1) character and also an LCat (Table D.2) character: " ++ formatRune r
  | .badStart r =>
    "saslprep: bidi check failed (RFC 3454 Section 6): a RandALCat (Table D.1) string must " ++
      "start with a RandALCat character, but the first character is " ++ formatRune r
  | .badEnd r =>
    "saslprep: bidi check failed (RFC 3454 Section 6): a RandALCat (Table D.1) string must " ++
      "end with a RandALCat character, but the last character is " ++ formatRune r

/-! ### The four steps -/

/-- What a rune is mapped to.  U+200B is in both tables, and is mapped to nothing. -/
def mapRune (r : Rune) : List Rune :=
  if inTable tableB1 r then [] else if inTable tableC12 r then [0x20] else [r]

def mapChars (s : List UInt8) : List UInt8 := Utf8.encode ((Utf8.runes s).flatMap mapRune)

namespace PrepTables

def checkRunes (t : PrepTables) (prohibitUnassigned : Bool) : List Rune → Except PrepError Unit
  | [] => .ok ()
  | r :: runes =>
    if prohibitUnassigned && inTable t.a1 r then .error (.unassigned r)
    else
      match prohibitedTables.find? fun pt => inTable pt.table r with
      | some pt => .error (.prohibited pt.rfcTable r)
      | none => t.checkRunes prohibitUnassigned runes

def checkProhibited (t : PrepTables) (s : List UInt8) (prohibitUnassigned : Bool) :
    Except PrepError Unit :=
  t.checkRunes prohibitUnassigned (Utf8.runes s)

def checkBidi (t : PrepTables) (s : List UInt8) : Except PrepError Unit :=
  match Utf8.runes s with
  | [] => .ok ()
  | first :: rest =>
    let runes := first :: rest
    let hasRandALCat := runes.any (inTable t.d1)
    if !hasRandALCat then .ok ()
    else
      match runes.find? (inTable t.d2) with
      | some r => .error (.mixedDirections r)
      | none =>
        if !inTable t.d1 first then .error (.badStart first)
        else
          let last := runes.getLastD first
          if !inTable t.d1 last then .error (.badEnd last) else .ok ()

def prepareWith (t : PrepTables) (s : List UInt8) (prohibitUnassigned : Bool) :
    Except PrepError (List UInt8) := do
  if !Utf8.valid s then throw .invalidUTF8
  let mapped := mapChars s
  let normalized := t.norm.nfkc mapped
  t.checkProhibited normalized prohibitUnassigned
  t.checkBidi normalized
  return normalized

def prepare (t : PrepTables) (s : List UInt8) : Except PrepError (List UInt8) :=
  t.prepareWith s false

def prepareStored (t : PrepTables) (s : List UInt8) : Except PrepError (List UInt8) :=
  t.prepareWith s true

/-! ### What the checks accept -/

theorem checkRunes_ok {t : PrepTables} {runes : List Rune} :
  t.checkRunes prohibitUnassigned runes = .ok () ↔
    (∀ r ∈ runes, ∀ pt ∈ prohibitedTables, r ∉ pt.table) ∧
      (prohibitUnassigned = true → ∀ r ∈ runes, r ∉ t.a1)
  := by
  induction runes with
  | nil => simp [checkRunes]
  | cons r runes ih =>
    rw [checkRunes, List.forall_mem_cons, List.forall_mem_cons]
    split
    · next h =>
      rw [Bool.and_eq_true, Search.inTable_iff] at h
      simp [h.1, h.2]
    · next h =>
      rw [Bool.and_eq_true, Search.inTable_iff, not_and] at h
      split
      · next pt hfind =>
        have hin : inTable pt.table r = true :=
          List.find?_some (p := fun pt : ProhibitedTable => inTable pt.table r) hfind
        have hmem := List.mem_of_find?_eq_some hfind
        simp only [reduceCtorEq, false_iff]
        rintro ⟨⟨hclean, -⟩, -⟩
        exact hclean pt hmem (Search.inTable_iff.mp hin)
      · next hfind =>
        have hclean : ∀ pt ∈ prohibitedTables, r ∉ pt.table := by
          intro pt hpt hr
          exact List.find?_eq_none.mp hfind pt hpt (Search.inTable_iff.mpr hr)
        rw [ih]
        tauto

/-- A text with a character that is written from right to left begins and ends with one, and
has none that is written from left to right. -/
def BidiRule (t : PrepTables) (runes : List Rune) : Prop :=
  (∃ r ∈ runes, r ∈ t.d1) →
    (∀ r ∈ runes, r ∉ t.d2) ∧ (∀ r, runes.head? = some r → r ∈ t.d1) ∧
      ∀ r, runes.getLast? = some r → r ∈ t.d1

theorem checkBidi_ok {t : PrepTables} :
  t.checkBidi s = .ok () ↔ t.BidiRule (Utf8.runes s)
  := by
  rw [checkBidi, BidiRule]
  cases Utf8.runes s with
  | nil => simp
  | cons first rest =>
    have hany : (first :: rest).any (inTable t.d1) = true ↔ ∃ r ∈ first :: rest, r ∈ t.d1 := by
      simp only [List.any_eq_true, Search.inTable_iff]
    have hlast : (first :: rest).getLast? = some ((first :: rest).getLastD first) := by
      rw [List.getLast?_eq_some_getLast (List.cons_ne_nil _ _), List.getLastD_cons,
        List.getLast_eq_getLastD]
    simp only [hlast, List.head?_cons, Option.some.injEq, forall_eq']
    by_cases hrtl : ∃ r ∈ first :: rest, r ∈ t.d1
    · rw [hany.mpr hrtl]
      simp only [Bool.not_true, Bool.false_eq_true, if_false, hrtl, true_implies]
      split
      · next r hfind =>
        have hin : inTable t.d2 r = true := List.find?_some hfind
        have hmem := List.mem_of_find?_eq_some hfind
        simp only [reduceCtorEq, false_iff]
        rintro ⟨hclean, -⟩
        exact hclean r hmem (Search.inTable_iff.mp hin)
      · next hfind =>
        have hclean : ∀ r ∈ first :: rest, r ∉ t.d2 := by
          intro r hr hin
          exact List.find?_eq_none.mp hfind r hr (Search.inTable_iff.mpr hin)
        rw [and_iff_right hclean, ← Search.inTable_iff, ← Search.inTable_iff]
        cases inTable t.d1 first with
        | false => simp
        | true => cases inTable t.d1 ((first :: rest).getLastD first) <;> simp
    · have hnone : (first :: rest).any (inTable t.d1) = false := by
        rw [← Bool.not_eq_true, hany]
        exact hrtl
      rw [hnone]
      exact iff_of_true rfl fun h => absurd h hrtl

/-- No code point of a table that is always prohibited. -/
def Clean (runes : List Rune) : Prop := ∀ r ∈ runes, ∀ pt ∈ prohibitedTables, r ∉ pt.table

theorem prepareWith_ok {t : PrepTables} :
  t.prepareWith s prohibitUnassigned = .ok out ↔
    Utf8.valid s = true ∧ out = t.norm.nfkc (mapChars s) ∧ Clean (Utf8.runes out) ∧
      (prohibitUnassigned = true → ∀ r ∈ Utf8.runes out, r ∉ t.a1) ∧
      t.BidiRule (Utf8.runes out)
  := by
  rw [prepareWith]
  cases hvalid : Utf8.valid s with
  | false =>
    simp only [Bool.false_eq_true, false_and, iff_false]
    rintro ⟨⟩
  | true =>
    simp only [Bool.not_true, Bool.false_eq_true, if_false, true_and]
    generalize t.norm.nfkc (mapChars s) = normalized
    rw [Clean]
    constructor
    · intro h
      cases hprohibited : t.checkProhibited normalized prohibitUnassigned with
      | error e =>
        rw [hprohibited] at h
        cases h
      | ok u =>
        cases hbidi : t.checkBidi normalized with
        | error e =>
          rw [hprohibited, hbidi] at h
          cases h
        | ok v =>
          rw [hprohibited, hbidi] at h
          obtain rfl : normalized = out := Except.ok.inj h
          obtain ⟨hclean, hassigned⟩ := checkRunes_ok.mp hprohibited
          exact ⟨rfl, hclean, hassigned, checkBidi_ok.mp hbidi⟩
    · rintro ⟨rfl, hclean, hassigned, hbidi⟩
      have hprohibited : t.checkProhibited out prohibitUnassigned = .ok () :=
        checkRunes_ok.mpr ⟨hclean, hassigned⟩
      rw [hprohibited, checkBidi_ok.mpr hbidi]
      rfl

/-! ### Mapping and normalizing twice -/

theorem not_mem_tableB1_of_mapRune {c : Rune} (hr : r ∈ mapRune c) :
  r ∉ tableB1
  := by
  rw [mapRune] at hr
  split at hr
  · exact absurd hr List.not_mem_nil
  · next hB1 =>
    split at hr
    · rw [List.mem_singleton] at hr
      rw [hr, ← Search.inTable_iff]
      decide +kernel
    · rw [List.mem_singleton] at hr
      rw [hr, ← Search.inTable_iff]
      exact hB1

theorem mapChars_removes (hr : r ∈ Utf8.runes (mapChars s)) :
  r ∉ tableB1
  := by
  have hscalar : ∀ r ∈ (Utf8.runes s).flatMap mapRune, Utf8.isScalar r = true := by
    intro r hr
    obtain ⟨c, hc, hr⟩ := List.mem_flatMap.mp hr
    rw [mapRune] at hr
    split at hr
    · exact absurd hr List.not_mem_nil
    · split at hr
      · rw [List.mem_singleton.mp hr]
        decide
      · rw [List.mem_singleton.mp hr]
        exact Utf8.isScalar_of_mem_runes hc
  rw [mapChars, Utf8.runes_encode_of_isScalar hscalar] at hr
  obtain ⟨c, -, hr⟩ := List.mem_flatMap.mp hr
  exact not_mem_tableB1_of_mapRune hr

theorem mapChars_of_clean {rs : List Rune}
    (h : ∀ r ∈ Utf8.runes (Utf8.encode rs), r ∉ tableB1 ∧ r ∉ tableC12) :
  mapChars (Utf8.encode rs) = Utf8.encode rs
  := by
  have hmap : (Utf8.runes (Utf8.encode rs)).flatMap mapRune = Utf8.runes (Utf8.encode rs) := by
    generalize Utf8.runes (Utf8.encode rs) = runes at h
    induction runes with
    | nil => rfl
    | cons r runes ih =>
      obtain ⟨⟨hB1, hC12⟩, hrest⟩ := List.forall_mem_cons.mp h
      rw [← Search.inTable_iff] at hB1 hC12
      rw [List.flatMap_cons, ih hrest, mapRune, if_neg hB1, if_neg hC12, List.singleton_append]
  rw [mapChars, hmap, Utf8.encode_runes_encode]

theorem nfkc_encoded (t : Tables) (s : List UInt8) :
  ∃ rs, t.nfkc s = Utf8.encode rs
  := by
  rw [Tables.nfkc]
  split
  · exact ⟨[], rfl⟩
  · exact ⟨_, rfl⟩

/-- What was prepared is prepared already, if the normalizer is idempotent and brings back
nothing that is mapped to nothing. -/
theorem prepareWith_again {t : PrepTables}
    (hidempotent : ∀ s, t.norm.nfkc (t.norm.nfkc s) = t.norm.nfkc s)
    (hremoved : ∀ s, ∀ r ∈ Utf8.runes (t.norm.nfkc s), r ∈ tableB1 → r ∈ Utf8.runes s)
    (h : t.prepareWith s prohibitUnassigned = .ok out) :
  t.prepareWith out prohibitUnassigned = .ok out
  := by
  obtain ⟨hvalid, hout, hclean, hassigned, hbidi⟩ := prepareWith_ok.mp h
  obtain ⟨rs, hrs⟩ := nfkc_encoded t.norm (mapChars s)
  rw [← hout] at hrs
  have hmapped : mapChars out = out := by
    rw [hrs] at hout hclean ⊢
    apply mapChars_of_clean
    intro r hr
    constructor
    · intro hB1
      rw [hout] at hr
      exact mapChars_removes (hremoved _ r hr hB1) hB1
    · exact hclean r hr ⟨"C.1.2 (non-ASCII space character)", tableC12⟩ List.mem_cons_self
  apply prepareWith_ok.mpr
  refine ⟨?_, ?_, hclean, hassigned, hbidi⟩
  · rw [hrs]
    apply Utf8.valid_encode
  · rw [hmapped, hout, hidempotent]

end PrepTables

/-- A prepared string is clean and is prepared to itself.  It is prepared for storage exactly if
all its code points are assigned. -/
theorem prepare_idempotent_clean {t : PrepTables}
    (hidempotent : ∀ s, t.norm.nfkc (t.norm.nfkc s) = t.norm.nfkc s)
    (hremoved : ∀ s, ∀ r ∈ Utf8.runes (t.norm.nfkc s), r ∈ tableB1 → r ∈ Utf8.runes s)
    (s out : List UInt8) :
  (t.prepare s = .ok out →
    (∀ r ∈ Utf8.runes out, ∀ pt ∈ prohibitedTables, r ∉ pt.table) ∧
      t.BidiRule (Utf8.runes out) ∧ t.prepare out = .ok out) ∧
  (t.prepareStored s = .ok out ↔ t.prepare s = .ok out ∧ ∀ r ∈ Utf8.runes out, r ∉ t.a1)
  := by
  constructor
  · intro h
    obtain ⟨-, -, hclean, -, hbidi⟩ := PrepTables.prepareWith_ok.mp h
    exact ⟨hclean, hbidi, PrepTables.prepareWith_again hidempotent hremoved h⟩
  · rw [PrepTables.prepareStored, PrepTables.prepare, PrepTables.prepareWith_ok,
      PrepTables.prepareWith_ok]
    simp only [Bool.false_eq_true, false_implies, true_implies, true_and]
    tauto

/-- The tables of an accented letter, with one unassigned code point and two letters for each
direction. -/
def acutePrepTables : PrepTables where
  norm := acuteTables
  a1 := { ranges := [⟨0x221, 0x221⟩], proper := by decide, sorted := by decide }
  d1 := { ranges := [⟨0x5D0, 0x5D1⟩], proper := by decide, sorted := by decide }
  d2 := { ranges := [⟨0x61, 0x62⟩], proper := by decide, sorted := by decide }

theorem tableB1_not_hangul (h : r ∈ tableB1) :
  isHangulS r = false ∧ isJamo r = false
  := by
  obtain ⟨range, hrange, hlo, hhi⟩ := h
  have hbounds : ∀ range ∈ tableB1.ranges,
      range.hi < 0x1100 ∨ (0x11C3 ≤ range.lo ∧ range.hi < 0xAC00) ∨ 0xD7A4 ≤ range.lo := by
    decide
  have hbound := hbounds range hrange
  generalize range.lo = lo at hlo hbound
  generalize range.hi = hi at hhi hbound
  change Nat at r
  rw [← Bool.not_eq_true, ← Bool.not_eq_true, isHangulS_iff, isJamo_iff]
  omega

theorem acutePrepTables_removed (s : List UInt8) :
  ∀ r ∈ Utf8.runes (acutePrepTables.norm.nfkc s), r ∈ tableB1 → r ∈ Utf8.runes s
  := by
  intro r hr hB1
  obtain ⟨hsyllable, hjamo⟩ := tableB1_not_hangul hB1
  rw [← Search.inTable_iff] at hB1
  rcases acuteTables.nfkc_introduces acuteTables_wellFormed hr with
    hr | hr | hr | ⟨i, hi, rfl⟩ | ⟨i, hi, hr⟩
  · exact hr
  · exact absurd hr (by simp [hsyllable])
  · exact absurd hr (by simp [hjamo])
  · have hcomposites : ∀ i < acuteTables.composeKey.length,
        inTable tableB1 (acuteTables.composeVal.getD i 0) = false := by
      decide +kernel
    exact absurd hB1 (by rw [hcomposites i hi]; decide)
  · have hentries : ∀ i < acuteTables.compatDecomp.key.length,
        ∀ r ∈ acuteTables.compatDecomp.entry i, inTable tableB1 r = false := by
      decide +kernel
    exact absurd hB1 (by rw [hentries i hi r hr]; decide)

theorem prepare_idempotent_clean_acute :
  acutePrepTables.prepare [0xC2, 0xAA, 0xC2, 0xAD, 0xCC, 0x81] = .ok [0xC3, 0xA1] ∧
    acutePrepTables.prepare [0xC3, 0xA1] = .ok [0xC3, 0xA1]
  := by
  have hprepared :
      acutePrepTables.prepare [0xC2, 0xAA, 0xC2, 0xAD, 0xCC, 0x81] = .ok [0xC3, 0xA1] := by
    decide +kernel
  have hclean := prepare_idempotent_clean (t := acutePrepTables) acuteTables_nfkc_idempotent
    acutePrepTables_removed [0xC2, 0xAA, 0xC2, 0xAD, 0xCC, 0x81] [0xC3, 0xA1]
  exact ⟨hprepared, (hclean.1 hprepared).2.2⟩

end GoSmtp.Unicode
