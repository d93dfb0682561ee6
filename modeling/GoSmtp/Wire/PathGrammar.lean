import GoSmtp.Wire.Path
import Mathlib.Data.List.TakeWhile

/-!
# The grammar of mailboxes

The grammar of RFC 5321 for a mailbox, extended by RFC 6531 if SMTPUTF8 is on, and what the parser
of paths admits beyond it.  The tag `IPv6` of a literal announces an IPv6 address and nothing else.
-/

namespace GoSmtp

open Octet

variable {argument inside raw suffix ts : Bytes} {x : UInt8} {allowNull : Bool}

variable {m tag w : Bytes} {forward utf8 : Bool} {c : UInt8} {path : WirePath}
  {opts : PathOptions}

/-! ### The grammar -/

/-- A character of an atom. -/
def atomByte (utf8 : Bool) (c : UInt8) : Bool := isAtext c || (utf8 && 128 ≤ c)

/-- Dot-string: atoms separated by dots. -/
def DotString (utf8 : Bool) (w : Bytes) : Prop :=
  ∀ atom ∈ w.splitOn dot, atom ≠ [] ∧ ∀ c ∈ atom, atomByte utf8 c = true

/-- `qtextSMTP`. -/
def qtext (utf8 : Bool) (c : UInt8) : Bool :=
  (32 ≤ c && c ≤ 126 && c != quote && c != backslash) || (utf8 && 128 ≤ c)

/-- The content of a quoted string: `qtextSMTP`, and printable ASCII behind a backslash. -/
def quotedContent (utf8 : Bool) : Bytes → Bool
  | [] => true
  | [c] => qtext utf8 c
  | c :: d :: w =>
    if c == backslash then 32 ≤ d && d ≤ 126 && quotedContent utf8 w
    else qtext utf8 c && quotedContent utf8 (d :: w)

/-- Quoted-string. -/
def QuotedString (utf8 : Bool) (w : Bytes) : Prop :=
  ∃ content, w = quote :: content ++ [quote] ∧ quotedContent utf8 content = true

/-- A character of a label. -/
def labelByte (utf8 : Bool) (c : UInt8) : Bool := isLdh c || (utf8 && 128 ≤ c)

/-- Domain: labels separated by dots, which neither begin nor end with a hyphen. -/
def DomainName (utf8 : Bool) (w : Bytes) : Prop :=
  ∀ label ∈ w.splitOn dot, label ≠ [] ∧ label.head? ≠ some hyphen ∧ label.getLast? ≠ some hyphen ∧
    ∀ c ∈ label, labelByte utf8 c = true

/-- `dcontent`: printable ASCII other than brackets and backslash. -/
def dcontent (c : UInt8) : Bool :=
  33 ≤ c && c ≤ 126 && c != lbracket && c != backslash && c != rbracket

/-- What may stand in the brackets of an address literal. -/
inductive Literal : Bytes → Prop where
  | ipv4 {w : Bytes} : isIPv4 w = true → Literal w
  | ipv6 {tag w : Bytes} : toUpper tag = ascii "IPV6:" → isIPv6 w = true → Literal (tag ++ w)
  /-- General-address-literal: the tag ends in a letter or a digit. -/
  | general {tag w : Bytes} : tag ≠ [] → tag.all isLdh = true → tag.getLast? ≠ some hyphen →
      toUpper tag ≠ ascii "IPV6" → w ≠ [] → w.all dcontent = true → Literal (tag ++ colon :: w)

/-- Mailbox. -/
structure Mailbox (utf8 : Bool) (w : Bytes) : Prop where
  valid : Utf8.valid w = true
  parts : ∃ localPart domain, w = localPart ++ atSign :: domain ∧
    (DotString utf8 localPart ∨ QuotedString utf8 localPart) ∧
    (DomainName utf8 domain ∨
      ∃ inside, domain = lbracket :: inside ++ [rbracket] ∧ Literal inside)

/-! ### What goes beyond it -/

/-- A backslash stands in front of an octet beyond ASCII. -/
def escapesHigh : Bytes → Bool
  | [] => false
  | [_] => false
  | c :: d :: w => if c == backslash then 128 ≤ d || escapesHigh w else escapesHigh (d :: w)

/-- A literal that the parser admits and the grammar does not: an IPv6 address with a zone, or behind
a tag with the dotless i; another tag that ends in a hyphen, or whose text has a space. -/
def IrregularLiteral (inside : Bytes) : Prop :=
  if hasIPv6Prefix inside then percent ∈ inside ∨ inside.head? = some 0xC4
  else isIPv4 inside = false ∧
    ((inside.takeWhile (· != colon)).getLast? = some hyphen ∨ sp ∈ inside)

/-- A mailbox that the parser admits and the grammar does not: a Postmaster that is not ASCII and has
no domain, a local part that escapes an octet beyond ASCII, or such a literal. -/
def Irregular (localPart domain : Bytes) : Prop :=
  (domain = [] ∧ hasHighByte localPart = true) ∨
  (localPart.head? = some quote ∧ escapesHigh localPart.tail.dropLast = true) ∨
  ∃ inside, domain = lbracket :: inside ++ [rbracket] ∧ IrregularLiteral inside

/-! ### Local parts -/

theorem drop_rune (hc : ¬ c < 128) :
  ∃ t, c :: w = t ++ w.drop ((Utf8.decodeRune (c :: w)).2 - 1) ∧ ∀ b ∈ t, 128 ≤ b
  := by
  have hhead : 0x80 ≤ (c :: w).getD 0 0 := UInt8.not_lt.mp hc
  obtain ⟨hsize, hhigh⟩ := Utf8.decodeRune_high hhead
  refine ⟨(c :: w).take (Utf8.decodeRune (c :: w)).2, ?_, hhigh⟩
  obtain ⟨n, hn⟩ := Nat.exists_eq_add_of_le hsize
  rw [hn, Nat.add_comm 1 n, Nat.add_sub_cancel, List.take_succ_cons, List.cons_append,
    List.take_append_drop]

theorem dot_not_mem_of_high {t : Bytes} (h : ∀ b ∈ t, 128 ≤ b) :
  dot ∉ t
  := by
  intro hmem
  exact absurd (h dot hmem) (by decide)

theorem DotString.not_mem (h : DotString utf8 w)
    (hne : c ≠ dot) (hatext : isAtext c = false) (hlow : ¬ 128 ≤ c) :
  c ∉ w
  := by
  intro hc
  obtain ⟨atom, hatom, hmem⟩ := Split.mem hc hne
  have hbyte := (h atom hatom).2 c hmem
  simp [atomByte, hatext, hlow] at hbyte

theorem DomainName.not_mem (h : DomainName utf8 w)
    (hne : c ≠ dot) (hldh : isLdh c = false) (hlow : ¬ 128 ≤ c) :
  c ∉ w
  := by
  intro hc
  obtain ⟨label, hlabel, hmem⟩ := Split.mem hc hne
  have hbyte := (h label hlabel).2.2.2 c hmem
  simp [labelByte, hldh, hlow] at hbyte

theorem not_dotString_of_quote (utf8 : Bool) (hhead : w.head? = some quote) :
  ¬ DotString utf8 w
  := fun hdot => hdot.not_mem (by decide) (by decide) (by decide) (List.mem_of_head? hhead)

theorem not_domainName_of_bracket (utf8 : Bool) (hhead : w.head? = some lbracket) :
  ¬ DomainName utf8 w
  := fun hname => hname.not_mem (by decide) (by decide) (by decide) (List.mem_of_head? hhead)

/-- The parts of a text on which the loop succeeds.  A dot before the text makes the first of them an
atom as well. -/
theorem dotLoop_parts {lastDot : Bool} (h : dotLoop utf8 lastDot w = .ok ())
    (hlast : w.getLast? ≠ some dot) (hempty : w = [] → lastDot = false) :
  ∃ part parts, w.splitOn dot = part :: parts ∧ (∀ c ∈ part, atomByte utf8 c = true) ∧
    (lastDot = true → part ≠ []) ∧
    ∀ atom ∈ parts, atom ≠ [] ∧ ∀ c ∈ atom, atomByte utf8 c = true
  := by
  induction hlength : w.length using Nat.strongRecOn generalizing w lastDot with
  | ind n ih =>
    subst hlength
    cases w with
    | nil =>
      refine ⟨[], [], by simp [List.splitOn], by simp, ?_, by simp⟩
      rw [hempty rfl]
      simp
    | cons c w =>
      have hlast_tail : w.getLast? ≠ some dot := by
        cases w with
        | nil => simp
        | cons d w => rwa [List.getLast?_cons_cons] at hlast
      rw [dotLoop] at h
      split at h
      · next hdot =>
        -- a dot ends the first part, and an atom follows
        split at h
        · cases h
        · next hnot =>
          have hne : w ≠ [] := by
            rintro rfl
            exact hlast (by simpa using hdot)
          obtain ⟨part, parts, hsplit, hpart, hfirst, hparts⟩ :=
            ih w.length (Nat.lt_succ_self _) h hlast_tail (fun hnil => absurd hnil hne) rfl
          rw [Split.cons, if_pos hdot, hsplit]
          refine ⟨[], part :: parts, rfl, by simp, fun hdot => absurd hdot hnot, ?_⟩
          exact List.forall_mem_cons.mpr ⟨⟨hfirst rfl, hpart⟩, hparts⟩
      · next hdot =>
        split at h
        · split at h
          · next hatext =>
            obtain ⟨part, parts, hsplit, hpart, -, hparts⟩ :=
              ih w.length (Nat.lt_succ_self _) h hlast_tail (fun _ => rfl) rfl
            rw [Split.cons, if_neg hdot, hsplit]
            refine ⟨c :: part, parts, rfl, ?_, fun _ => List.cons_ne_nil c part, hparts⟩
            exact List.forall_mem_cons.mpr ⟨by simp [atomByte, hatext], hpart⟩
          · cases h
        · next hascii =>
          split at h
          · cases h
          · next hutf8 =>
            obtain ⟨t, hsplit_text, hhigh⟩ := drop_rune (w := w) hascii
            generalize hrune : Utf8.decodeRune (c :: w) = rune at h hsplit_text
            obtain ⟨r, size⟩ := rune
            simp only at h hsplit_text
            split at h
            · cases h
            · have hne : t ≠ [] := by
                rintro rfl
                have hshort := congrArg List.length hsplit_text
                simp only [List.length_cons, List.nil_append, List.length_drop] at hshort
                omega
              have hrest : (w.drop (size - 1)).getLast? ≠ some dot := by
                intro hdotLast
                apply hlast
                rw [hsplit_text, List.getLast?_append, hdotLast]
                rfl
              obtain ⟨part, parts, hsplit, hpart, -, hparts⟩ :=
                ih (w.drop (size - 1)).length (by rw [List.length_drop, List.length_cons]; omega) h hrest (fun _ => rfl) rfl
              rw [hsplit_text, Split.append (dot_not_mem_of_high hhigh), hsplit]
              refine ⟨t ++ part, parts, rfl, ?_, fun _ => by simp [hne], hparts⟩
              intro b hb
              rcases List.mem_append.mp hb with hb | hb
              · have hutf8 : utf8 = true := by simpa using hutf8
                simp [atomByte, hutf8, hhigh b hb]
              · exact hpart b hb

theorem printable_or_high (h : isControl c = false) :
  (32 ≤ c ∧ c ≤ 126) ∨ 128 ≤ c
  := by
  simp only [isControl, Bool.or_eq_false_iff, decide_eq_false_iff_not, beq_eq_false_iff_ne, ne_eq,
    UInt8.not_lt] at h
  have hne : c.toNat ≠ 127 := fun heq => h.2 (UInt8.toNat_inj.mp heq)
  simp only [UInt8.le_iff_toNat_le] at h ⊢
  simp only [UInt8.reduceToNat] at h ⊢
  omega

theorem quotedContent_iff (hclean : ∀ c ∈ w, isControl c = false)
    (hadmitted : Admitted utf8 w) (h : quotedLoop w = true) :
  quotedContent utf8 w = true ↔ escapesHigh w = false
  := by
  have hqtext {c : UInt8} (hcontrol : isControl c = false) (hhigh : 128 ≤ c → utf8 = true)
      (hback : (c == backslash) = false) (hquote : (c == quote) = false) : qtext utf8 c = true := by
    have hback : c ≠ backslash := by simpa using hback
    have hquote : c ≠ quote := by simpa using hquote
    rcases printable_or_high hcontrol with hprintable | hh
    · simp [qtext, hprintable, hback, hquote]
    · simp [qtext, hh, hhigh hh]
  have hutf8 {c : UInt8} {w : Bytes} (hadmitted : Admitted utf8 w) (hc : c ∈ w) (hh : 128 ≤ c) :
      utf8 = true := by
    rcases hadmitted with hutf8 | hlow
    · exact hutf8
    · simp only [hasHighByte, List.any_eq_false, decide_eq_true_eq] at hlow
      exact absurd hh (hlow c hc)
  fun_induction quotedLoop w with
  | case1 => simp [quotedContent, escapesHigh]
  | case2 c =>
    simp only [Bool.and_eq_true, bne_iff_ne, ne_eq, Bool.not_eq_true'] at h
    have hc : c ∈ [c] := List.mem_singleton_self c
    have hq := hqtext (hclean c hc) (hutf8 hadmitted hc) (by simpa using h.1.1) (by simpa using h.1.2)
    simp [quotedContent, escapesHigh, hq]
  | case3 c d w hback ih =>
    obtain ⟨hnot, hrest⟩ := Bool.and_eq_true_iff.mp h
    have hd : d ∈ c :: d :: w := by simp
    have hsub : ∀ b ∈ w, b ∈ c :: d :: w := fun b hb => by simp [hb]
    have hih := ih (fun b hb => hclean b (hsub b hb)) (hadmitted.of_subset hsub) hrest
    rw [quotedContent, if_pos hback, escapesHigh, if_pos hback]
    rcases printable_or_high (hclean d hd) with hprintable | hh
    · have hlow : ¬ 128 ≤ d := by
        intro hh
        exact absurd (UInt8.le_trans hh hprintable.2) (by decide)
      simp [hprintable, hlow, hih]
    · have hover : ¬ d ≤ 126 := by
        intro hle
        exact absurd (UInt8.le_trans hh hle) (by decide)
      simp [hover, hh]
  | case4 c d w hback ih =>
    simp only [Bool.and_eq_true, bne_iff_ne, ne_eq, Bool.not_eq_true'] at h
    have hc : c ∈ c :: d :: w := by simp
    have hsub : ∀ b ∈ d :: w, b ∈ c :: d :: w := fun b hb => List.mem_cons_of_mem c hb
    have hih := ih (fun b hb => hclean b (hsub b hb)) (hadmitted.of_subset hsub) h.2
    have hq := hqtext (hclean c hc) (hutf8 hadmitted hc) (by simpa using hback)
      (by simpa using h.1.1)
    rw [quotedContent, if_neg hback, escapesHigh, if_neg hback, hq, Bool.true_and]
    exact hih

theorem printable_ne (h : 32 ≤ c ∧ c ≤ 126) :
  c ≠ cr ∧ c ≠ lf ∧ c ≠ 0 ∧ c ≠ 127
  := by
  refine ⟨?_, ?_, ?_, ?_⟩ <;> rintro rfl <;> exact absurd h (by decide)

theorem qtext_admitted (h : qtext utf8 c = true) :
  c ≠ backslash ∧ c ≠ quote ∧ isControl c = false
  := by
  simp only [qtext, Bool.or_eq_true, Bool.and_eq_true, decide_eq_true_eq, bne_iff_ne] at h
  have hcontrol : isControl c = false := by
    simp only [isControl, Bool.or_eq_false_iff, decide_eq_false_iff_not, beq_eq_false_iff_ne, ne_eq,
      ← UInt8.toNat_inj, UInt8.lt_iff_toNat_lt, UInt8.le_iff_toNat_le, UInt8.reduceToNat] at h ⊢
    omega
  rcases h with ⟨⟨-, hquote⟩, hback⟩ | ⟨-, hhigh⟩
  · exact ⟨hback, hquote, hcontrol⟩
  · refine ⟨?_, ?_, hcontrol⟩ <;> rintro rfl <;> exact absurd hhigh (by decide)

theorem quotedLoop_of_quotedContent (h : quotedContent utf8 w = true) :
  quotedLoop w = true
  := by
  fun_induction quotedContent utf8 w with
  | case1 => rfl
  | case2 c =>
    obtain ⟨hback, hquote, hcontrol⟩ := qtext_admitted h
    simp [quotedLoop, hback, hquote, hcontrol]
  | case3 c d w hback ih =>
    simp only [Bool.and_eq_true, decide_eq_true_eq] at h
    obtain ⟨hcr, hlf, hnul, hdel⟩ := printable_ne h.1
    rw [quotedLoop, if_pos hback, ih h.2]
    simp [hcr, hlf, hnul, hdel]
  | case4 c d w hback ih =>
    obtain ⟨hqtext, hrest⟩ := Bool.and_eq_true_iff.mp h
    obtain ⟨-, hquote, hcontrol⟩ := qtext_admitted hqtext
    rw [quotedLoop, if_neg hback, ih hrest]
    simp [hquote, hcontrol]

theorem eq_enclosed {first last : UInt8} (hhead : w.head? = some first)
    (hlength : 2 ≤ w.length) (hlast : w.getLast? = some last) :
  w = first :: w.tail.dropLast ++ [last]
  := by
  cases w with
  | nil => cases hhead
  | cons c w =>
    cases hhead
    cases w with
    | nil => simp at hlength
    | cons d w =>
      rw [List.getLast?_cons_cons] at hlast
      rw [List.tail_cons, List.cons_append, List.dropLast_append_getLast? last hlast]

theorem validateLocalPart_eq_ok (h : validateLocalPart utf8 w = .ok ()) :
  (DotString utf8 w ∧ w.head? ≠ some quote) ∨
  ∃ content, w = quote :: content ++ [quote] ∧ quotedLoop content = true
  := by
  rw [validateLocalPart] at h
  split at h
  · cases h
  · next hne =>
    have hne : w ≠ [] := by simpa using hne
    split at h
    · next hhead =>
      have hhead : w.head? = some quote := by simpa using hhead
      split at h
      · cases h
      · next hquoted =>
        simp only [Bool.or_eq_true, decide_eq_true_eq, bne_iff_ne, ne_eq, Bool.not_eq_true',
          not_or, not_not, Bool.not_eq_false] at hquoted
        obtain ⟨⟨hlength, hlast⟩, hloop⟩ := hquoted
        exact .inr ⟨_, eq_enclosed hhead (Nat.not_lt.mp hlength) hlast, hloop⟩
    · next hhead =>
      split at h
      · cases h
      · next hlast =>
        have hlast : w.getLast? ≠ some dot := by simpa using hlast
        obtain ⟨part, parts, hsplit, hpart, hfirst, hparts⟩ :=
          dotLoop_parts h hlast (fun hnil => absurd hnil hne)
        refine .inl ⟨?_, by simpa using hhead⟩
        rw [DotString, hsplit]
        exact List.forall_mem_cons.mpr ⟨⟨hfirst rfl, hpart⟩, hparts⟩

/-- A local part that the parser admits is one of the grammar, unless it escapes an octet beyond
ASCII. -/
theorem localPart_iff (hclean : ∀ c ∈ w, isControl c = false)
    (hadmitted : Admitted utf8 w) (h : validateLocalPart utf8 w = .ok ()) :
  (DotString utf8 w ∨ QuotedString utf8 w) ↔
    ¬ (w.head? = some quote ∧ escapesHigh w.tail.dropLast = true)
  := by
  rcases validateLocalPart_eq_ok h with ⟨hdot, hhead⟩ | ⟨content, rfl, hloop⟩
  · simp [hdot, hhead]
  · have hsub : ∀ c ∈ content, c ∈ quote :: content ++ [quote] := fun c hc => by simp [hc]
    have hiff := quotedContent_iff (fun c hc => hclean c (hsub c hc)) (hadmitted.of_subset hsub) hloop
    have hhead : (quote :: content ++ [quote]).head? = some quote := rfl
    have htail : (quote :: content ++ [quote]).tail.dropLast = content := by simp
    have hnotDot := not_dotString_of_quote utf8 hhead
    simp only [hnotDot, false_or, hhead, htail, true_and, Bool.not_eq_true, ← hiff]
    constructor
    · rintro ⟨content', heq, hok⟩
      have hsame : content = content' := by simpa using heq
      rwa [hsame]
    · intro hok
      exact ⟨content, rfl, hok⟩

/-! ### Addresses -/

/-- An octet of an address. -/
def addressByte (c : UInt8) : Bool := isHex c || c == colon || c == dot

theorem isIPv4_bytes (h : isIPv4 w = true) :
  ∀ c ∈ w, isDigit c = true ∨ c = dot
  := by
  intro c hc
  by_cases hdot : c = dot
  · exact .inr hdot
  · left
    obtain ⟨part, hpart, hmem⟩ := Split.mem hc hdot
    simp only [isIPv4, Bool.and_eq_true] at h
    have hfield := List.all_eq_true.mp h.2 part hpart
    simp only [isIPv4Field, Bool.and_eq_true] at hfield
    exact List.all_eq_true.mp hfield.1.1.2 c hmem

theorem addressByte_of_ipv4 (h : isIPv4 w = true) :
  ∀ c ∈ w, addressByte c = true
  := by
  intro c hc
  rcases isIPv4_bytes h c hc with hdigit | rfl
  · simp [addressByte, isHex, hdigit]
  · rfl

theorem ipv6Fields_bytes {k : Nat} {ellipsis : Bool} (h : ipv6Fields k ellipsis w = true) :
  ∀ c ∈ w, addressByte c = true
  := by
  induction k generalizing ellipsis w with
  | zero =>
    simp only [ipv6Fields, Bool.and_eq_true, List.isEmpty_iff] at h
    simp [h.1]
  | succ k ih =>
    simp only [ipv6Fields] at h
    split at h
    · cases h
    · have hdigits : ∀ c ∈ w.takeWhile isHex, addressByte c = true := by
        intro c hc
        have hhex := List.all_eq_true.mp List.all_takeWhile c hc
        simp [addressByte, hhex]
      have hsplit : w = w.takeWhile isHex ++ w.drop (w.takeWhile isHex).length :=
        List.prefix_iff_eq_append.mp (List.takeWhile_prefix isHex)|>.symm
      have hall (hrest : ∀ c ∈ w.drop (w.takeWhile isHex).length, addressByte c = true) :
          ∀ c ∈ w, addressByte c = true := by
        intro c hc
        rw [hsplit] at hc
        rcases List.mem_append.mp hc with hc | hc
        · exact hdigits c hc
        · exact hrest c hc
      split at h
      · next hnil =>
        apply hall
        simp [hnil]
      · next d rest hdrop =>
        split at h
        · simp only [Bool.and_eq_true] at h
          exact addressByte_of_ipv4 h.1.2
        · split at h
          · cases h
          · next hcolon =>
            simp only [Bool.or_eq_true, bne_iff_ne, ne_eq, List.isEmpty_iff, not_or,
              not_not] at hcolon
            obtain ⟨rfl, -⟩ := hcolon
            apply hall
            rw [hdrop]
            rw [List.forall_mem_cons]
            refine ⟨rfl, ?_⟩
            split at h
            · next hhead =>
              have hrest : rest = colon :: rest.tail := by
                cases rest with
                | nil => simp at hhead
                | cons d rest =>
                  have hd : d = colon := by simpa using hhead
                  rw [hd, List.tail_cons]
              rw [hrest]
              rw [List.forall_mem_cons]
              refine ⟨rfl, ?_⟩
              split at h
              · next hempty => simp [List.isEmpty_iff.mp hempty]
              · exact ih (Bool.and_eq_true_iff.mp h).2
            · exact ih h

theorem isIPv6_bytes (h : isIPv6 w = true) :
  ∀ c ∈ w, addressByte c = true
  := by
  rw [isIPv6] at h
  split at h
  · next hcolons =>
    have hsplit : w = [colon, colon] ++ w.drop 2 := by
      have htake : w.take 2 = [colon, colon] := eq_of_beq hcolons
      rw [← htake, List.take_append_drop]
    have hrest : ∀ c ∈ w.drop 2, addressByte c = true := by
      rcases Bool.or_eq_true_iff.mp h with hempty | hfields
      · simp [List.isEmpty_iff.mp hempty]
      · exact ipv6Fields_bytes hfields
    rw [hsplit]
    intro c hc
    rcases List.mem_append.mp hc with hc | hc
    · have hcolon : c = colon := by simpa using hc
      rw [hcolon]
      rfl
    · exact hrest c hc
  · exact ipv6Fields_bytes h

/-! ### Literals -/

theorem length_toUpper (w : Bytes) :
  (toUpper w).length = w.length
  := List.length_map ..

theorem head_toUpper (w : Bytes) :
  (toUpper w).head? = w.head?.map upperByte
  := by
  cases w <;> rfl

theorem takeWhile_tag (h : tag.all isLdh = true) :
  (tag ++ colon :: w).takeWhile (· != colon) = tag
  := by
  have hne : ∀ c ∈ tag, (c != colon) = true := by
    intro c hc
    have hldh := List.all_eq_true.mp h c hc
    apply bne_iff_ne.mpr
    rintro rfl
    exact absurd hldh (by decide)
  rw [List.takeWhile_append_of_pos hne]
  simp

theorem take_tag (h : toUpper tag = ascii "IPV6:") :
  (tag ++ w).take 5 = tag
  := by
  have hlength : tag.length = 5 := by rw [← length_toUpper, h]; rfl
  rw [← hlength, List.take_left]

theorem hasIPv6Prefix_of_tag (h : toUpper tag = ascii "IPV6:") :
  hasIPv6Prefix (tag ++ w) = true
  := by
  rw [hasIPv6Prefix, take_tag h, h]
  simp

theorem hasIPv6Prefix_cases (h : hasIPv6Prefix w = true) :
  toUpper (w.take 5) = ascii "IPV6:" ∨ w.head? = some 0xC4
  := by
  rcases Bool.or_eq_true_iff.mp h with hascii | hdotless
  · exact .inl (eq_of_beq hascii)
  · right
    have htake : w.take 2 = [0xC4, 0xB1] := eq_of_beq (Bool.and_eq_true_iff.mp hdotless).1
    have hhead : (w.take 2).head? = w.head? := by simp [List.head?_take]
    rw [← hhead, htake]
    rfl

theorem head_ne_of_tag (h : toUpper (w.take 5) = ascii "IPV6:") :
  w.head?.map upperByte = some 73
  := by
  have hhead := head_toUpper (w.take 5)
  rw [h, List.head?_take, if_neg (by decide)] at hhead
  exact hhead.symm

theorem eq_of_take_eq {a b x : Bytes} {n : Nat}
    (h : (a ++ c :: x).take n = b ++ [c]) (ha : c ∉ a) (hb : c ∉ b) :
  a = b
  := by
  induction a generalizing b n with
  | nil =>
    cases b with
    | nil => rfl
    | cons d b =>
      cases n with
      | zero => cases h
      | succ n =>
        rw [List.nil_append, List.take_succ_cons, List.cons_append] at h
        cases (List.cons.inj h).1
        exact absurd List.mem_cons_self hb
  | cons e a ih =>
    cases n with
    | zero => simp at h
    | succ n =>
      cases b with
      | nil =>
        rw [List.cons_append, List.take_succ_cons, List.nil_append] at h
        cases (List.cons.inj h).1
        exact absurd List.mem_cons_self ha
      | cons d b =>
        rw [List.cons_append, List.take_succ_cons, List.cons_append] at h
        obtain ⟨rfl, htail⟩ := List.cons.inj h
        rw [ih htail (List.not_mem_of_not_mem_cons ha) (List.not_mem_of_not_mem_cons hb)]

theorem colon_not_mem_toUpper (h : tag.all isLdh = true) :
  colon ∉ toUpper tag
  := by
  intro hmem
  obtain ⟨c, hc, hupper⟩ := List.mem_map.mp hmem
  have hldh := List.all_eq_true.mp h c hc
  split at hupper
  · next hlower =>
    obtain ⟨hlow, hhigh⟩ : 97 ≤ c ∧ c ≤ 122 := by simpa using hlower
    have hnat := congrArg UInt8.toNat hupper
    simp only [UInt8.le_iff_toNat_le] at hlow hhigh
    rw [UInt8.toNat_sub_of_le _ _ (UInt8.le_iff_toNat_le.mpr (Nat.le_trans (by decide) hlow))] at hnat
    simp [colon] at hnat hlow
    omega
  · rw [hupper] at hldh
    exact absurd hldh (by decide)

theorem literal_iff_of_ipv6 (hpre : hasIPv6Prefix inside = true)
    (h : parsesAsIPv6 (inside.drop 5) = true) :
  Literal inside ↔ ¬ (percent ∈ inside ∨ inside.head? = some 0xC4)
  := by
  constructor
  · intro hliteral
    cases hliteral with
    | ipv4 hipv4 =>
      -- an IPv4 address does not begin with a letter
      exfalso
      have hhead {c : UInt8} (hc : inside.head? = some c) : isDigit c = true ∨ c = dot :=
        isIPv4_bytes hipv4 c (List.mem_of_head? hc)
      rcases hasIPv6Prefix_cases hpre with hascii | hdotless
      · obtain ⟨c, hc, hupper⟩ := Option.map_eq_some_iff.mp (head_ne_of_tag hascii)
        rcases hhead hc with hdigit | rfl
        · simp only [isDigit, Bool.and_eq_true, decide_eq_true_eq] at hdigit
          rw [upperByte, if_neg] at hupper
          · rw [hupper] at hdigit
            exact absurd hdigit.2 (by decide)
          · simp only [Bool.and_eq_true, decide_eq_true_eq, not_and]
            intro hlow
            exact absurd (UInt8.le_trans hlow hdigit.2) (by decide)
        · exact absurd hupper (by decide)
      · rcases hhead hdotless with hdigit | hdot
        · exact absurd hdigit (by decide)
        · exact absurd hdot (by decide)
    | @ipv6 tag w htag hipv6 =>
      have htake := take_tag (w := w) htag
      rintro (hpercent | hhead)
      · rcases List.mem_append.mp hpercent with hmem | hmem
        · have hupper : upperByte percent ∈ toUpper tag := List.mem_map_of_mem hmem
          rw [htag] at hupper
          exact absurd hupper (by decide)
        · exact absurd (isIPv6_bytes hipv6 percent hmem) (by decide)
      · have hupper := head_ne_of_tag (htake.symm ▸ htag)
        rw [hhead] at hupper
        exact absurd hupper (by decide)
    | @general tag w hne hldh hlast htag hw hcontent =>
      exfalso
      rcases hasIPv6Prefix_cases hpre with hascii | hdotless
      · -- the tag would be IPv6
        apply htag
        apply eq_of_take_eq (n := 5) (c := colon) (x := toUpper w)
        · have htake : (toUpper tag ++ colon :: toUpper w).take 5 =
              toUpper ((tag ++ colon :: w).take 5) := by
            simp only [toUpper, List.map_take, List.map_append, List.map_cons]
            rfl
          rw [htake, hascii]
          rfl
        · exact colon_not_mem_toUpper hldh
        · decide
      · cases tag with
        | nil => exact hne rfl
        | cons c tag =>
          have hc : c = 0xC4 := by simpa using hdotless
          rw [hc] at hldh
          simp only [List.all_cons, Bool.and_eq_true] at hldh
          exact absurd hldh.1 (by decide)
  · intro hnot
    obtain ⟨hpercent, hhead⟩ := not_or.mp hnot
    have hascii := (hasIPv6Prefix_cases hpre).resolve_right hhead
    have hclean : ∀ c ∈ inside.drop 5, (c != percent) = true := by
      intro c hc
      apply bne_iff_ne.mpr
      rintro rfl
      exact hpercent (List.mem_of_mem_drop hc)
    have haddress : isIPv6 (inside.drop 5) = true := by
      have htake : (inside.drop 5).takeWhile (· != percent) = inside.drop 5 :=
        List.takeWhile_eq_self_iff.mpr hclean
      simp only [parsesAsIPv6, Bool.and_eq_true, htake] at h
      exact h.1
    rw [← List.take_append_drop 5 inside]
    exact .ipv6 hascii haddress

theorem sp_not_mem_of_ldh (h : tag.all isLdh = true) :
  sp ∉ tag
  := fun hmem => absurd (List.all_eq_true.mp h sp hmem) (by decide)

theorem sp_not_mem_of_dcontent (h : w.all dcontent = true) :
  sp ∉ w
  := fun hmem => absurd (List.all_eq_true.mp h sp hmem) (by decide)

theorem literal_iff_of_tag (hclean : ∀ c ∈ inside, isControl c = false)
    (hpre : hasIPv6Prefix inside = false) (hipv4 : isIPv4 inside = false)
    (h : validateLiteral inside = true) :
  Literal inside ↔
    ¬ ((inside.takeWhile (· != colon)).getLast? = some hyphen ∨ sp ∈ inside)
  := by
  constructor
  · intro hliteral
    cases hliteral with
    | ipv4 hliteral => rw [hliteral] at hipv4; cases hipv4
    | ipv6 htag _ => rw [hasIPv6Prefix_of_tag htag] at hpre; cases hpre
    | general _ hldh hlast _ _ hcontent =>
      rw [takeWhile_tag hldh]
      rintro (hhyphen | hsp)
      · exact hlast hhyphen
      · rcases List.mem_append.mp hsp with hmem | hmem
        · exact sp_not_mem_of_ldh hldh hmem
        · rcases List.mem_cons.mp hmem with heq | hmem
          · exact absurd heq (by decide)
          · exact sp_not_mem_of_dcontent hcontent hmem
  · intro hnot
    obtain ⟨hlast, hsp⟩ := not_or.mp hnot
    simp only [validateLiteral, hpre, hipv4, Bool.false_eq_true, if_false, Bool.and_eq_true,
      decide_eq_true_eq, Bool.not_eq_true', List.isEmpty_eq_false_iff, validAddressLiteralTag] at h
    obtain ⟨⟨⟨⟨⟨hcolon, htag⟩, hvalue⟩, hldh⟩, hspecial⟩, hhigh⟩ := h
    generalize htake : inside.takeWhile (· != colon) = tag at hlast htag hldh
    generalize hdrop : (inside.dropWhile (· != colon)).drop 1 = value at hvalue hspecial hhigh
    have hsplit : inside = tag ++ colon :: value := by
      obtain ⟨rest, hrest⟩ : ∃ rest, inside.dropWhile (· != colon) = colon :: rest := by
        cases hdw : inside.dropWhile (· != colon) with
        | nil =>
          have hall := List.takeWhile_append_dropWhile (p := (· != colon)) (l := inside)
          rw [hdw, List.append_nil] at hall
          rw [← hall] at hcolon
          have hne := List.all_eq_true.mp List.all_takeWhile colon hcolon
          simp at hne
        | cons c rest =>
          have hc := List.head?_dropWhile_not (· != colon) inside
          rw [hdw] at hc
          have hc : c = colon := by simpa using hc
          exact ⟨rest, by rw [hc]⟩
      have hall := List.takeWhile_append_dropWhile (p := (· != colon)) (l := inside)
      rw [htake, hrest] at hall
      rw [hrest, List.drop_one, List.tail_cons] at hdrop
      rw [← hall, hdrop]
    have hsub : ∀ c ∈ value, c ∈ inside := by
      intro c hc
      rw [hsplit]
      exact List.mem_append_right tag (List.mem_cons_of_mem colon hc)
    rw [hsplit]
    refine .general htag hldh hlast ?_ hvalue ?_
    · -- with this tag the literal would begin like an IPv6 literal
      intro hupper
      have htagged : toUpper (tag ++ [colon]) = ascii "IPV6:" := by
        rw [toUpper, List.map_append, ← toUpper, hupper]
        rfl
      have hhas := hasIPv6Prefix_of_tag (w := value) htagged
      rw [List.append_assoc, List.singleton_append, ← hsplit, hpre] at hhas
      cases hhas
    · rw [List.all_eq_true]
      intro c hc
      have hlow : ¬ 128 ≤ c := by
        simp only [hasHighByte, List.any_eq_false, decide_eq_true_eq] at hhigh
        exact hhigh c hc
      have hprintable := (printable_or_high (hclean c (hsub c hc))).resolve_right hlow
      have hne : c ≠ sp := fun heq => hsp (heq ▸ hsub c hc)
      have hnat : c.toNat ≠ 32 := fun heq => hne (UInt8.toNat_inj.mp heq)
      have hlower : 33 ≤ c := by
        have hfrom := UInt8.le_iff_toNat_le.mp hprintable.1
        rw [UInt8.le_iff_toNat_le]
        simp only [UInt8.reduceToNat] at hfrom ⊢
        omega
      have hoctet := List.any_eq_false.mp hspecial c hc
      simp only [Bool.or_eq_true, beq_iff_eq, not_or] at hoctet
      simp [dcontent, hlower, hprintable.2, hoctet]

theorem literal_iff (hclean : ∀ c ∈ inside, isControl c = false)
    (h : validateLiteral inside = true) :
  Literal inside ↔ ¬ IrregularLiteral inside
  := by
  rw [IrregularLiteral]
  cases hpre : hasIPv6Prefix inside with
  | true =>
    rw [if_pos rfl]
    apply literal_iff_of_ipv6 hpre
    simpa [validateLiteral, hpre] using h
  | false =>
    rw [if_neg (by decide)]
    cases hipv4 : isIPv4 inside with
    | true => simpa using Literal.ipv4 hipv4
    | false => simpa using literal_iff_of_tag hclean hpre hipv4 h

/-! ### Domains -/

theorem labelLoop_bytes (h : labelLoop utf8 w = .ok ()) :
  ∀ c ∈ w, labelByte utf8 c = true
  := by
  induction hlength : w.length using Nat.strongRecOn generalizing w with
  | ind n ih =>
    subst hlength
    cases w with
    | nil => simp
    | cons c w =>
      rw [labelLoop] at h
      split at h
      · split at h
        · next hldh =>
          rw [List.forall_mem_cons]
          exact ⟨by simp [labelByte, hldh], ih w.length (Nat.lt_succ_self _) h rfl⟩
        · cases h
      · next hascii =>
        split at h
        · cases h
        · next hutf8 =>
          have hutf8 : utf8 = true := by simpa using hutf8
          obtain ⟨t, hsplit, hhigh⟩ := drop_rune (w := w) hascii
          generalize Utf8.decodeRune (c :: w) = rune at h hsplit
          obtain ⟨r, size⟩ := rune
          simp only at h hsplit
          split at h
          · cases h
          · have hrest := ih (w.drop (size - 1)).length (by rw [List.length_drop, List.length_cons]; omega) h rfl
            rw [hsplit]
            intro b hb
            rcases List.mem_append.mp hb with hb | hb
            · simp [labelByte, hutf8, hhigh b hb]
            · exact hrest b hb

theorem forM_eq_ok {α ε : Type} {f : α → Except ε Unit} {l : List α} :
  l.forM f = .ok () ↔ ∀ x ∈ l, f x = .ok ()
  := by
  induction l with
  | nil =>
    constructor
    · intro _
      exact List.forall_mem_nil _
    · intro _
      rfl
  | cons x l ih =>
    rw [List.forall_mem_cons, ← ih, List.forM]
    cases hx : f x with
    | error e =>
      constructor
      · intro h
        cases h
      · rintro ⟨h, -⟩
        cases h
    | ok u =>
      constructor
      · intro h
        exact ⟨rfl, h⟩
      · rintro ⟨-, h⟩
        exact h

theorem validateDomain_eq_ok (h : validateDomain utf8 w = .ok ()) :
  (DomainName utf8 w ∧ w.head? ≠ some lbracket) ∨
  ∃ inside, w = lbracket :: inside ++ [rbracket] ∧ validateLiteral inside = true
  := by
  rw [validateDomain] at h
  split at h
  · cases h
  · split at h
    · next hhead =>
      have hhead : w.head? = some lbracket := by simpa using hhead
      split at h
      · cases h
      · next hbrackets =>
        simp only [Bool.or_eq_true, decide_eq_true_eq, bne_iff_ne, ne_eq, Bool.not_eq_true',
          not_or, not_not, Bool.not_eq_false] at hbrackets
        obtain ⟨⟨hlength, hlast⟩, hliteral⟩ := hbrackets
        exact .inr ⟨_, eq_enclosed hhead (by omega) hlast, hliteral⟩
    · next hhead =>
      refine .inl ⟨?_, by simpa using hhead⟩
      intro label hlabel
      have hok := forM_eq_ok.mp h label hlabel
      rw [validateLabel] at hok
      split at hok
      · cases hok
      · next hends =>
        simp only [Bool.or_eq_true, List.isEmpty_iff, beq_iff_eq, not_or] at hends
        exact ⟨hends.1.1, hends.1.2, hends.2, labelLoop_bytes hok⟩

theorem domain_iff (hclean : ∀ c ∈ w, isControl c = false) (h : validateDomain utf8 w = .ok ()) :
  (DomainName utf8 w ∨ ∃ inside, w = lbracket :: inside ++ [rbracket] ∧ Literal inside) ↔
    ¬ ∃ inside, w = lbracket :: inside ++ [rbracket] ∧ IrregularLiteral inside
  := by
  rcases validateDomain_eq_ok h with ⟨hdomain, hhead⟩ | ⟨inside, rfl, hliteral⟩
  · have hnot : ¬ ∃ inside, w = lbracket :: inside ++ [rbracket] ∧ IrregularLiteral inside := by
      rintro ⟨inside, rfl, -⟩
      exact hhead rfl
    simp only [hdomain, true_or, hnot, not_false_eq_true]
  · have hiff := literal_iff (fun c hc => hclean c (by simp [hc])) hliteral
    have hnotName := not_domainName_of_bracket utf8
      (show (lbracket :: inside ++ [rbracket]).head? = some lbracket from rfl)
    have hunique {P : Bytes → Prop} :
        (∃ i, lbracket :: inside ++ [rbracket] = lbracket :: i ++ [rbracket] ∧ P i) ↔
          P inside := by
      simp
    simp only [hnotName, false_or, hunique, hiff]

/-! ### Postmaster -/

theorem isAlnum_upperByte (c : UInt8) :
  isAlnum (upperByte c) = isAlnum c
  := by
  rw [upperByte]
  split
  · next hlower =>
    obtain ⟨hlow, hhigh⟩ : 97 ≤ c ∧ c ≤ 122 := by simpa using hlower
    have hsub : (c - 32).toNat = c.toNat - 32 :=
      UInt8.toNat_sub_of_le _ _ (UInt8.le_trans (by decide) hlow)
    rw [UInt8.le_iff_toNat_le] at hlow hhigh
    simp only [UInt8.reduceToNat] at hlow hhigh
    have hupper : 65 ≤ c - 32 ∧ c - 32 ≤ 90 := by
      simp only [UInt8.le_iff_toNat_le, hsub, UInt8.reduceToNat]
      omega
    have hlower : 97 ≤ c ∧ c ≤ 122 := by
      simp only [UInt8.le_iff_toNat_le, UInt8.reduceToNat]
      omega
    simp [isAlnum, hupper, hlower]
  · rfl

theorem equalFold_bytes (hts : ts.all isAlnum = true) (h : equalFold w ts = true) :
  ∀ c ∈ w, isAlnum c = true ∨ 128 ≤ c
  := by
  induction ts generalizing w with
  | nil =>
    rw [equalFold, List.isEmpty_iff] at h
    simp [h]
  | cons t ts ih =>
    simp only [List.all_cons, Bool.and_eq_true] at hts
    cases w with
    | nil => simp
    | cons b w =>
      rw [equalFold] at h
      split at h
      · next hfold =>
        rw [List.forall_mem_cons]
        refine ⟨.inl ?_, ih hts.2 h⟩
        rw [← isAlnum_upperByte, eq_of_beq hfold, isAlnum_upperByte]
        exact hts.1
      · split at h
        · next hs =>
          simp only [Bool.and_eq_true, beq_iff_eq] at hs
          have hw : w = 0xBF :: w.tail := List.eq_cons_of_mem_head? hs.2
          rw [hs.1.2, hw, List.forall_mem_cons, List.forall_mem_cons]
          exact ⟨.inr (by decide), .inr (by decide), ih hts.2 h⟩
        · split at h
          · next hk =>
            simp only [Bool.and_eq_true, beq_iff_eq] at hk
            have hw : w = [0x84, 0xAA] ++ w.drop 2 := by
              rw [← hk.2, List.take_append_drop]
            rw [hk.1.2, hw, List.cons_append, List.cons_append, List.nil_append,
              List.forall_mem_cons, List.forall_mem_cons, List.forall_mem_cons]
            exact ⟨.inr (by decide), .inr (by decide), .inr (by decide), ih hts.2 h⟩
          · cases h

theorem equalFold_ascii (hw : hasHighByte w = false) (h : equalFold w ts = true) :
  toUpper w = toUpper ts
  := by
  induction ts generalizing w with
  | nil =>
    rw [equalFold, List.isEmpty_iff] at h
    rw [h]
  | cons t ts ih =>
    cases w with
    | nil => cases h
    | cons b w =>
      simp only [hasHighByte, List.any_cons, Bool.or_eq_false_iff, decide_eq_false_iff_not] at hw
      rw [equalFold] at h
      split at h
      · next hfold =>
        have hb : upperByte b = upperByte t := eq_of_beq hfold
        have hrest : toUpper w = toUpper ts := ih hw.2 h
        rw [toUpper, toUpper, List.map_cons, List.map_cons, ← toUpper, ← toUpper, hrest]
        exact congrArg (· :: toUpper ts) hb
      · split at h
        · next hs =>
          simp only [Bool.and_eq_true, beq_iff_eq] at hs
          exact absurd (by rw [hs.1.2]; decide) hw.1
        · split at h
          · next hk =>
            simp only [Bool.and_eq_true, beq_iff_eq] at hk
            exact absurd (by rw [hk.1.2]; decide) hw.1
          · cases h

theorem hasHighByte_toUpper (h : hasHighByte w = true) :
  hasHighByte (toUpper w) = true
  := by
  obtain ⟨c, hc, hhigh⟩ := List.any_eq_true.mp h
  apply List.any_eq_true.mpr
  have hupper : (if 97 ≤ c && c ≤ 122 then c - 32 else c) = c := by
    rw [if_neg]
    simp only [Bool.and_eq_true, decide_eq_true_eq, not_and]
    intro _ hle
    exact absurd (UInt8.le_trans (of_decide_eq_true hhigh) hle) (by decide)
  refine ⟨c, ?_, hhigh⟩
  rw [← hupper]
  exact List.mem_map_of_mem hc

theorem dotString_of_equalFold (hadmitted : Admitted utf8 w)
    (h : equalFold w (ascii "Postmaster") = true) :
  DotString utf8 w
  := by
  have hbytes := equalFold_bytes (by decide) h
  have hdot : dot ∉ w := by
    intro hmem
    rcases hbytes dot hmem with hdot | hdot
    · exact absurd hdot (by decide)
    · exact absurd hdot (by decide)
  rw [DotString, Split.of_not_mem hdot]
  simp only [List.mem_singleton, forall_eq]
  constructor
  · rintro rfl
    cases h
  · intro c hc
    rcases hbytes c hc with halnum | hhigh
    · simp [atomByte, isAtext, halnum]
    · rcases hadmitted with hutf8 | hlow
      · simp [atomByte, hutf8, hhigh]
      · simp only [hasHighByte, List.any_eq_false, decide_eq_true_eq] at hlow
        exact absurd hhigh (hlow c hc)

/-! ### Mailboxes -/

namespace Quoting

theorem run_unquoted (h : quote ∉ w) :
  run {} w = {}
  := by
  induction w with
  | nil => rfl
  | cons c w ih =>
    have hc : (c == quote) = false := by simpa using Ne.symm (List.ne_of_not_mem_cons h)
    have hstep : step {} c = {} := by simp [step, hc]
    rw [run_cons, hstep]
    exact ih (List.not_mem_of_not_mem_cons h)

theorem avoids_of_not_mem (h : x ∉ w) (q : Quoting) :
  avoids x q w = true
  := by
  induction w generalizing q with
  | nil => rfl
  | cons c w ih =>
    have hc : (c == x) = false := by simpa using Ne.symm (List.ne_of_not_mem_cons h)
    simp [avoids, hc, ih (List.not_mem_of_not_mem_cons h)]

theorem run_quoted (x : UInt8) (h : quotedLoop w = true) :
  avoids x ⟨true, false⟩ w = true ∧ run ⟨true, false⟩ w = ⟨true, false⟩
  := by
  fun_induction quotedLoop w with
  | case1 => exact ⟨rfl, rfl⟩
  | case2 c =>
    simp only [Bool.and_eq_true, bne_iff_ne, ne_eq] at h
    have hstep : step ⟨true, false⟩ c = ⟨true, false⟩ := by simp [step, h.1.1, h.1.2]
    simp [avoids, run, plain, hstep]
  | case3 c d w hback ih =>
    obtain ⟨havoids, hrun⟩ := ih (Bool.and_eq_true_iff.mp h).2
    have hfirst : step ⟨true, false⟩ c = ⟨true, true⟩ := by simp [step, eq_of_beq hback]
    have hsecond : step ⟨true, true⟩ d = ⟨true, false⟩ := rfl
    simp [avoids, run_cons, plain, hfirst, hsecond, havoids, hrun]
  | case4 c d w hback ih =>
    simp only [Bool.and_eq_true, bne_iff_ne, ne_eq] at h
    obtain ⟨havoids, hrun⟩ := ih h.2
    have hstep : step ⟨true, false⟩ c = ⟨true, false⟩ := by
      simp [step, show (c == backslash) = false by simpa using hback, h.1.1]
    rw [avoids, run_cons, hstep]
    exact ⟨by simp [plain, havoids], hrun⟩

theorem run_enclosed (hx : x ≠ quote) (h : quotedLoop w = true) :
  avoids x {} (quote :: w ++ [quote]) = true ∧ run {} (quote :: w ++ [quote]) = {}
  := by
  obtain ⟨havoids, hrun⟩ := run_quoted x h
  have hopen : step {} quote = ⟨true, false⟩ := rfl
  have hclose : step ⟨true, false⟩ quote = {} := rfl
  have hq : (quote == x) = false := by simpa using Ne.symm hx
  rw [List.cons_append, run_cons, avoids, hopen, avoids_append, run_append, hrun, havoids, run_cons,
    hclose]
  exact ⟨by simp [avoids, hq], rfl⟩

theorem parts_unique {q : Quoting} {v v' w' : Bytes} (h : v ++ x :: w = v' ++ x :: w')
    (hv : avoids x q v = true) (hplain : (q.run v).plain = true) (hv' : avoids x q v' = true)
    (hplain' : (q.run v').plain = true) :
  v = v' ∧ w = w'
  := by
  induction v generalizing q v' with
  | nil =>
    cases v' with
    | nil => exact ⟨rfl, (List.cons.inj h).2⟩
    | cons c v' =>
      cases (List.cons.inj h).1
      have hq : q.plain = true := hplain
      simp [avoids, hq] at hv'
  | cons c v ih =>
    cases v' with
    | nil =>
      cases (List.cons.inj h).1
      have hq : q.plain = true := hplain'
      simp [avoids, hq] at hv
    | cons d v' =>
      obtain ⟨rfl, htail⟩ := List.cons.inj h
      simp only [avoids, Bool.and_eq_true] at hv hv'
      obtain ⟨rfl, rfl⟩ := ih htail hv.2 hplain hv'.2 hplain'
      exact ⟨rfl, rfl⟩

end Quoting

theorem localPart_scan (h : DotString utf8 w ∨ QuotedString utf8 w) :
  Quoting.avoids atSign {} w = true ∧ (Quoting.run {} w).plain = true
  := by
  rcases h with hdot | ⟨content, rfl, hcontent⟩
  · refine ⟨Quoting.avoids_of_not_mem (hdot.not_mem (by decide) (by decide) (by decide)) {}, ?_⟩
    rw [Quoting.run_unquoted (hdot.not_mem (by decide) (by decide) (by decide))]
    rfl
  · obtain ⟨havoids, hrun⟩ := Quoting.run_enclosed (x := atSign) (by decide)
      (quotedLoop_of_quotedContent hcontent)
    exact ⟨havoids, by rw [hrun]; rfl⟩

/-- The mailbox of a path in the grammar: Postmaster without a domain only in RCPT. -/
def InGrammar (forward utf8 : Bool) (mailbox : Bytes) : Prop :=
  Mailbox utf8 mailbox ∨ (forward = true ∧ toUpper mailbox = ascii "POSTMASTER")

theorem mailbox_iff {l d : Bytes} (hvalid : Utf8.valid (l ++ atSign :: d) = true)
    (hl : Quoting.avoids atSign {} l = true) (hplain : (Quoting.run {} l).plain = true) :
  Mailbox utf8 (l ++ atSign :: d) ↔
    (DotString utf8 l ∨ QuotedString utf8 l) ∧
    (DomainName utf8 d ∨ ∃ inside, d = lbracket :: inside ++ [rbracket] ∧ Literal inside)
  := by
  constructor
  · rintro ⟨-, l', d', heq, hlocal, hdomain⟩
    obtain ⟨hl', hplain'⟩ := localPart_scan hlocal
    obtain ⟨rfl, rfl⟩ := Quoting.parts_unique heq hl hplain hl' hplain'
    exact ⟨hlocal, hdomain⟩
  · rintro ⟨hlocal, hdomain⟩
    exact ⟨hvalid, l, d, rfl, hlocal, hdomain⟩

theorem atSign_mem_of_mailbox (h : Mailbox utf8 m) :
  atSign ∈ m
  := by
  obtain ⟨l, d, rfl, -⟩ := h.parts
  simp

theorem not_mem_of_equalFold (h : equalFold m (ascii "Postmaster") = true)
    (hc : isAlnum c = false) (hlow : ¬ 128 ≤ c) :
  c ∉ m
  := by
  intro hmem
  rcases equalFold_bytes (by decide) h c hmem with halnum | hhigh
  · rw [hc] at halnum
    cases halnum
  · exact hlow hhigh

theorem postmaster_iff (h : equalFold m (ascii "Postmaster") = true) :
  InGrammar true utf8 m ↔ hasHighByte m = false
  := by
  constructor
  · rintro (hmailbox | ⟨-, hupper⟩)
    · exact absurd (atSign_mem_of_mailbox hmailbox) (not_mem_of_equalFold h (by decide) (by decide))
    · by_contra hhigh
      have hmem := hasHighByte_toUpper (Bool.not_eq_false _ ▸ hhigh : hasHighByte m = true)
      rw [hupper] at hmem
      exact absurd hmem (by decide)
  · intro hlow
    exact .inr ⟨rfl, (equalFold_ascii hlow h).trans (by decide)⟩

theorem checked_iff (hclean : ∀ c ∈ m, isControl c = false) (hvalid : Utf8.valid m = true)
    (hadmitted : Admitted utf8 m) (h : Checked forward utf8 m path) :
  InGrammar forward utf8 m ↔ ¬ Irregular path.localPart path.domain
  := by
  obtain ⟨-, -, hparts⟩ := h
  generalize path.localPart = l at hparts ⊢
  generalize path.domain = d at hparts ⊢
  rcases hparts with ⟨hsplit, rfl, rfl, -, hforward, hfold⟩ | ⟨hsplit, hdomain, hlocal⟩
  · subst hforward
    have hhead : l.head? ≠ some quote := fun hhead =>
      not_mem_of_equalFold hfold (by decide) (by decide) (List.mem_of_head? hhead)
    rw [postmaster_iff hfold]
    simp [Irregular, hhead]
  · rcases splitMailbox_eq_ok hsplit with ⟨hd, -⟩ | ⟨domain, hd, rfl, hl, hplain, -⟩
    · cases hd
    · cases hd
      have hne : d ≠ [] := by
        rintro rfl
        cases hdomain
      have hnot : ¬ (forward = true ∧ toUpper (l ++ atSign :: d) = ascii "POSTMASTER") := by
        rintro ⟨-, hupper⟩
        have hmem : atSign ∈ toUpper (l ++ atSign :: d) := by
          simp only [toUpper, List.map_append, List.map_cons, List.mem_append, List.mem_cons]
          exact .inr (.inl (by decide))
        rw [hupper] at hmem
        exact absurd hmem (by decide)
      have hsub_local : ∀ c ∈ l, c ∈ l ++ atSign :: d := fun c hc => List.mem_append_left _ hc
      have hsub_domain : ∀ c ∈ d, c ∈ l ++ atSign :: d := fun c hc =>
        List.mem_append_right l (List.mem_cons_of_mem atSign hc)
      have hlocal_iff : (DotString utf8 l ∨ QuotedString utf8 l) ↔
          ¬ (l.head? = some quote ∧ escapesHigh l.tail.dropLast = true) := by
        rcases hlocal with ⟨-, -, hfold⟩ | hlocal
        · have hhead : l.head? ≠ some quote := fun hhead =>
            not_mem_of_equalFold hfold (by decide) (by decide) (List.mem_of_head? hhead)
          simp [dotString_of_equalFold (hadmitted.of_subset hsub_local) hfold, hhead]
        · exact localPart_iff (fun c hc => hclean c (hsub_local c hc))
            (hadmitted.of_subset hsub_local) hlocal
      have hdomain_iff := domain_iff (fun c hc => hclean c (hsub_domain c hc)) hdomain
      simp only [InGrammar, hnot, or_false, Irregular, hne, false_and, false_or, not_or]
      rw [mailbox_iff hvalid hl hplain, hlocal_iff, hdomain_iff]

/-- The parser of MAIL, or of RCPT. -/
def parsePath (forward : Bool) (opts : PathOptions) (argument : Bytes) : Except PathError WirePath :=
  if forward then parseForwardPath opts argument else parseReversePath opts argument

theorem parsePath_eq_ok (h : parsePath forward opts argument = .ok path) :
  ∃ before raw suffix, argument = before ++ langle :: (raw ++ rangle :: suffix) ∧
    Delimited (!forward) forward opts raw suffix path
  := by
  cases forward with
  | true => exact parsePathArgument_eq_ok h
  | false => exact parsePathArgument_eq_ok h

theorem Delimited.mailbox (h : Delimited allowNull forward opts raw suffix path)
    (hnull : path.null = false) :
  Checked forward opts.smtpUTF8 path.mailbox path ∧
    Utf8.valid path.mailbox = true ∧ Admitted opts.smtpUTF8 path.mailbox ∧
    (raw = path.mailbox ∨ ∃ hops, raw = hops ++ colon :: path.mailbox)
  := by
  rcases h.path with ⟨-, -, heq⟩ | ⟨hne, hvalid, hadmitted, m, hroute, hmailbox⟩
  · rw [heq] at hnull
    cases hnull
  · obtain ⟨hchecked, -⟩ := parseMailbox_eq_ok hmailbox
    obtain rfl := hchecked.mailbox
    obtain ⟨-, ⟨rfl, -⟩ | ⟨hops, rfl⟩⟩ := discardSourceRoute_eq_ok hne hroute
    · exact ⟨hchecked, hvalid, hadmitted, .inl rfl⟩
    · rw [Utf8.valid_append_cons (by decide), Bool.and_eq_true] at hvalid
      refine ⟨hchecked, hvalid.2, hadmitted.of_subset ?_, .inr ⟨hops, rfl⟩⟩
      intro c hc
      exact List.mem_append_right hops (List.mem_cons_of_mem colon hc)

theorem Delimited.written (h : Delimited allowNull forward opts raw suffix path)
    (hnull : path.null = false) :
  ∃ route, raw = route ++ path.mailbox
  := by
  obtain ⟨-, -, -, heq | ⟨hops, heq⟩⟩ := h.mailbox hnull
  · exact ⟨[], heq⟩
  · exact ⟨hops ++ [colon], by simp [heq]⟩

theorem inGrammar_iff (hclean : ∀ c ∈ argument, isControl c = false)
    (h : parsePath forward opts argument = .ok path) (hnull : path.null = false) :
  InGrammar forward opts.smtpUTF8 path.mailbox ↔ ¬ Irregular path.localPart path.domain
  := by
  obtain ⟨before, raw, suffix, rfl, hdelimited⟩ := parsePath_eq_ok h
  obtain ⟨hchecked, hvalid, hadmitted, -⟩ := hdelimited.mailbox hnull
  obtain ⟨route, hroute⟩ := hdelimited.written hnull
  apply checked_iff _ hvalid hadmitted hchecked
  intro c hc
  apply hclean
  simp [hroute, hc]

/-- The mailbox of an argument that is accepted is written in the argument.  It is a mailbox of the
grammar, unless it is written in one of the ways that only the parser admits. -/
theorem pathGrammar_iff {forward : Bool} {opts : PathOptions} {argument : Bytes} {path : WirePath}
    (hclean : ∀ c ∈ argument, isControl c = false)
    (h : parsePath forward opts argument = .ok path) (hnull : path.null = false) :
  (∃ before after, argument = before ++ path.mailbox ++ rangle :: after) ∧
  (path.mailbox = path.localPart ++ atSign :: path.domain ∨
    (path.mailbox = path.localPart ∧ path.domain = [])) ∧
  (InGrammar forward opts.smtpUTF8 path.mailbox ↔ ¬ Irregular path.localPart path.domain)
  := by
  have hiff := inGrammar_iff hclean h hnull
  obtain ⟨before, raw, suffix, rfl, hdelimited⟩ := parsePath_eq_ok h
  obtain ⟨route, hroute⟩ := hdelimited.written hnull
  refine ⟨⟨before ++ langle :: route, suffix, by simp [hroute]⟩, ?_, hiff⟩
  rcases (hdelimited.mailbox hnull).1.parts with ⟨-, hlocal, hdomain, -⟩ | ⟨hsplit, -⟩
  · exact .inr ⟨hlocal.symm, hdomain⟩
  · rcases splitMailbox_eq_ok hsplit with ⟨hd, -⟩ | ⟨domain, hd, heq, -⟩
    · cases hd
    · cases hd
      exact .inl heq

instance : DecidablePred IrregularLiteral := fun inside =>
  inferInstanceAs (Decidable (if hasIPv6Prefix inside then _ else _))

/-- A mailbox in a literal, behind a source route. -/
theorem pathGrammar_iff_literal :
  InGrammar false false (ascii "a.b@[IPv6:::1]")
  := by
  have h : parsePath false {} (ascii "FROM:<@c:a.b@[IPv6:::1]> SIZE=1") =
      .ok { mailbox := ascii "a.b@[IPv6:::1]", localPart := ascii "a.b",
            domain := ascii "[IPv6:::1]", params := [⟨ascii "SIZE", ascii "1"⟩] } := by
    decide +kernel
  apply (pathGrammar_iff (by decide) h rfl).2.2.mpr
  rintro (⟨hd, -⟩ | ⟨hl, -⟩ | ⟨inside, hd, hirregular⟩)
  · exact absurd hd (by decide)
  · exact absurd hl (by decide)
  · have hinside : inside = ascii "IPv6:::1" := by
      have heq : lbracket :: ascii "IPv6:::1" ++ [rbracket] = lbracket :: inside ++ [rbracket] := hd
      simpa using heq.symm
    subst hinside
    exact absurd hirregular (by decide +kernel)

/-- Mailboxes that are accepted and not in the grammar: an IPv6 address with a zone, a tag with a
space in its text, and with SMTPUTF8 the dotless i in the tag, the long s in Postmaster, and an
escaped character beyond ASCII. -/
theorem irregular_accepted :
  (∃ path, parsePath false {} (ascii "FROM:<a@[IPv6:::1%x y]>") = .ok path ∧
    ¬ InGrammar false false path.mailbox) ∧
  (∃ path, parsePath false {} (ascii "FROM:<a@[t:x y]>") = .ok path ∧
    ¬ InGrammar false false path.mailbox) ∧
  (∃ path, parsePath false { smtpUTF8 := true }
      (ascii "FROM:<a@[" ++ [0xC4, 0xB1] ++ ascii "Pv6::1]>") = .ok path ∧
    ¬ InGrammar false true path.mailbox) ∧
  (∃ path, parsePath true { smtpUTF8 := true }
      (ascii "TO:<Po" ++ [0xC5, 0xBF] ++ ascii "tmaster>") = .ok path ∧
    ¬ InGrammar true true path.mailbox) ∧
  (∃ path, parsePath false { smtpUTF8 := true }
      (ascii "FROM:<\"\\" ++ [0xC3, 0xA9] ++ ascii "\"@b>") = .ok path ∧
    ¬ InGrammar false true path.mailbox)
  := by
  have hnot {forward : Bool} {opts : PathOptions} {argument : Bytes} (path : WirePath)
      (h : parsePath forward opts argument = .ok path)
      (hclean : ∀ c ∈ argument, isControl c = false) (hnull : path.null = false)
      (hirregular : Irregular path.localPart path.domain) :
      ∃ path, parsePath forward opts argument = .ok path ∧
        ¬ InGrammar forward opts.smtpUTF8 path.mailbox :=
    ⟨path, h, fun hgrammar => (inGrammar_iff hclean h hnull).mp hgrammar hirregular⟩
  refine ⟨?_, ?_, ?_, ?_, ?_⟩
  · apply hnot ⟨ascii "a@[IPv6:::1%x y]", ascii "a", ascii "[IPv6:::1%x y]", false, false, []⟩
      (by decide +kernel) (by decide) rfl
    exact .inr (.inr ⟨ascii "IPv6:::1%x y", by decide, by decide +kernel⟩)
  · apply hnot ⟨ascii "a@[t:x y]", ascii "a", ascii "[t:x y]", false, false, []⟩
      (by decide +kernel) (by decide) rfl
    exact .inr (.inr ⟨ascii "t:x y", by decide, by decide +kernel⟩)
  · apply hnot ⟨ascii "a@[" ++ [0xC4, 0xB1] ++ ascii "Pv6::1]", ascii "a",
      lbracket :: [0xC4, 0xB1] ++ ascii "Pv6::1]", false, false, []⟩ (by decide +kernel) (by decide) rfl
    exact .inr (.inr ⟨[0xC4, 0xB1] ++ ascii "Pv6::1", by decide, by decide +kernel⟩)
  · apply hnot ⟨ascii "Po" ++ [0xC5, 0xBF] ++ ascii "tmaster",
      ascii "Po" ++ [0xC5, 0xBF] ++ ascii "tmaster", [], false, true, []⟩
      (by decide +kernel) (by decide) rfl
    exact .inl ⟨rfl, by decide⟩
  · apply hnot ⟨ascii "\"\\" ++ [0xC3, 0xA9] ++ ascii "\"@b",
      ascii "\"\\" ++ [0xC3, 0xA9] ++ ascii "\"", ascii "b", false, false, []⟩
      (by decide +kernel) (by decide) rfl
    exact .inr (.inl ⟨rfl, by decide⟩)

end GoSmtp
