import GoSmtp.Client.Conn
import GoSmtp.Wire.CommandFraming
import GoSmtp.Wire.ReplyEncoder

/-!
# Replies on the wire

`ReadReply` takes lines from the feed until one of them is not marked as continued.  All of them
carry the same code.  The lines are bounded in three ways: each of them, their number, and the sum
of their texts.
-/

namespace GoSmtp.Client

variable {φ : Type}
variable {buf raw : Bytes} {maxLen : Nat} {limits : WireLimits} {s : Feed UInt8 φ} {code : Int}

/-! ### The reader -/

/-- Errors of `ReadReply`. -/
inductive ReplyError (φ : Type) where
  | eof
  | unexpectedEOF
  | transport (e : φ)
  | lineTooLong
  | tooManyLines
  | tooLarge
  | lineTooShort
  | codeSyntax
  | codeMismatch
  deriving DecidableEq, Repr

/-- One CR at the end of a line goes with the LF. -/
def chomp (buf : Bytes) : Bytes := if buf.getLast? == some cr then buf.dropLast else buf

/-- `readLine`, with the octets read so far. -/
def readLine (maxLen : Nat) (buf : Bytes) :
    Feed UInt8 φ → Except (ReplyError φ) Bytes × Feed UInt8 φ
  | [] => (.error (if buf.isEmpty then .eof else .unexpectedEOF), [])
  | .fault e :: s => (.error (.transport e), s)
  | .item b :: s =>
    if b == lf then (.ok (chomp buf), s)
    else if buf.length ≥ maxLen then (.error .lineTooLong, s)
    else readLine maxLen (buf ++ [b]) s

theorem length_readLine {s' : Feed UInt8 φ} (h : readLine maxLen buf s = (.ok raw, s')) :
  s'.length < s.length
  := by
  induction s generalizing buf with
  | nil => cases h
  | cons event s ih =>
    cases event with
    | fault e => cases h
    | item b =>
      rw [readLine] at h
      split at h
      · cases h
        exact Nat.lt_succ_self _
      · split at h
        · cases h
        · exact Nat.lt_succ_of_lt (ih h)

/-- A reply line: its code, whether it is continued, and its text. -/
structure ReplyLine where
  code : Int
  continuation : Bool
  text : Bytes
  deriving DecidableEq, Repr

def parseReplyLine : Bytes → Except (ReplyError φ) ReplyLine
  | d0 :: d1 :: d2 :: rest =>
    if d0 < 50 || d0 > 53 || d1 < 48 || d1 > 53 || d2 < 48 || d2 > 57 then .error .codeSyntax
    else
      let code : Nat := (d0.toNat - 48) * 100 + (d1.toNat - 48) * 10 + (d2.toNat - 48)
      match rest with
      | [] => .ok ⟨code, false, []⟩
      | mark :: text =>
        if mark == 45 then .ok ⟨code, true, text⟩
        else if mark == sp then .ok ⟨code, false, text⟩
        else .ok ⟨code, false, mark :: text⟩
  | _ => .error .lineTooShort

/-- The variables of `ReadReply`. -/
structure Reading where
  code : Option Int := none
  lines : List Bytes := []
  totalSize : Nat := 0
  deriving DecidableEq, Repr

end GoSmtp.Client

namespace GoSmtp.WireLimits

/-- The bound on the text of a reply line. -/
def replyLine (l : WireLimits) : Nat := l.withDefaults.maxReplyLineLength.toNat

/-- The bound on the number of lines of a reply. -/
def replyLines (l : WireLimits) : Nat := l.withDefaults.maxReplyLines.toNat

/-- The bound on the sum of the texts of a reply. -/
def replySize (l : WireLimits) : Nat := l.withDefaults.maxReplySize.toNat

end GoSmtp.WireLimits

namespace GoSmtp.Client

variable {φ : Type}

/-- The body of the loop of `ReadReply`, once it has a line: whether the reply goes on.  The line is
appended before the lines are counted. -/
def takeLine (limits : WireLimits) (r : Reading) (raw : Bytes) :
    Except (ReplyError φ) Bool × Reading :=
  match parseReplyLine raw with
  | .error e => (.error e, r)
  | .ok line =>
    if line.text.length > limits.replyLine then (.error .lineTooLong, r)
    else if r.code.any (· != line.code) then (.error .codeMismatch, r)
    else
      let r := { r with code := some line.code, totalSize := r.totalSize + line.text.length }
      if r.totalSize > limits.replySize then (.error .tooLarge, r)
      else
        let r := { r with lines := r.lines ++ [line.text] }
        if r.lines.length > limits.replyLines then (.error .tooManyLines, r)
        else (.ok line.continuation, r)

/-- `strings.Join` with LF. -/
def joinLines (lines : List Bytes) : Bytes := [lf].intercalate lines

/-- The reply that has been read. -/
def Reading.reply (r : Reading) : Reply where
  code := r.code.getD 0
  text := joinLines r.lines
  lines := r.lines

/-- The loop of `ReadReply`.  Next to its text a line may have the code, the mark and CR.  The end of
the feed is unexpected behind a continued line. -/
def readReplyLoop (limits : WireLimits) (r : Reading) (s : Feed UInt8 φ) :
    Except (ReplyError φ) Reply × Feed UInt8 φ :=
  match _h : readLine (limits.replyLine + 5) [] s with
  | (.error .eof, s) => (.error (if r.lines.isEmpty then .eof else .unexpectedEOF), s)
  | (.error e, s) => (.error e, s)
  | (.ok raw, s') =>
    match takeLine limits r raw with
    | (.error e, _) => (.error e, s')
    | (.ok false, r) => (.ok r.reply, s')
    | (.ok true, r) => readReplyLoop limits r s'
  termination_by s.length
  decreasing_by exact length_readLine _h

/-- `ReadReply`. -/
def readReplyFrom (limits : WireLimits) (s : Feed UInt8 φ) :
    Except (ReplyError φ) Reply × Feed UInt8 φ :=
  readReplyLoop limits {} s

/-! ### One line -/

theorem readLine_line {w : Bytes} (hw : lf ∉ w)
    (hfits : buf.length + w.length ≤ maxLen) (s : Feed UInt8 φ) :
  readLine maxLen buf (Feed.items w ++ .item lf :: s) = (.ok (chomp (buf ++ w)), s)
  := by
  induction w generalizing buf with
  | nil => simp [readLine]
  | cons b w ih =>
    have hb : (b == lf) = false := by simpa using Ne.symm (List.ne_of_not_mem_cons hw)
    rw [List.length_cons] at hfits
    have hroom : ¬ buf.length ≥ maxLen := by omega
    simp only [Feed.items_cons, List.cons_append, readLine, hb, Bool.false_eq_true, if_false, hroom]
    rw [ih (List.not_mem_of_not_mem_cons hw), List.append_assoc, List.singleton_append]
    rw [List.length_append, List.length_singleton]
    omega

theorem readLine_tooLong {w : Bytes} (hw : lf ∉ w) (hbuf : buf.length ≤ maxLen)
    (hlong : maxLen < buf.length + w.length) (s : Feed UInt8 φ) :
  (readLine maxLen buf (Feed.items w ++ s)).1 = .error .lineTooLong
  := by
  induction w generalizing buf with
  | nil =>
    rw [List.length_nil] at hlong
    omega
  | cons b w ih =>
    have hb : (b == lf) = false := by simpa using Ne.symm (List.ne_of_not_mem_cons hw)
    rw [List.length_cons] at hlong
    simp only [Feed.items_cons, List.cons_append, readLine, hb, Bool.false_eq_true, if_false]
    by_cases hfull : buf.length ≥ maxLen
    · rw [if_pos hfull]
    · rw [if_neg hfull]
      apply ih (List.not_mem_of_not_mem_cons hw)
      · rw [List.length_append, List.length_singleton]
        omega
      · rw [List.length_append, List.length_singleton]
        omega

theorem parseReplyLine_code (h : validReplyCode code = true) (rest : Bytes) :
  (parseReplyLine (itoa code ++ rest) : Except (ReplyError φ) ReplyLine) =
    match rest with
    | [] => .ok ⟨code, false, []⟩
    | mark :: text =>
      if mark == 45 then .ok ⟨code, true, text⟩
      else if mark == sp then .ok ⟨code, false, text⟩
      else .ok ⟨code, false, mark :: text⟩
  := by
  simp only [validReplyCode, Bool.and_eq_true, decide_eq_true_eq] at h
  obtain ⟨⟨hlow, hhigh⟩, hmiddle⟩ := h
  obtain ⟨n, rfl⟩ := Int.eq_ofNat_of_zero_le (show 0 ≤ code by omega)
  have hfirst : ((48 + n / 100).toUInt8).toNat = 48 + n / 100 := by
    simp
    omega
  have hsecond : ((48 + n / 10 % 10).toUInt8).toNat = 48 + n / 10 % 10 := by
    simp
    omega
  have hthird : ((48 + n % 10).toUInt8).toNat = 48 + n % 10 := by
    simp
    omega
  have hdigits : n / 10 % 10 ≤ 5 := by
    have hcast : ((n : Int).tdiv 10).tmod 10 = ((n / 10 % 10 : Nat) : Int) := by
      rw [Int.tdiv_eq_ediv_of_nonneg (by omega), Int.tmod_eq_emod_of_nonneg (by omega)]
      omega
    omega
  have hvalid : ((48 + n / 100).toUInt8 < 50 || (48 + n / 100).toUInt8 > 53 ||
      (48 + n / 10 % 10).toUInt8 < 48 || (48 + n / 10 % 10).toUInt8 > 53 ||
      (48 + n % 10).toUInt8 < 48 || (48 + n % 10).toUInt8 > 57) = false := by
    simp only [Bool.or_eq_false_iff, decide_eq_false_iff_not, UInt8.lt_iff_toNat_lt, gt_iff_lt,
      hfirst, hsecond, hthird]
    simp
    omega
  have hcode : (48 + n / 100 - 48) * 100 + (48 + n / 10 % 10 - 48) * 10 + (48 + n % 10 - 48) = n := by
    omega
  rw [itoa_three (by omega) (by omega)]
  simp only [List.cons_append, List.nil_append, parseReplyLine, hvalid, Bool.false_eq_true, if_false,
    hfirst, hsecond, hthird, hcode]
  cases rest <;> rfl

/-! ### The lines of a reply -/

/-- What stands between the code and the text. -/
inductive Mark where
  | continued
  | final
  /-- A final line without a separator. -/
  | bare
  deriving DecidableEq, Repr

def Mark.octets : Mark → Bytes
  | .continued => [45]
  | .final => [sp]
  | .bare => []

/-- A reply line on the wire, ended by CRLF or by LF alone. -/
structure WireLine where
  mark : Mark
  text : Bytes
  crlf : Bool := true
  deriving DecidableEq, Repr

namespace WireLine

/-- The octets before LF. -/
def octets (code : Int) (l : WireLine) : Bytes :=
  itoa code ++ l.mark.octets ++ l.text ++ if l.crlf then [cr] else []

/-- The line is written as it says: its text ends before LF, does not take part in the end of the
line, and is not mistaken for a separator. -/
structure Proper (l : WireLine) : Prop where
  lf_not_mem : lf ∉ l.text
  last_ne_cr : l.crlf = false → l.text.getLast? ≠ some cr
  head_ne_mark : l.mark = .bare → l.text.head? ≠ some 45 ∧ l.text.head? ≠ some sp

variable {code : Int} {l : WireLine}

section

variable (hcode : validReplyCode code = true)
include hcode

theorem parseReplyLine_octets (h : l.Proper) :
  (parseReplyLine (itoa code ++ l.mark.octets ++ l.text) : Except (ReplyError φ) ReplyLine) =
    .ok ⟨code, l.mark == .continued, l.text⟩
  := by
  rw [List.append_assoc, parseReplyLine_code hcode]
  obtain ⟨mark, text, crlf⟩ := l
  cases mark with
  | continued => rfl
  | final => rfl
  | bare =>
    obtain ⟨hhyphen, hsp⟩ := h.head_ne_mark rfl
    cases text with
    | nil => rfl
    | cons b text =>
      have hhyphen : (b == 45) = false := by simpa using hhyphen
      have hsp : (b == sp) = false := by simpa using hsp
      simp [Mark.octets, hhyphen, hsp]

theorem validReplyCode_nonneg :
  0 ≤ code
  := by
  simp only [validReplyCode, Bool.and_eq_true, decide_eq_true_eq] at hcode
  omega

theorem mark_ne_cr (mark : Mark) :
  cr ∉ itoa code ++ mark.octets
  := by
  intro hmem
  rcases List.mem_append.mp hmem with hmem | hmem
  · exact absurd (itoa_digits (validReplyCode_nonneg hcode) hmem) (by decide)
  · cases mark <;> exact absurd hmem (by decide)

theorem chomp_octets (h : l.Proper) :
  chomp (l.octets code) = itoa code ++ l.mark.octets ++ l.text
  := by
  rw [octets, chomp]
  cases hcrlf : l.crlf with
  | true => simp
  | false =>
    have hlast : (itoa code ++ l.mark.octets ++ l.text).getLast? ≠ some cr := by
      intro hlast
      cases htext : l.text.getLast? with
      | none =>
        rw [List.getLast?_append, htext, Option.none_or] at hlast
        exact mark_ne_cr hcode l.mark (List.mem_of_getLast? hlast)
      | some b =>
        rw [List.getLast?_append, htext, Option.some_or] at hlast
        exact h.last_ne_cr hcrlf (htext.trans hlast)
    simp only [Bool.false_eq_true, if_false, List.append_nil]
    rw [if_neg (by simpa using hlast)]

theorem lf_not_mem_octets (h : l.Proper) :
  lf ∉ l.octets code
  := by
  have hmark : lf ∉ l.mark.octets := by cases l.mark <;> decide
  have hdigits : lf ∉ itoa code := fun hmem =>
    absurd (itoa_digits (validReplyCode_nonneg hcode) hmem) (by decide)
  have hend : lf ∉ (if l.crlf then [cr] else []) := by cases l.crlf <;> decide
  simp [octets, hmark, hdigits, h.lf_not_mem, hend]

theorem length_octets (l : WireLine) :
  l.text.length + 3 ≤ (l.octets code).length ∧ (l.octets code).length ≤ l.text.length + 5
  := by
  have hthree : (itoa code).length = 3 := by
    obtain ⟨n, rfl⟩ := Int.eq_ofNat_of_zero_le (validReplyCode_nonneg hcode)
    simp only [validReplyCode, Bool.and_eq_true, decide_eq_true_eq] at hcode
    rw [itoa_three (by omega) (by omega)]
    rfl
  have hmark : l.mark.octets.length ≤ 1 := by cases l.mark <;> decide
  have hend : (if l.crlf then [cr] else []).length ≤ 1 := by cases l.crlf <;> decide
  simp only [octets, List.length_append]
  omega

end

end WireLine

namespace Reading

/-- One more line. -/
def push (r : Reading) (code : Int) (text : Bytes) : Reading where
  code := some code
  lines := r.lines ++ [text]
  totalSize := r.totalSize + text.length

/-- No line so far has another code. -/
def Agrees (r : Reading) (code : Int) : Prop := r.code.any (· != code) = false

theorem agrees_initial (code : Int) :
  Agrees {} code
  := rfl

theorem agrees_push (r : Reading) (code : Int) (text : Bytes) :
  (r.push code text).Agrees code
  := by simp [Agrees, push]

/-- The limits admit further lines with these texts. -/
structure Fits (limits : WireLimits) (r : Reading) (texts : List Bytes) : Prop where
  line : ∀ text ∈ texts, text.length ≤ limits.replyLine
  lines : r.lines.length + texts.length ≤ limits.replyLines
  size : r.totalSize + (texts.map List.length).sum ≤ limits.replySize

theorem fits_cons {r : Reading} {text : Bytes} {texts : List Bytes} (code : Int) :
  r.Fits limits (text :: texts) ↔ r.Fits limits [text] ∧ (r.push code text).Fits limits texts
  := by
  constructor
  · rintro ⟨hline, hlines, hsize⟩
    obtain ⟨htext, htexts⟩ := List.forall_mem_cons.mp hline
    simp only [List.length_cons, List.map_cons, List.sum_cons] at hlines hsize
    constructor
    · constructor
      · simpa using htext
      · rw [List.length_singleton]
        omega
      · rw [List.map_singleton, List.sum_singleton]
        omega
    · constructor
      · exact htexts
      · simp only [push, List.length_append, List.length_singleton]
        omega
      · simp only [push]
        omega
  · rintro ⟨htext, htexts⟩
    constructor
    · exact List.forall_mem_cons.mpr ⟨htext.line text List.mem_cons_self, htexts.line⟩
    · have hlines := htexts.lines
      simp only [push, List.length_append, List.length_singleton] at hlines
      rw [List.length_cons]
      omega
    · have hsize := htexts.size
      simp only [push] at hsize
      rw [List.map_cons, List.sum_cons]
      omega

end Reading

section Loop

variable {limits : WireLimits} {r : Reading} {code : Int} {l : WireLine}

theorem takeLine_fits {line : ReplyLine} (hagrees : r.Agrees line.code)
    (hparse : (parseReplyLine raw : Except (ReplyError φ) ReplyLine) = .ok line)
    (hfits : r.Fits limits [line.text]) :
  (takeLine limits r raw : Except (ReplyError φ) Bool × Reading) =
    (.ok line.continuation, r.push line.code line.text)
  := by
  have hline := hfits.line line.text List.mem_cons_self
  have hlines := hfits.lines
  have hsize := hfits.size
  simp only [List.length_singleton, List.map_singleton, List.sum_singleton] at hlines hsize
  rw [Reading.Agrees] at hagrees
  simp only [takeLine, hparse, Nat.not_lt.mpr hline, gt_iff_lt, if_false, hagrees,
    Bool.false_eq_true, Nat.not_lt.mpr hsize, List.length_append, List.length_singleton,
    Nat.not_lt.mpr hlines]
  rfl

theorem takeLine_not_fits {line : ReplyLine}
    (hparse : (parseReplyLine raw : Except (ReplyError φ) ReplyLine) = .ok line)
    (hfits : ¬ r.Fits limits [line.text]) :
  ∃ e, (takeLine limits r raw : Except (ReplyError φ) Bool × Reading).1 = .error e
  := by
  simp only [takeLine, hparse]
  split
  · exact ⟨_, rfl⟩
  · next hline =>
    split
    · exact ⟨_, rfl⟩
    · split
      · exact ⟨_, rfl⟩
      · next hsize =>
        split
        · exact ⟨_, rfl⟩
        · next hlines =>
          refine absurd ⟨?_, ?_, ?_⟩ hfits
          · simpa using hline
          · simpa using hlines
          · simpa using hsize

theorem readReplyLoop_line (hcode : validReplyCode code = true) (hagrees : r.Agrees code)
    (h : l.Proper) (hfits : r.Fits limits [l.text]) (s : Feed UInt8 φ) :
  readReplyLoop limits r (Feed.items (l.octets code) ++ .item lf :: s) =
    if l.mark = .continued then readReplyLoop limits (r.push code l.text) s
    else (.ok (r.push code l.text).reply, s)
  := by
  have hroom : ([] : Bytes).length + (l.octets code).length ≤ limits.replyLine + 5 := by
    have hlength := (WireLine.length_octets hcode l).2
    have hline := hfits.line l.text List.mem_cons_self
    rw [List.length_nil]
    omega
  have hread := readLine_line (WireLine.lf_not_mem_octets hcode h) hroom s
  rw [List.nil_append, WireLine.chomp_octets hcode h] at hread
  have htake : (takeLine limits r (itoa code ++ l.mark.octets ++ l.text) :
      Except (ReplyError φ) Bool × Reading) = _ :=
    takeLine_fits hagrees (WireLine.parseReplyLine_octets hcode h) hfits
  rw [readReplyLoop]
  split
  · next hline => cases hread.symm.trans hline
  · next hline => cases hread.symm.trans hline
  · next raw s' hline =>
    cases hread.symm.trans hline
    rw [htake]
    cases hmark : l.mark == Mark.continued with
    | true => rw [if_pos (eq_of_beq hmark)]
    | false => rw [if_neg (ne_of_beq_false hmark)]

theorem readReplyLoop_not_fits (hcode : validReplyCode code = true) (h : l.Proper)
    (hfits : ¬ r.Fits limits [l.text]) (s : Feed UInt8 φ) :
  ∃ e, (readReplyLoop limits r (Feed.items (l.octets code) ++ .item lf :: s)).1 = .error e
  := by
  rw [readReplyLoop]
  split
  · exact ⟨_, rfl⟩
  · exact ⟨_, rfl⟩
  · next raw s' hline =>
    by_cases hroom : ([] : Bytes).length + (l.octets code).length ≤ limits.replyLine + 5
    · have hread := readLine_line (WireLine.lf_not_mem_octets hcode h) hroom s
      cases hread.symm.trans hline
      rw [List.nil_append, WireLine.chomp_octets hcode h]
      obtain ⟨e, he⟩ := takeLine_not_fits (φ := φ) (WireLine.parseReplyLine_octets hcode h) hfits
      generalize takeLine limits r (itoa code ++ l.mark.octets ++ l.text) = t at he
      obtain ⟨t, r'⟩ := t
      subst he
      exact ⟨e, rfl⟩
    · have hlong := readLine_tooLong (WireLine.lf_not_mem_octets hcode h) (Nat.zero_le _)
        (Nat.lt_of_not_le hroom) (.item lf :: s)
      rw [hline] at hlong
      cases hlong

end Loop

/-! ### A whole reply -/

/-- The octets of lines, each with its LF. -/
def wireLines (code : Int) (ls : List WireLine) : Bytes := ls.flatMap fun l => l.octets code ++ [lf]

/-- Lines that make up one reply: continued lines, then one that is not. -/
structure OneReply (ls : List WireLine) : Prop where
  proper : ∀ l ∈ ls, l.Proper
  marks : ∃ conts last, ls = conts ++ [last] ∧ (∀ l ∈ conts, l.mark = .continued) ∧
    last.mark ≠ .continued

theorem items_wireLines_cons (code : Int) (l : WireLine) (ls : List WireLine) (s : Feed UInt8 φ) :
  (Feed.items (wireLines code (l :: ls)) ++ s : Feed UInt8 φ) =
    Feed.items (l.octets code) ++ .item lf :: (Feed.items (wireLines code ls) ++ s)
  := by simp [wireLines]

/-- The reply with the lines taken so far and those that follow. -/
def Reading.replyWith (r : Reading) (code : Int) (texts : List Bytes) : Reply where
  code := code
  text := joinLines (r.lines ++ texts)
  lines := r.lines ++ texts

theorem Reading.reply_push (r : Reading) (code : Int) (text : Bytes) :
  (r.push code text).reply = r.replyWith code [text]
  := rfl

theorem Reading.replyWith_push (r : Reading) (code : Int) (text : Bytes) (texts : List Bytes) :
  (r.push code text).replyWith code texts = r.replyWith code (text :: texts)
  := by simp [Reading.replyWith, Reading.push]

theorem readReplyLoop_lines (limits : WireLimits) {r : Reading} (hcode : validReplyCode code = true)
    (hagrees : r.Agrees code) {ls : List WireLine} (h : OneReply ls) (s : Feed UInt8 φ) :
  (r.Fits limits (ls.map (·.text)) →
    readReplyLoop limits r (Feed.items (wireLines code ls) ++ s) =
      (.ok (r.replyWith code (ls.map (·.text))), s)) ∧
  (¬ r.Fits limits (ls.map (·.text)) →
    ∃ e, (readReplyLoop limits r (Feed.items (wireLines code ls) ++ s)).1 = .error e)
  := by
  obtain ⟨hproper, conts, last, rfl, hconts, hlast⟩ := h
  -- the lines taken so far carry the induction over the continued ones
  induction conts generalizing r with
  | nil =>
    have hl := hproper last (by simp)
    rw [List.nil_append, items_wireLines_cons, List.map_singleton]
    constructor
    · intro hfits
      rw [readReplyLoop_line hcode hagrees hl hfits, if_neg hlast, Reading.reply_push]
      rfl
    · intro hfits
      apply readReplyLoop_not_fits hcode hl hfits
  | cons l conts ih =>
    obtain ⟨hl, hproper⟩ := List.forall_mem_cons.mp hproper
    obtain ⟨hmark, hconts⟩ := List.forall_mem_cons.mp hconts
    obtain ⟨hok, herror⟩ := ih (r.agrees_push code l.text) hproper hconts
    rw [List.cons_append, items_wireLines_cons, List.map_cons, Reading.fits_cons code]
    constructor
    · rintro ⟨hfits, hrest⟩
      rw [readReplyLoop_line hcode hagrees hl hfits, if_pos hmark, hok hrest,
        Reading.replyWith_push]
    · intro hnot
      by_cases hfits : r.Fits limits [l.text]
      · rw [readReplyLoop_line hcode hagrees hl hfits, if_pos hmark]
        apply herror
        intro hrest
        exact hnot ⟨hfits, hrest⟩
      · apply readReplyLoop_not_fits hcode hl hfits

theorem readReplyFrom_fits (hcode : validReplyCode code = true) {ls : List WireLine}
    (h : OneReply ls) (hfits : Reading.Fits limits {} (ls.map (·.text))) (s : Feed UInt8 φ) :
  readReplyFrom limits (Feed.items (wireLines code ls) ++ s) =
    (.ok ⟨code, joinLines (ls.map (·.text)), ls.map (·.text)⟩, s)
  := (readReplyLoop_lines limits hcode (Reading.agrees_initial code) h s).1 hfits

/-! ### What is stored -/

/-- The successive contents of the buffer of `readLine`. -/
def lineBuffers (maxLen : Nat) (buf : Bytes) : Feed UInt8 φ → List Bytes
  | [] => [buf]
  | .fault _ :: _ => [buf]
  | .item b :: s =>
    if b == lf || buf.length ≥ maxLen then [buf] else buf :: lineBuffers maxLen (buf ++ [b]) s

/-- What `ReadReply` stores from one moment to the next: the buffer, and its variables. -/
def storage (limits : WireLimits) (r : Reading) (s : Feed UInt8 φ) : List (Bytes × Reading) :=
  (lineBuffers (limits.replyLine + 5) [] s).map (·, r) ++
    match _h : readLine (limits.replyLine + 5) [] s with
    | (.error _, _) => []
    | (.ok raw, s') =>
      match takeLine (φ := φ) limits r raw with
      | (.ok true, r) => (raw, r) :: storage limits r s'
      | (_, r) => [(raw, r)]
  termination_by s.length
  decreasing_by exact length_readLine _h

theorem length_lineBuffers {b : Bytes}
    (hbuf : buf.length ≤ maxLen) (h : b ∈ lineBuffers maxLen buf s) :
  b.length ≤ maxLen
  := by
  induction s generalizing buf with
  | nil =>
    rw [lineBuffers, List.mem_singleton] at h
    exact h ▸ hbuf
  | cons event s ih =>
    cases event with
    | fault e =>
      rw [lineBuffers, List.mem_singleton] at h
      exact h ▸ hbuf
    | item c =>
      rw [lineBuffers] at h
      split at h
      · rw [List.mem_singleton] at h
        exact h ▸ hbuf
      · next hgo =>
        rcases List.mem_cons.mp h with rfl | h
        · exact hbuf
        · apply ih _ h
          simp only [Bool.or_eq_true, decide_eq_true_eq, not_or, Nat.not_le] at hgo
          rw [List.length_append, List.length_singleton]
          exact hgo.2

theorem readLine_mem_lineBuffers {s' : Feed UInt8 φ} (h : readLine maxLen buf s = (.ok raw, s')) :
  ∃ b ∈ lineBuffers maxLen buf s, raw = chomp b
  := by
  induction s generalizing buf with
  | nil => cases h
  | cons event s ih =>
    cases event with
    | fault e => cases h
    | item c =>
      rw [readLine] at h
      rw [lineBuffers]
      split at h
      · next hlf =>
        cases h
        rw [hlf, Bool.true_or, if_pos rfl]
        exact ⟨buf, List.mem_singleton_self buf, rfl⟩
      · next hlf =>
        split at h
        · cases h
        · next hroom =>
          obtain ⟨b, hb, rfl⟩ := ih h
          rw [if_neg (by simpa using ⟨by simpa using hlf, by simpa using hroom⟩)]
          exact ⟨b, List.mem_cons_of_mem buf hb, rfl⟩

theorem length_chomp (b : Bytes) :
  (chomp b).length ≤ b.length
  := by
  rw [chomp]
  split
  · simp
  · exact Nat.le_refl _

namespace Reading

/-- The lines so far are within the limits. -/
structure Bounded (limits : WireLimits) (r : Reading) : Prop where
  size_eq : r.totalSize = (r.lines.map List.length).sum
  size_le : (r.lines.map List.length).sum ≤ limits.replySize
  lines_le : r.lines.length ≤ limits.replyLines

theorem bounded_initial (limits : WireLimits) :
  Bounded limits {}
  := ⟨rfl, Nat.zero_le _, Nat.zero_le _⟩

end Reading

theorem takeLine_stored {r : Reading} (h : r.Bounded limits) (raw : Bytes) :
  (takeLine (φ := φ) limits r raw).2.lines.length ≤ limits.replyLines + 1 ∧
  ((takeLine (φ := φ) limits r raw).2.lines.map List.length).sum ≤ limits.replySize ∧
  ∀ goes, (takeLine (φ := φ) limits r raw).1 = .ok goes →
    (takeLine (φ := φ) limits r raw).2.Bounded limits
  := by
  have hkept : r.lines.length ≤ limits.replyLines + 1 := Nat.le_succ_of_le h.lines_le
  rw [takeLine]
  split
  · exact ⟨hkept, h.size_le, fun _ hok => by cases hok⟩
  · split
    · exact ⟨hkept, h.size_le, fun _ hok => by cases hok⟩
    · split
      · exact ⟨hkept, h.size_le, fun _ hok => by cases hok⟩
      · simp only
        split
        · exact ⟨hkept, h.size_le, fun _ hok => by cases hok⟩
        · next line _ _ _ hsize =>
          have hsum : ((r.lines ++ [line.text]).map List.length).sum =
              r.totalSize + line.text.length := by
            simp [h.size_eq]
          have hsum_le : ((r.lines ++ [line.text]).map List.length).sum ≤ limits.replySize := by
            rw [hsum]
            exact Nat.not_lt.mp hsize
          have hnext : (r.lines ++ [line.text]).length ≤ limits.replyLines + 1 := by
            simpa using h.lines_le
          split
          · exact ⟨hnext, hsum_le, fun _ hok => by cases hok⟩
          · next hlines =>
            refine ⟨hnext, hsum_le, fun _ _ => ⟨hsum.symm, hsum_le, ?_⟩⟩
            exact Nat.not_lt.mp hlines

/-- At every moment the buffer holds a line and its framing at most, and the lines that were taken
are within the limits, except for the line that is one too many. -/
theorem storage_bounded {r : Reading} (h : r.Bounded limits) {s : Feed UInt8 φ}
    {held : Reading} (hmem : (buf, held) ∈ storage limits r s) :
  buf.length ≤ limits.replyLine + 5 ∧ held.lines.length ≤ limits.replyLines + 1 ∧
    (held.lines.map List.length).sum ≤ limits.replySize
  := by
  induction hlength : s.length using Nat.strongRecOn generalizing r s with
  | ind n ih =>
    subst hlength
    rw [storage] at hmem
    rcases List.mem_append.mp hmem with hmem | hmem
    · obtain ⟨b, hb, heq⟩ := List.mem_map.mp hmem
      cases heq
      refine ⟨length_lineBuffers (Nat.zero_le _) hb, ?_, h.size_le⟩
      exact Nat.le_succ_of_le h.lines_le
    · split at hmem
      · cases hmem
      · next raw s' hline =>
        have hraw : raw.length ≤ limits.replyLine + 5 := by
          obtain ⟨b, hb, rfl⟩ := readLine_mem_lineBuffers hline
          exact Nat.le_trans (length_chomp b) (length_lineBuffers (Nat.zero_le _) hb)
        obtain ⟨hlines, hsum, hnext⟩ := takeLine_stored (φ := φ) h raw
        split at hmem
        · next r' htake =>
          rw [htake] at hlines hsum hnext
          rcases List.mem_cons.mp hmem with heq | hmem
          · cases heq
            exact ⟨hraw, hlines, hsum⟩
          · exact ih s'.length (length_readLine hline) (hnext true rfl) hmem rfl
        · next r' _ htake =>
          rw [htake] at hlines hsum
          rw [List.mem_singleton] at hmem
          cases hmem
          exact ⟨hraw, hlines, hsum⟩

/-! ### Exact limits -/

/-- Limits between 1 and `2 ^ 31`. -/
structure InRange (limits : WireLimits) : Prop where
  line : 1 ≤ limits.maxReplyLineLength ∧ limits.maxReplyLineLength ≤ 2 ^ 31
  lines : 1 ≤ limits.maxReplyLines ∧ limits.maxReplyLines ≤ 2 ^ 31
  size : 1 ≤ limits.maxReplySize ∧ limits.maxReplySize ≤ 2 ^ 31

namespace InRange

variable {limits : WireLimits}

theorem replyLine_eq (h : InRange limits) :
  (limits.replyLine : Int) = limits.maxReplyLineLength
  := WireLimits.toNat_orDefault h.line.1

theorem replyLines_eq (h : InRange limits) :
  (limits.replyLines : Int) = limits.maxReplyLines
  := WireLimits.toNat_orDefault h.lines.1

theorem replySize_eq (h : InRange limits) :
  (limits.replySize : Int) = limits.maxReplySize
  := WireLimits.toNat_orDefault h.size.1

end InRange

/-- The texts of a reply are within the limits. -/
structure Within (limits : WireLimits) (texts : List Bytes) : Prop where
  line : ∀ text ∈ texts, (text.length : Int) ≤ limits.maxReplyLineLength
  lines : (texts.length : Int) ≤ limits.maxReplyLines
  size : ((texts.map List.length).sum : Int) ≤ limits.maxReplySize

theorem within_iff_fits (h : InRange limits) {texts : List Bytes} :
  Within limits texts ↔ Reading.Fits limits {} texts
  := by
  have hline := h.replyLine_eq
  have hlines := h.replyLines_eq
  have hsize := h.replySize_eq
  constructor
  · rintro ⟨h₁, h₂, h₃⟩
    constructor
    · intro text htext
      have htext := h₁ text htext
      omega
    · simp only [List.length_nil]
      omega
    · simp only [Nat.zero_add]
      omega
  · rintro ⟨h₁, h₂, h₃⟩
    simp only [List.length_nil, Nat.zero_add] at h₂ h₃
    constructor
    · intro text htext
      have htext := h₁ text htext
      omega
    · omega
    · omega

/-- The lines of a reply are read exactly if their texts are within the limits, and what is behind
them is left.  What is stored on the way, whatever the stream, is bounded by the limits too. -/
theorem replyLimits_exact {limits : WireLimits} (h : InRange limits) :
  (∀ {code : Int} {ls : List WireLine} (s : Feed UInt8 φ),
    validReplyCode code = true → OneReply ls →
    ((readReplyFrom limits (Feed.items (wireLines code ls) ++ s)).1.isOk = true ↔
      Within limits (ls.map (·.text))) ∧
    (Within limits (ls.map (·.text)) →
      readReplyFrom limits (Feed.items (wireLines code ls) ++ s) =
        (.ok ⟨code, joinLines (ls.map (·.text)), ls.map (·.text)⟩, s))) ∧
  ∀ (s : Feed UInt8 φ), ∀ held ∈ storage limits {} s,
    (held.1.length : Int) ≤ limits.maxReplyLineLength + 5 ∧
    (held.2.lines.length : Int) ≤ limits.maxReplyLines + 1 ∧
    ((held.2.lines.map List.length).sum : Int) ≤ limits.maxReplySize
  := by
  constructor
  · intro code ls s hcode hls
    obtain ⟨hok, herror⟩ := readReplyLoop_lines limits hcode (Reading.agrees_initial code)
      hls s
    rw [within_iff_fits h]
    refine ⟨⟨?_, ?_⟩, hok⟩
    · intro hisOk
      by_contra hnot
      obtain ⟨e, he⟩ := herror hnot
      rw [readReplyFrom, he] at hisOk
      cases hisOk
    · intro hfits
      rw [readReplyFrom, hok hfits]
      rfl
  · rintro s ⟨buf, held⟩ hmem
    obtain ⟨hbuf, hlines, hsum⟩ := storage_bounded (Reading.bounded_initial limits) hmem
    have hline_eq := h.replyLine_eq
    have hlines_eq := h.replyLines_eq
    have hsize_eq := h.replySize_eq
    simp only
    omega

/-- A reply of two lines, the first of them as long as it may be. -/
theorem replyLimits_exact_two :
  readReplyFrom ⟨3, 2, 4, 0, 0⟩
      (Feed.items (wireLines 250 [⟨.continued, ascii "abc", true⟩, ⟨.bare, ascii "d", false⟩]) ++
        Feed.items (ascii "550 e\r\n") : Feed UInt8 Unit) =
    (.ok ⟨250, joinLines [ascii "abc", ascii "d"], [ascii "abc", ascii "d"]⟩,
      Feed.items (ascii "550 e\r\n"))
  := by
  have h : InRange ⟨3, 2, 4, 0, 0⟩ := by constructor <;> decide
  have hls : OneReply [⟨.continued, ascii "abc", true⟩, ⟨.bare, ascii "d", false⟩] := by
    constructor
    · simp only [List.mem_cons, List.not_mem_nil, or_false, forall_eq_or_imp, forall_eq]
      constructor <;> constructor <;> decide
    · exact ⟨[⟨.continued, ascii "abc", true⟩], ⟨.bare, ascii "d", false⟩, rfl, by simp, by simp⟩
  apply ((replyLimits_exact h).1 _ (by decide) hls).2
  constructor <;> decide

end GoSmtp.Client
