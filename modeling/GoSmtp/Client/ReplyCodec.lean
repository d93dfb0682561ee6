import GoSmtp.Client.ReplyReader

/-!
# Replies written and read

A server writes a reply with `EncodeReply`, its client reads it with `ReadReply`.  The lines come
through as they are.  With an enhanced code the server puts the code in front of every line, while
the client looks for it once, in front of the lines that it has joined.
-/

namespace GoSmtp.Client

variable {φ : Type}
variable {line tail : Bytes} {reply : Reply}
variable {lines : List Bytes} {code : Int} {enhanced : EnhancedCode} {w : Bytes}

/-! ### The writer of replies -/

/-- Errors of `EncodeReply`: the reply is not valid, or the write failed. -/
inductive ReplyWriteError (ε : Type) where
  | invalid (e : ReplyEncodeError)
  | sink (e : ε)
  deriving DecidableEq, Repr

/-- `EncodeReply` to a writer: the reply is encoded as a whole, then written at once. -/
def encodeReplyTo {ω ε : Type} (k : Sink ω ε) (reply : Reply) (enhanced : Option EnhancedCode)
    (context : ReplyContext) (out : ω) : Option (ReplyWriteError ε) × ω :=
  match encodeReply reply.code reply.text reply.lines enhanced context with
  | .error e => (some (.invalid e), out)
  | .ok w =>
    match k.write w out with
    | (none, out) => (none, out)
    | (some e, out) => (some (.sink e), out)

/-- Replies without an enhanced code, written one after the other until one of them fails. -/
def encodeReplies {ω ε : Type} (k : Sink ω ε) :
    List (Reply × ReplyContext) → ω → Option (ReplyWriteError ε) × ω
  | [], out => (none, out)
  | (reply, context) :: replies, out =>
    match encodeReplyTo k reply none context out with
    | (some e, out) => (some e, out)
    | (none, out) => encodeReplies k replies out

/-- Calls of `ReadReply` one after the other, with what each of them returns. -/
def readReplies (limits : WireLimits) :
    Nat → Feed UInt8 φ → List (Except (ReplyError φ) Reply) × Feed UInt8 φ
  | 0, s => ([], s)
  | n + 1, s =>
    match readReplyFrom limits s with
    | (r, s) =>
      match readReplies limits n s with
      | (rs, s) => (r :: rs, s)

/-- The lines that are written of a reply: its text stands for them if there are none. -/
def Reply.shown (reply : Reply) : List Bytes :=
  if reply.lines.isEmpty then [reply.text] else reply.lines

theorem Reply.shown_ne_nil (reply : Reply) :
  reply.shown ≠ []
  := by
  cases h : reply.lines <;> simp [shown, h]

/-- The lines of `EncodeReply`: all but the last are continued. -/
def markLines : List Bytes → List WireLine
  | [] => []
  | [line] => [⟨.final, line, true⟩]
  | line :: lines => ⟨.continued, line, true⟩ :: markLines lines

theorem markLines_cons (h : lines ≠ []) :
  markLines (line :: lines) = ⟨.continued, line, true⟩ :: markLines lines
  := by
  cases lines with
  | nil => exact absurd rfl h
  | cons _ _ => rfl

theorem text_markLines (lines : List Bytes) :
  (markLines lines).map (·.text) = lines
  := by
  induction lines with
  | nil => rfl
  | cons line lines ih =>
    cases lines with
    | nil => rfl
    | cons next lines =>
      rw [markLines_cons (List.cons_ne_nil next lines), List.map_cons, ih]

theorem frameReply_eq_wireLines (code : Int) (lines : List Bytes) :
  frameReply code lines = wireLines code (markLines lines)
  := by
  induction lines with
  | nil => rfl
  | cons line lines ih =>
    cases lines with
    | nil => simp [frameReply, markLines, wireLines, WireLine.octets, Mark.octets, crlf]
    | cons next lines =>
      rw [markLines_cons (List.cons_ne_nil next lines), wireLines, List.flatMap_cons,
        ← wireLines, ← ih]
      simp [frameReply, WireLine.octets, Mark.octets, crlf]

theorem oneReply_markLines (hne : lines ≠ []) (h : ∀ line ∈ lines, lf ∉ line) :
  OneReply (markLines lines)
  := by
  induction lines with
  | nil => exact absurd rfl hne
  | cons line lines ih =>
    obtain ⟨hline, hlines⟩ := List.forall_mem_cons.mp h
    cases lines with
    | nil =>
      constructor
      · simp only [markLines, List.mem_singleton, forall_eq]
        exact ⟨hline, fun h => (by cases h), fun h => (by cases h)⟩
      · exact ⟨[], ⟨.final, line, true⟩, rfl, by simp, by simp⟩
    | cons next lines =>
      have hrest := List.cons_ne_nil next lines
      obtain ⟨hproper, conts, last, hsplit, hconts, hlast⟩ := ih hrest hlines
      rw [markLines_cons hrest]
      constructor
      · rw [List.forall_mem_cons]
        exact ⟨⟨hline, fun h => (by cases h), fun h => (by cases h)⟩, hproper⟩
      · refine ⟨⟨.continued, line, true⟩ :: conts, last, by rw [hsplit]; rfl, ?_, hlast⟩
        rw [List.forall_mem_cons]
        exact ⟨rfl, hconts⟩

theorem readReplyFrom_frameReply {limits : WireLimits}
    (hcode : validReplyCode code = true) (hne : lines ≠ []) (h : ∀ line ∈ lines, lf ∉ line)
    (hfits : Reading.Fits limits {} lines) (s : Feed UInt8 φ) :
  readReplyFrom limits (Feed.items (frameReply code lines) ++ s) =
    (.ok ⟨code, joinLines lines, lines⟩, s)
  := by
  have hread := readReplyFrom_fits hcode (oneReply_markLines hne h)
    (by rw [text_markLines]; exact hfits) s
  rw [text_markLines] at hread
  rw [frameReply_eq_wireLines, hread]

/-- A reply that can be encoded: its code is valid, and no line has CR, LF or NUL. -/
structure Reply.Encodable (reply : Reply) : Prop where
  code : validReplyCode reply.code = true
  clean : ∀ line ∈ reply.shown, ∀ b ∈ line, breaksLine b = false

theorem Reply.Encodable.lf_not_mem (h : reply.Encodable) :
  ∀ line ∈ reply.shown, lf ∉ line
  := by
  intro line hline hlf
  exact absurd (h.clean line hline lf hlf) (by decide)

theorem encodeReply_shown (reply : Reply) (enhanced : Option EnhancedCode)
    (context : ReplyContext) :
  encodeReply reply.code reply.text reply.lines enhanced context =
    if !validReplyCode reply.code then .error .code
    else if reply.shown.any (·.any breaksLine) then .error .text
    else (replyLines reply.code reply.shown enhanced context).map (frameReply reply.code)
  := by
  rw [encodeReply, ← Reply.shown]
  cases replyLines reply.code reply.shown enhanced context <;> rfl

theorem encodeReply_of_encodable (h : reply.Encodable)
    (enhanced : Option EnhancedCode) (context : ReplyContext) :
  encodeReply reply.code reply.text reply.lines enhanced context =
    (replyLines reply.code reply.shown enhanced context).map (frameReply reply.code)
  := by
  have hclean : (reply.shown.any fun line => line.any breaksLine) = false := by
    simpa using h.clean
  simp only [encodeReply_shown, h.code, hclean, Bool.not_true, Bool.false_eq_true, if_false]

theorem encodeReplies_collect {ε : Type} {replies : List (Reply × ReplyContext)}
    (h : ∀ r ∈ replies, r.1.Encodable) (out : Bytes) :
  encodeReplies (Sink.collect : Sink Bytes ε) replies out =
    (none, out ++ replies.flatMap fun r => frameReply r.1.code r.1.shown)
  := by
  induction replies generalizing out with
  | nil => simp [encodeReplies]
  | cons r replies ih =>
    obtain ⟨reply, context⟩ := r
    obtain ⟨hr, hreplies⟩ := List.forall_mem_cons.mp h
    have hlines : replyLines reply.code reply.shown none context = .ok reply.shown := by
      cases context <;> rfl
    simp only [encodeReplies, encodeReplyTo, encodeReply_of_encodable hr, hlines, Except.map,
      Sink.collect]
    rw [← Sink.collect, ih hreplies, List.flatMap_cons, List.append_assoc]

/-- Replies that were written are read back one by one, whatever their texts look like, and a reply
that is not valid leaves the writer as it is. -/
theorem replyCodec {ω ε : Type} (limits : WireLimits) :
  (∀ (replies : List (Reply × ReplyContext)) (s : Feed UInt8 φ),
    (∀ r ∈ replies, r.1.Encodable ∧ Reading.Fits limits {} r.1.shown) →
    ∃ out : Bytes, encodeReplies (Sink.collect : Sink Bytes ε) replies [] = (none, out) ∧
      readReplies limits replies.length (Feed.items out ++ s) =
        (replies.map fun r => .ok ⟨r.1.code, joinLines r.1.shown, r.1.shown⟩, s)) ∧
  ∀ (k : Sink ω ε) (reply : Reply) (enhanced : Option EnhancedCode) (context : ReplyContext)
    (out out' : ω) (e : ReplyEncodeError),
    encodeReplyTo k reply enhanced context out = (some (.invalid e), out') → out' = out
  := by
  constructor
  · intro replies s h
    refine ⟨_, encodeReplies_collect (fun r hr => (h r hr).1) [], ?_⟩
    rw [List.nil_append]
    induction replies with
    | nil => rfl
    | cons r replies ih =>
      obtain ⟨⟨hr, hfits⟩, hreplies⟩ := List.forall_mem_cons.mp h
      rw [List.flatMap_cons, Feed.items_append, List.append_assoc, List.length_cons, readReplies,
        readReplyFrom_frameReply hr.code r.1.shown_ne_nil hr.lf_not_mem hfits]
      simp only [ih hreplies, List.map_cons]
  · intro k reply enhanced context out out' e h
    rw [encodeReplyTo] at h
    split at h
    · cases h
      rfl
    · split at h <;> cases h

/-- Two replies with one code: the first has a text that looks like a continued line, the second an
empty one. -/
theorem replyCodec_two :
  readReplies {} 2 (Feed.items (ascii "250-250-x\r\n250 \r\n250 \r\n") ++ [] : Feed UInt8 Unit) =
    ([.ok ⟨250, joinLines [ascii "250-x", []], [ascii "250-x", []]⟩, .ok ⟨250, joinLines [[]], [[]]⟩],
      [])
  := by
  have hfirst : Reply.Encodable ⟨250, [], [ascii "250-x", []]⟩ := by constructor <;> decide
  have hsecond : Reply.Encodable ⟨250, [], []⟩ := by constructor <;> decide
  obtain ⟨out, hout, hread⟩ := (replyCodec (φ := Unit) (ω := Unit) (ε := Unit) {}).1
    [(⟨250, [], [ascii "250-x", []]⟩, .command), (⟨250, [], []⟩, .hello)] [] (by
      simp only [List.mem_cons, List.not_mem_nil, or_false, forall_eq_or_imp, forall_eq]
      refine ⟨⟨hfirst, ?_⟩, ⟨hsecond, ?_⟩⟩ <;> constructor <;> decide)
  have hwritten : out = ascii "250-250-x\r\n250 \r\n250 \r\n" :=
    (congrArg Prod.snd hout).symm.trans (by decide)
  subst hwritten
  exact hread

/-! ### Enhanced codes -/

def isDigitByte (c : UInt8) : Bool := 48 ≤ c && c ≤ 57

/-- `scanUpTo3Digits`: the number that one to three digits write, and how many they are. -/
def scanUpTo3Digits (w : Bytes) : Option (Nat × Nat) :=
  let digits := (w.take 3).takeWhile isDigitByte
  if digits.isEmpty then none
  else if (w.drop digits.length).head?.any isDigitByte then none
  else some (digits.foldl (fun n c => 10 * n + (c.toNat - 48)) 0, digits.length)

/-- `ExtractEnhancedCode`: the code at the beginning of a text, and the text behind it. -/
def extractEnhancedCode (text : Bytes) : Option (EnhancedCode × Bytes) :=
  match text with
  | c :: d :: w =>
    if c ∉ [50, 52, 53] || d != dot then none
    else
      match scanUpTo3Digits w with
      | none => none
      | some (subject, n) =>
        match w.drop n with
        | [] => none
        | d :: w =>
          if d != dot then none
          else
            match scanUpTo3Digits w with
            | none => none
            | some (detail, m) =>
              let code : EnhancedCode := ⟨(c.toNat - 48 : Nat), subject, detail,
                text.take (2 + n + 1 + m)⟩
              match w.drop m with
              | [] => some (code, [])
              | b :: rest => if b == sp then some (code, rest) else none
  | _ => none

/-- One to three digits. -/
structure IsShortNumber (digits : Bytes) : Prop where
  ne_nil : digits ≠ []
  length_le : digits.length ≤ 3
  digit : ∀ c ∈ digits, isDigitByte c = true

/-- The number that digits write, as the scanner computes it. -/
def scannedValue (digits : Bytes) : Nat := digits.foldl (fun n c => 10 * n + (c.toNat - 48)) 0

theorem scanUpTo3Digits_append {digits rest : Bytes} (h : IsShortNumber digits)
    (hrest : rest.head?.any isDigitByte = false) :
  scanUpTo3Digits (digits ++ rest) = some (scannedValue digits, digits.length)
  := by
  have hscan : ((digits ++ rest).take 3).takeWhile isDigitByte = digits := by
    rw [List.take_append, List.take_of_length_le h.length_le,
      List.takeWhile_append_of_pos h.digit]
    cases rest with
    | nil => simp
    | cons b rest =>
      have hb : isDigitByte b = false := by simpa using hrest
      cases 3 - digits.length with
      | zero => simp
      | succ k => simp [hb]
  simp only [scanUpTo3Digits, hscan, List.drop_left, hrest]
  simp [h.ne_nil, scannedValue]

theorem isShortNumber_itoa {n : Nat} (hn : n ≤ 999) :
  IsShortNumber (itoa n)
  := by
  constructor
  · apply itoa_ne_nil
  · apply (itoa_length_le (by decide)).mpr
    omega
  · intro c hc
    simpa [isDigitByte] using itoa_digits (Int.natCast_nonneg n) hc

/-- The text behind a code, which a space separates from it. -/
def behindCode : Bytes → Option Bytes
  | [] => some []
  | b :: rest => if b == sp then some rest else none

/-- The text of a code. -/
def codeText (c : UInt8) (subject detail : Bytes) : Bytes :=
  c :: dot :: (subject ++ dot :: detail)

theorem extractEnhancedCode_codeText {c : UInt8} {subject detail : Bytes}
    (hc : c ∈ [50, 52, 53]) (hsubject : IsShortNumber subject) (hdetail : IsShortNumber detail)
    (htail : tail.head?.any isDigitByte = false) :
  extractEnhancedCode (codeText c subject detail ++ tail)
    = (behindCode tail).map (⟨(c.toNat - 48 : Nat), scannedValue subject, scannedValue detail,
        codeText c subject detail⟩, ·)
  := by
  have hsubject_scan : scanUpTo3Digits (subject ++ dot :: (detail ++ tail)) = _ :=
    scanUpTo3Digits_append hsubject (show isDigitByte dot = false by decide)
  have hdetail_scan := scanUpTo3Digits_append hdetail htail
  have hclass : decide (c ∉ [50, 52, 53]) = false := by simp [hc]
  have htext : codeText c subject detail ++ tail
      = c :: dot :: (subject ++ dot :: (detail ++ tail)) := by
    simp [codeText]
  have hraw : (codeText c subject detail ++ tail).take (2 + subject.length + 1 + detail.length)
      = codeText c subject detail := by
    apply List.take_left'
    simp [codeText]
    omega
  rw [htext] at hraw ⊢
  simp only [extractEnhancedCode, hclass, bne_self_eq_false, Bool.or_self, Bool.false_eq_true,
    if_false, hsubject_scan, List.drop_left, hdetail_scan, hraw]
  cases tail with
  | nil => rfl
  | cons b rest => cases hsp : b == sp <;> simp [behindCode, hsp]

theorem extractEnhancedCode_format (h : formatEnhancedCode code enhanced = .ok w)
    (htail : tail.head?.any isDigitByte = false) :
  extractEnhancedCode (w ++ tail) = (behindCode tail).map ({ enhanced with raw := w }, ·)
  := by
  have hok : (formatEnhancedCode code enhanced).isOk = true := by rw [h]; rfl
  obtain ⟨hcls, hsubject, hsubject_le, hdetail, hdetail_le, hcode⟩ := formatEnhancedCode_isOk.mp hok
  obtain ⟨cls, subject, detail, raw⟩ := enhanced
  obtain ⟨subject, rfl⟩ := Int.eq_ofNat_of_zero_le hsubject
  obtain ⟨detail, rfl⟩ := Int.eq_ofNat_of_zero_le hdetail
  simp only at hcls hsubject_le hdetail_le hcode
  -- the class is a single digit
  obtain ⟨c, hc, hitoa, hvalue⟩ : ∃ c : UInt8, c ∈ [50, 52, 53] ∧ itoa cls = [c] ∧
      ((c.toNat - 48 : Nat) : Int) = cls := by
    simp only [List.mem_cons, List.not_mem_nil, or_false] at hcls
    rcases hcls with rfl | rfl | rfl
    · exact ⟨50, by decide, by decide, by decide⟩
    · exact ⟨52, by decide, by decide, by decide⟩
    · exact ⟨53, by decide, by decide, by decide⟩
  have hw : w = codeText c (itoa subject) (itoa detail) := by
    rw [formatEnhancedCode] at h
    split at h
    · cases h
    · split at h
      · cases h
      · cases h
        simp [hitoa, codeText]
  rw [hw, extractEnhancedCode_codeText hc (isShortNumber_itoa (by omega))
    (isShortNumber_itoa (by omega)) htail, hvalue]
  simp only [scannedValue, foldl_itoa]

/-! ### Enhanced codes on the wire -/

/-- A line with its enhanced code in front. -/
def withCode (code line : Bytes) : Bytes := if line.isEmpty then code else code ++ [sp] ++ line

theorem withCode_eq_append (code line : Bytes) :
  withCode code line = code ++ if line.isEmpty then [] else sp :: line
  := by
  cases line <;> simp [withCode]

theorem joinLines_cons (h : lines ≠ []) :
  joinLines (line :: lines) = line ++ lf :: joinLines lines
  := by
  cases lines with
  | nil => exact absurd rfl h
  | cons next lines => simp [joinLines]

theorem length_joinLines_lt {code : Bytes} (hcode : code ≠ []) (hne : lines ≠ []) :
  (joinLines lines).length < (joinLines (lines.map (withCode code))).length
  := by
  have hpos : 0 < code.length := List.length_pos_iff.mpr hcode
  have hline (line : Bytes) : line.length < (withCode code line).length := by
    cases line with
    | nil => exact hpos
    | cons b line => simp [withCode]; omega
  induction lines with
  | nil => exact absurd rfl hne
  | cons line lines ih =>
    have hfirst := hline line
    cases lines with
    | nil => simpa [joinLines] using hfirst
    | cons next lines =>
      have hlines := List.cons_ne_nil next lines
      have hmap : (next :: lines).map (withCode code) ≠ [] := by simp
      have hrest := ih hlines
      rw [List.map_cons, joinLines_cons hlines, joinLines_cons hmap]
      simp only [List.length_append, List.length_cons]
      omega

theorem encodeReply_enhanced
    (h : encodeReply reply.code reply.text reply.lines (some enhanced) .command = .ok w) :
  reply.Encodable ∧ ∃ code, formatEnhancedCode reply.code enhanced = .ok code ∧
    w = frameReply reply.code (reply.shown.map (withCode code))
  := by
  have hencodable : reply.Encodable := by
    rw [encodeReply_shown] at h
    split at h
    · cases h
    · next hcode =>
      split at h
      · cases h
      · next hclean =>
        constructor
        · simpa using hcode
        · simpa using hclean
  refine ⟨hencodable, ?_⟩
  rw [encodeReply_of_encodable hencodable, replyLines] at h
  cases hformat : formatEnhancedCode reply.code enhanced with
  | error e =>
    rw [hformat] at h
    cases h
  | ok code =>
    rw [hformat] at h
    cases h
    exact ⟨code, rfl, rfl⟩

/-- The error that the client reports says what the server meant. -/
structure Survives (e : SmtpError) (code : Int) (enhanced : EnhancedCode) (lines : List Bytes) :
    Prop where
  code_eq : e.code = code
  cls_eq : e.enhanced.cls = enhanced.cls
  subject_eq : e.enhanced.subject = enhanced.subject
  detail_eq : e.enhanced.detail = enhanced.detail
  text_eq : e.text = joinLines lines

theorem extractEnhancedCode_lines
    (h : formatEnhancedCode code enhanced = .ok w) (hne : lines ≠ []) :
  extractEnhancedCode (joinLines ((line :: lines).map (withCode w))) =
    if line.isEmpty then none
    else some ({ enhanced with raw := w }, line ++ lf :: joinLines (lines.map (withCode w)))
  := by
  rw [List.map_cons, joinLines_cons (by simpa using hne), withCode_eq_append, List.append_assoc,
    extractEnhancedCode_format h]
  · cases line <;> rfl
  · cases line <;> rfl

theorem extractEnhancedCode_line (h : formatEnhancedCode code enhanced = .ok w) (line : Bytes) :
  extractEnhancedCode (joinLines [withCode w line]) = some ({ enhanced with raw := w }, line)
  := by
  have hjoin : joinLines [withCode w line] = withCode w line := by simp [joinLines]
  rw [hjoin, withCode_eq_append, extractEnhancedCode_format h]
  · cases line <;> rfl
  · cases line <;> rfl

theorem formatEnhancedCode_ne_nil (h : formatEnhancedCode code enhanced = .ok w) :
  w ≠ []
  := by
  rw [formatEnhancedCode] at h
  split at h
  · cases h
  · split at h
    · cases h
    · cases h
      simp

theorem survives_iff (opts : Options)
    (h : formatEnhancedCode code enhanced = .ok w) (hne : lines ≠ []) :
  Survives (replyError { opts with extractEnhancedCode := extractEnhancedCode } true
      ⟨code, joinLines (lines.map (withCode w)), lines.map (withCode w)⟩) code enhanced lines ↔
    lines.length = 1
  := by
  have hok : (formatEnhancedCode code enhanced).isOk = true := by rw [h]; rfl
  match lines with
  | [] => exact absurd rfl hne
  | [line] =>
    simp only [replyError, if_true, List.map_singleton, extractEnhancedCode_line h,
      List.length_singleton, iff_true]
    exact ⟨rfl, rfl, rfl, rfl, by simp [joinLines]⟩
  | line :: next :: lines =>
    have hlines := List.cons_ne_nil next lines
    simp only [replyError, if_true, extractEnhancedCode_lines h hlines, List.length_cons]
    constructor
    · intro hsurvives
      cases line with
      | nil =>
        -- no code is found, and no class is zero
        have hzero : (0 : Int) = enhanced.cls := hsurvives.cls_eq
        have hcls := (formatEnhancedCode_isOk.mp hok).1
        rw [← hzero] at hcls
        exact absurd hcls (by decide)
      | cons b line =>
        -- the codes of the other lines are left in the text
        have htext : (b :: line) ++ lf :: joinLines ((next :: lines).map (withCode w)) =
            joinLines ((b :: line) :: next :: lines) := hsurvives.text_eq
        have hlong := length_joinLines_lt (formatEnhancedCode_ne_nil h) hlines
        rw [joinLines_cons hlines] at htext
        have hlength := congrArg List.length htext
        simp only [List.length_append, List.length_cons] at hlength
        omega
    · omega

/-- A reply with an enhanced code, encoded by a server and read within the limits by a client that
looks for such codes: the client reports what the server meant exactly if the reply has one line. -/
theorem enhancedReply_iff (opts : Options) {limits : WireLimits} {reply : Reply}
    {enhanced : EnhancedCode} {w : Bytes} (hne : reply.lines ≠ [])
    (hw : encodeReply reply.code reply.text reply.lines (some enhanced) .command = .ok w)
    (hfits : ∀ lines, replyLines reply.code reply.lines (some enhanced) .command = .ok lines →
      Reading.Fits limits {} lines)
    (s : Feed UInt8 φ) :
  (∃ r, (readReplyFrom limits (Feed.items w ++ s)).1 = .ok r ∧
    Survives (replyError { opts with extractEnhancedCode := extractEnhancedCode } true r)
      reply.code enhanced reply.lines) ↔
    reply.lines.length = 1
  := by
  obtain ⟨hencodable, code, hcode, rfl⟩ := encodeReply_enhanced hw
  have hshown : reply.shown = reply.lines := by simp [Reply.shown, hne]
  rw [hshown]
  have hlf : ∀ line ∈ reply.lines.map (withCode code), lf ∉ line := by
    intro line hline
    obtain ⟨text, htext, rfl⟩ := List.mem_map.mp hline
    have hclean : lf ∉ text := hencodable.lf_not_mem text (hshown ▸ htext)
    have hpre : lf ∉ code := fun hmem =>
      absurd (formatEnhancedCode_unbroken hcode hmem) (by decide)
    rw [withCode_eq_append]
    cases text with
    | nil => simpa using hpre
    | cons b text =>
      have hsp : lf ≠ sp := by decide
      simpa [hpre, hsp] using hclean
  have hread := readReplyFrom_frameReply hencodable.code (by simpa using hne) hlf
    (hfits (reply.lines.map (withCode code)) (by rw [replyLines, hcode]; rfl)) s
  rw [← survives_iff opts hcode hne, hread]
  simp

/-- A single line, whose text begins like a code. -/
theorem enhancedReply_iff_one :
  ∃ r, (readReplyFrom {} (Feed.items (ascii "550 5.1.1 5.7.1 no\r\n") ++ [] : Feed UInt8 Unit)).1 =
      .ok r ∧
    Survives (replyError { Options.plain false with extractEnhancedCode := extractEnhancedCode } true r)
      550 ⟨5, 1, 1, []⟩ [ascii "5.7.1 no"]
  := by
  have hne : (Reply.mk 550 [] [ascii "5.7.1 no"]).lines ≠ [] := by decide
  apply (enhancedReply_iff (Options.plain false) hne (by decide) _ []).mpr
  · rfl
  · intro lines hlines
    cases hlines
    constructor <;> decide

/-- Two lines: the code of the second one stays in the text. -/
theorem enhancedReply_two :
  ∃ r, (readReplyFrom {} (Feed.items (ascii "550-5.1.1 a\r\n550 5.1.1 b\r\n") : Feed UInt8 Unit)).1 =
      .ok r ∧
    encodeReply 550 [] [ascii "a", ascii "b"] (some ⟨5, 1, 1, []⟩) .command =
      .ok (ascii "550-5.1.1 a\r\n550 5.1.1 b\r\n") ∧
    replyError { Options.plain false with extractEnhancedCode := extractEnhancedCode } true r =
      ⟨550, ⟨5, 1, 1, ascii "5.1.1"⟩, ascii "a\n5.1.1 b"⟩
  := ⟨⟨550, ascii "5.1.1 a\n5.1.1 b", [ascii "5.1.1 a", ascii "5.1.1 b"]⟩, by decide +kernel,
    by decide +kernel, by decide +kernel⟩

end GoSmtp.Client
