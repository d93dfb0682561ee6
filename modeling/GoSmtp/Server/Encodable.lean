import GoSmtp.Wire.ReplyEncoder
import GoSmtp.Server.Answers

/-!
# Replies that can be encoded

The server repairs the enhanced code of a reply before it encodes it, and the encoder checks the
reply once more.  What the encoder does not take ends the connection.
-/

namespace GoSmtp.Server

variable {φ ω : Type}

def encodeWireReply (r : WireReply) : Except ReplyEncodeError Bytes :=
  encodeReply r.code r.text r.lines (if r.enhanced.isZero then none else some r.enhanced) r.context

/-- The encoder writes the reply. -/
def WireReply.encodable (r : WireReply) : Bool := (encodeWireReply r).isOk

theorem WireReply.encodable_iff {r : WireReply} (h : r.context = .command) :
  r.encodable = true ↔
    validReplyCode r.code = true ∧
    (∀ line ∈ if r.lines.isEmpty then [r.text] else r.lines, ∀ b ∈ line, breaksLine b = false) ∧
    (r.enhanced.isZero = true ∨ (formatEnhancedCode r.code r.enhanced).isOk = true)
  := by
  rw [encodable, encodeWireReply, encodeReply, h]
  cases hcode : validReplyCode r.code with
  | false => simp [Except.isOk, Except.toBool]
  | true =>
    have htext : (∀ line ∈ if r.lines.isEmpty then [r.text] else r.lines,
        ∀ b ∈ line, breaksLine b = false) ↔
        (if r.lines.isEmpty then [r.text] else r.lines).any (·.any breaksLine) = false := by
      simp
    rw [htext]
    cases hany : (if r.lines.isEmpty then [r.text] else r.lines).any (·.any breaksLine) with
    | true => simp [Except.isOk, Except.toBool]
    | false =>
      cases hzero : r.enhanced.isZero with
      | true => simp [replyLines, Except.isOk, Except.toBool, Bind.bind, Except.bind, Pure.pure,
          Except.pure]
      | false =>
        cases hformat : formatEnhancedCode r.code r.enhanced <;>
          simp [hformat, replyLines, Except.isOk, Except.toBool, Bind.bind, Except.bind,
            Pure.pure, Except.pure]

theorem normalize_valid {code : Int} {enhanced : EnhancedCode} (hclass : code.tdiv 100 ∈ [2, 4, 5]) :
  ((enhanced.normalize code).1.isZero = true ∨
      (formatEnhancedCode code (enhanced.normalize code).1).isOk = true) ↔
    enhanced.isZero = true ∨ enhanced.cls ≠ code.tdiv 100 ∨
      0 ≤ enhanced.subject ∧ enhanced.subject ≤ 999 ∧ 0 ≤ enhanced.detail ∧ enhanced.detail ≤ 999
  := by
  rw [EnhancedCode.normalize]
  cases hzero : enhanced.isZero with
  | true => simp [hzero]
  | false =>
    by_cases hcls : enhanced.cls = code.tdiv 100
    · simp [hzero, hcls, formatEnhancedCode_isOk, hclass]
    · simp [hcls, formatEnhancedCode_isOk, hclass]

/-- The transport takes the replies that can be encoded, and no other. -/
def Env.Encodes (env : Env φ ω) : Prop := ∀ r w, env.takes r w = r.encodable

/-! ### Results -/

/-- The reply says the code in one line. -/
def WireReply.Spelled (r : WireReply) : Prop :=
  ∃ line, encodeWireReply r = .ok (itoa r.code ++ [sp] ++ line ++ crlf) ∧
    ∀ b ∈ line, breaksLine b = false

theorem WireReply.spelled_iff {r : WireReply} (hcontext : r.context = .command)
    (hlines : r.lines = []) :
  r.Spelled ↔ r.encodable = true
  := by
  constructor
  · rintro ⟨line, hencode, -⟩
    rw [encodable, hencode]
    rfl
  · intro hencodable
    obtain ⟨hcode, htext, -⟩ := (encodable_iff hcontext).mp hencodable
    simp only [hlines, List.isEmpty_nil, if_true, List.mem_singleton, forall_eq] at htext
    have hany : r.text.any breaksLine = false := by simpa using htext
    rw [encodable, encodeWireReply, encodeReply, hcontext, hlines] at hencodable
    rw [Spelled, encodeWireReply, encodeReply, hcontext, hlines]
    simp only [hcode, hany, List.isEmpty_nil, if_true, List.any_cons, List.any_nil, Bool.or_false,
      Bool.not_true, Bool.false_eq_true, if_false] at hencodable ⊢
    cases hzero : r.enhanced.isZero with
    | true =>
      refine ⟨r.text, ?_, htext⟩
      simp [replyLines, frameReply, Bind.bind, Except.bind, Pure.pure, Except.pure]
    | false =>
      cases hformat : formatEnhancedCode r.code r.enhanced with
      | error e =>
        simp [hzero, replyLines, hformat, Except.isOk, Except.toBool, Bind.bind, Except.bind]
          at hencodable
      | ok w =>
        have hunbroken : ∀ b ∈ w, breaksLine b = false := fun b hb =>
          formatEnhancedCode_unbroken hformat hb
        refine ⟨if r.text.isEmpty then w else w ++ [sp] ++ r.text, ?_, ?_⟩
        · simp [replyLines, frameReply, hformat, Bind.bind, Except.bind, Pure.pure, Except.pure]
        · have hsp : breaksLine sp = false := by decide
          split
          · exact hunbroken
          · intro b hb
            simp only [List.mem_append, List.mem_singleton] at hb
            rcases hb with (hb | rfl) | hb
            · exact hunbroken b hb
            · exact hsp
            · exact htext b hb

namespace Session

/-- The reply to a result with a valid code and a text in one line is encoded if its enhanced code
is none, is repaired, or is valid. -/
theorem resultReply_encodable {r : RecipientResult} (hcode : validReplyCode r.code = true)
    (hclass : r.code.tdiv 100 ∈ [2, 4, 5]) (htext : ∀ b ∈ r.text, breaksLine b = false) :
  (resultReply r).encodable = true ↔
    r.enhanced.isZero = true ∨ r.enhanced.cls ≠ r.code.tdiv 100 ∨
      0 ≤ r.enhanced.subject ∧ r.enhanced.subject ≤ 999 ∧
      0 ≤ r.enhanced.detail ∧ r.enhanced.detail ≤ 999
  := by
  have hspoken : ∀ b ∈ (resultReply r).text, breaksLine b = false := by
    have hok : ∀ b ∈ ascii "OK", breaksLine b = false := by decide
    cases hempty : r.text.isEmpty with
    | true => simpa [resultReply, RecipientResult.normalize, hempty] using hok
    | false => simpa [resultReply, RecipientResult.normalize, hempty] using htext
  rw [WireReply.encodable_iff rfl, ← normalize_valid hclass]
  constructor
  · rintro ⟨-, -, h⟩
    exact h
  · intro h
    refine ⟨hcode, ?_, h⟩
    intro line hline
    obtain rfl := List.mem_singleton.mp hline
    exact hspoken

/-- A result is told to the peer, by one reply with its code, exactly if its enhanced code is none,
is repaired, or is valid: otherwise the encoder refuses the reply and the connection ends. -/
theorem reported_iff {env : Env φ ω} (henv : env.Encodes) (s : Session φ ω) {r : RecipientResult}
    (hcode : validReplyCode r.code = true) (hclass : r.code.tdiv 100 ∈ [2, 4, 5])
    (htext : ∀ b ∈ r.text, breaksLine b = false) :
  ((∃ line, encodeWireReply (resultReply r) = .ok (itoa r.code ++ [sp] ++ line ++ crlf) ∧
        ∀ b ∈ line, breaksLine b = false) ∧
      (writeResult env r s).1 = .ok ()) ↔
    r.enhanced.isZero = true ∨ r.enhanced.cls ≠ r.code.tdiv 100 ∨
      0 ≤ r.enhanced.subject ∧ r.enhanced.subject ≤ 999 ∧
      0 ≤ r.enhanced.detail ∧ r.enhanced.detail ≤ 999
  := by
  have hspelled : (resultReply r).Spelled ↔ (resultReply r).encodable = true :=
    WireReply.spelled_iff rfl rfl
  have hwritten : (writeResult env r s).1 = .ok () ↔ (resultReply r).encodable = true := by
    rw [← henv (resultReply r) s.world, writeResult]
    cases htakes : env.takes (resultReply r) s.world with
    | true => simp [writeReply_takes htakes]
    | false =>
      obtain ⟨e, w, hfails⟩ := writeReply_fails htakes
      simp [hfails]
  rw [← resultReply_encodable hcode hclass htext]
  constructor
  · rintro ⟨-, h⟩
    exact hwritten.mp h
  · intro h
    exact ⟨hspelled.mpr h, hwritten.mpr h⟩

/-- A world whose transport takes what can be encoded. -/
def encoding : Env Unit Unit :=
  { Env.plain with write := fun r w => (if r.encodable then none else some (), w) }

theorem encodes_encoding :
  encoding.Encodes
  := by
  intro r w
  cases h : r.encodable <;> simp [Env.takes, encoding, Env.plain, h]

/-- A result with an enhanced code that no reply can carry. -/
def overlong : RecipientResult :=
  ⟨[], ascii "DATA", 250, ⟨2, 1000, 0, []⟩, ascii "Queued"⟩

/-- A backend that reads what there is and returns the result. -/
def returning (r : RecipientResult) : Env Unit Unit :=
  { encoding with
    data := fun w => .read 64 w fun _ => .read 64 w fun _ => .read 64 w fun _ => .ret [r] none w }

/-- The session before DATA. -/
def undelivered (r : RecipientResult) : Session Unit Unit :=
  (after (.small 64 (by decide)) (returning r) .plain SpoolManager.small false
    (Feed.items (["EHLO a", "MAIL FROM:<>", "RCPT TO:<c>", "DATA", "a", "."].flatMap fun line =>
      ascii line ++ crlf)) () 3).1

/-- A message whose result can be told is reported. -/
theorem reported_iff_queued :
  (writeResult encoding { overlong with enhanced := ⟨2, 6, 0, []⟩ } (undelivered overlong)).1
    = .ok ()
  := by
  have hreported := reported_iff encodes_encoding (undelivered overlong)
    (r := { overlong with enhanced := ⟨2, 6, 0, []⟩ }) (by decide) (by decide) (by decide)
  exact (hreported.mpr (by decide)).2

/-- A message is accepted with an enhanced code that cannot be told: after the 354 reply the session
ends, and nothing is said of the message. -/
theorem not_reported_overlong :
  validReplyCode overlong.code = true ∧ overlong.code.tdiv 100 ∈ [2, 4, 5] ∧
    (∀ b ∈ overlong.text, breaksLine b = false) ∧
    encodeWireReply (resultReply overlong) = .error .enhancedSyntax ∧
    let s := undelivered overlong
    let x := turn (.small 64 (by decide)) ((returning overlong).withAuth .plain) s
    x.1 ≠ .ok true ∧ (x.2.said.drop s.said.length).map (·.code) = [354]
  := by
  decide +kernel

end Session

end GoSmtp.Server
