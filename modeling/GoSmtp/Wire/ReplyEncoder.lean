import GoSmtp.Reply
import GoSmtp.Wire.Decimal

/-!
# The encoding of replies

`EncodeReply` checks a reply as a whole before it writes anything: the code, the octets of every
line, and the enhanced code that goes in front of each of them.
-/

namespace GoSmtp

inductive ReplyEncodeError where
  | code
  | text
  | enhancedSyntax
  | enhancedMismatch
  deriving DecidableEq, Repr

def validReplyCode (code : Int) : Bool :=
  200 ≤ code && code ≤ 559 && (code.tdiv 10).tmod 10 ≤ 5

def formatEnhancedCode (code : Int) (enhanced : EnhancedCode) : Except ReplyEncodeError Bytes :=
  if enhanced.cls ∉ [2, 4, 5] ∨ enhanced.subject < 0 ∨ enhanced.subject > 999 ∨
      enhanced.detail < 0 ∨ enhanced.detail > 999 then .error .enhancedSyntax
  else if code.tdiv 100 ≠ enhanced.cls then .error .enhancedMismatch
  else .ok (itoa enhanced.cls ++ [dot] ++ itoa enhanced.subject ++ [dot] ++ itoa enhanced.detail)

theorem formatEnhancedCode_isOk {code : Int} {enhanced : EnhancedCode} :
  (formatEnhancedCode code enhanced).isOk = true ↔
    enhanced.cls ∈ [2, 4, 5] ∧ 0 ≤ enhanced.subject ∧ enhanced.subject ≤ 999 ∧
    0 ≤ enhanced.detail ∧ enhanced.detail ≤ 999 ∧ code.tdiv 100 = enhanced.cls
  := by
  rw [formatEnhancedCode]
  split
  · next h =>
    simp only [Except.isOk, Except.toBool, Bool.false_eq_true, false_iff]
    rintro ⟨hcls, hrest⟩
    rcases h with hnot | hrange
    · exact hnot hcls
    · omega
  · next h =>
    obtain ⟨hcls, hrange⟩ := not_or.mp h
    split
    · simp only [Except.isOk, Except.toBool, Bool.false_eq_true, false_iff]
      omega
    · next hclass =>
      simp only [Except.isOk, Except.toBool, true_iff]
      refine ⟨not_not.mp hcls, ?_⟩
      omega

/-- An octet that would break the framing of a reply. -/
def breaksLine (b : UInt8) : Bool := b == cr || b == lf || b == 0

theorem itoa_unbroken {n : Int} (h : 0 ≤ n) {b : UInt8} (hb : b ∈ itoa n) :
  breaksLine b = false
  := by
  obtain ⟨hlow, -⟩ := itoa_digits h hb
  simp only [breaksLine, Bool.or_eq_false_iff, beq_eq_false_iff_ne]
  refine ⟨⟨?_, ?_⟩, ?_⟩ <;> (rintro rfl; exact absurd hlow (by decide))

theorem formatEnhancedCode_unbroken {code : Int} {enhanced : EnhancedCode} {w : Bytes}
    (h : formatEnhancedCode code enhanced = .ok w) {b : UInt8} (hb : b ∈ w) :
  breaksLine b = false
  := by
  have hok : (formatEnhancedCode code enhanced).isOk = true := by rw [h]; rfl
  obtain ⟨hcls, hsubject, -, hdetail, -, hcode⟩ := formatEnhancedCode_isOk.mp hok
  have hzero : 0 ≤ enhanced.cls := by
    simp only [List.mem_cons, List.not_mem_nil, or_false] at hcls
    omega
  have hdot : breaksLine dot = false := by decide
  rw [formatEnhancedCode] at h
  split at h
  · cases h
  · split at h
    · cases h
    · cases h
      simp only [List.mem_append, List.mem_singleton] at hb
      rcases hb with (((hb | rfl) | hb) | rfl) | hb
      · exact itoa_unbroken hzero hb
      · exact hdot
      · exact itoa_unbroken hsubject hb
      · exact hdot
      · exact itoa_unbroken hdetail hb

/-- The lines of a reply, each with its enhanced code. -/
def replyLines (code : Int) (lines : List Bytes) (enhanced : Option EnhancedCode) :
    ReplyContext → Except ReplyEncodeError (List Bytes)
  | .command =>
    match enhanced with
    | none => .ok lines
    | some enhanced => do
        let code ← formatEnhancedCode code enhanced
        pure (lines.map fun line => if line.isEmpty then code else code ++ [sp] ++ line)
  | _ => .ok lines

/-- Every line but the last is marked with a hyphen. -/
def frameReply (code : Int) : List Bytes → Bytes
  | [] => []
  | [line] => itoa code ++ [sp] ++ line ++ crlf
  | line :: lines => itoa code ++ [45] ++ line ++ crlf ++ frameReply code lines

/-- `EncodeReply`: the text stands for the lines if there are none. -/
def encodeReply (code : Int) (text : Bytes) (lines : List Bytes) (enhanced : Option EnhancedCode)
    (context : ReplyContext) : Except ReplyEncodeError Bytes := do
  let lines := if lines.isEmpty then [text] else lines
  if !validReplyCode code then .error .code
  else if lines.any (·.any breaksLine) then .error .text
  else
    let lines ← replyLines code lines enhanced context
    pure (frameReply code lines)

end GoSmtp
