import Mathlib.Tactic.Common
import GoSmtp.Wire.Command

/-!
# The protocol state

The sequencing table of `smtpserver/state.go`, with the row that `ext_atrn.go` adds: in
which modes and phases a command is legal, and which phase an event leads to.
-/

namespace GoSmtp

namespace Server

inductive ListenerMode where
  | smtp
  | lmtp
  deriving DecidableEq, Repr

inductive SessionPhase where
  | connected
  | ready
  | mail
  | recipients
  | failedBDAT
  | closed
  deriving DecidableEq, Repr

structure ProtocolState where
  mode : ListenerMode
  phase : SessionPhase
  tls : Bool
  authenticated : Bool
  hello : Bytes
  deriving DecidableEq, Repr

/-- `newProtocolState`. -/
def ProtocolState.new (mode : ListenerMode) : ProtocolState where
  mode := mode
  phase := .connected
  tls := false
  authenticated := false
  hello := []

/-! ### Commands -/

/-- The verbs that have a row in the table; `other` stands for all that have none. -/
inductive Verb where
  | helo | ehlo | lhlo
  | mail | rcpt | data | bdat | rset
  | noop | quit | vrfy | expn | help
  | etrn | startTLS | auth | atrn
  | other
  deriving DecidableEq, Repr

/-- The spelling of a verb, in upper case. -/
def Verb.spelling : Verb → Bytes
  | .helo => ascii "HELO"
  | .ehlo => ascii "EHLO"
  | .lhlo => ascii "LHLO"
  | .mail => ascii "MAIL"
  | .rcpt => ascii "RCPT"
  | .data => ascii "DATA"
  | .bdat => ascii "BDAT"
  | .rset => ascii "RSET"
  | .noop => ascii "NOOP"
  | .quit => ascii "QUIT"
  | .vrfy => ascii "VRFY"
  | .expn => ascii "EXPN"
  | .help => ascii "HELP"
  | .etrn => ascii "ETRN"
  | .startTLS => ascii "STARTTLS"
  | .auth => ascii "AUTH"
  | .atrn => ascii "ATRN"
  | .other => []

def Verb.known : List Verb :=
  [.helo, .ehlo, .lhlo, .mail, .rcpt, .data, .bdat, .rset, .noop, .quit, .vrfy, .expn, .help,
    .etrn, .startTLS, .auth, .atrn]

/-- The verb a peer spelled, in any case. -/
def Verb.ofSpelling (w : Bytes) : Verb :=
  (known.find? fun v => v.spelling == toUpper w).getD .other

inductive CommandLegality where
  | unknown
  | allowed
  | wrongMode
  | wrongState
  deriving DecidableEq, Repr

structure CommandRule where
  modes : List ListenerMode
  phases : List SessionPhase
  requirePlaintext : Bool := false
  requireUnauthenticated : Bool := false

/-- `commandRules` and `extensionCommandRule`. -/
def commandRules : Verb → Option CommandRule
  | .helo | .ehlo =>
    some { modes := [.smtp], phases := [.connected, .ready, .mail, .recipients] }
  | .lhlo => some { modes := [.lmtp], phases := [.connected, .ready, .mail, .recipients] }
  | .mail => some { modes := [.smtp, .lmtp], phases := [.ready, .mail, .recipients] }
  | .rcpt => some { modes := [.smtp, .lmtp], phases := [.mail, .recipients] }
  | .data => some { modes := [.smtp, .lmtp], phases := [.recipients] }
  -- BDAT is legal without MAIL and RCPT, so that its octets can be consumed.
  | .bdat | .rset =>
    some { modes := [.smtp, .lmtp], phases := [.ready, .mail, .recipients, .failedBDAT] }
  | .noop | .quit =>
    some { modes := [.smtp, .lmtp],
           phases := [.connected, .ready, .mail, .recipients, .failedBDAT] }
  | .vrfy | .expn | .help =>
    some { modes := [.smtp, .lmtp], phases := [.ready, .mail, .recipients] }
  | .etrn | .atrn => some { modes := [.smtp], phases := [.ready] }
  | .startTLS =>
    some { modes := [.smtp, .lmtp], phases := [.ready], requirePlaintext := true }
  | .auth =>
    some { modes := [.smtp, .lmtp], phases := [.ready], requireUnauthenticated := true }
  | .other => none

def ProtocolState.legality (s : ProtocolState) (verb : Verb) : CommandLegality :=
  match commandRules verb with
  | none => .unknown
  | some rule =>
    if s.mode ∉ rule.modes then .wrongMode
    else if s.phase ∉ rule.phases ∨ (rule.requirePlaintext ∧ s.tls) ∨
        (rule.requireUnauthenticated ∧ s.authenticated) then .wrongState
    else .allowed

/-! ### Events -/

inductive StateEvent where
  | hello
  | mailAccepted
  | recipientAccepted
  | transactionComplete
  | transactionFailed
  | bdatFailed
  | reset
  | startTLS
  | authenticated
  | close
  deriving DecidableEq, Repr

/-- `phaseTransitions`: the phases an event may occur in, and the phase it leads to. -/
def phaseTransitions : StateEvent → List SessionPhase × SessionPhase
  | .hello => ([.connected, .ready, .mail, .recipients], .ready)
  | .mailAccepted => ([.ready, .mail, .recipients], .mail)
  | .recipientAccepted => ([.mail, .recipients], .recipients)
  | .transactionComplete => ([.recipients], .ready)
  | .transactionFailed => ([.mail, .recipients], .ready)
  | .bdatFailed => ([.recipients], .failedBDAT)
  | .reset => ([.ready, .mail, .recipients, .failedBDAT], .ready)
  | .startTLS => ([.ready], .connected)
  | .authenticated => ([.ready], .ready)
  | .close => ([.connected, .ready, .mail, .recipients, .failedBDAT], .closed)

def ProtocolState.applyEvent (s : ProtocolState) : StateEvent → ProtocolState
  | .hello => { s with hello := [] }
  -- A successful handshake discards all earlier knowledge.
  | .startTLS => { s with tls := true, authenticated := false, hello := [] }
  | .authenticated => { s with authenticated := true }
  | .close => { s with hello := [] }
  | _ => s

/-- `transition`: `none` if the event is not valid in the phase. -/
def ProtocolState.transition (s : ProtocolState) (event : StateEvent) : Option ProtocolState :=
  if s.phase ∈ (phaseTransitions event).1 then
    some ({ s with phase := (phaseTransitions event).2 }.applyEvent event)
  else none

theorem ProtocolState.phase_applyEvent (s : ProtocolState) (event : StateEvent) :
  (s.applyEvent event).phase = s.phase
  := by
  cases event <;> rfl

theorem ProtocolState.mode_transition {s s' : ProtocolState} {event : StateEvent}
    (h : s.transition event = some s') :
  s'.mode = s.mode
  := by
  rw [transition] at h
  split at h
  case isTrue =>
      cases h
      cases event <;> rfl
  case isFalse => cases h

theorem ProtocolState.transition_some {s s' : ProtocolState} {event : StateEvent}
    (h : s.transition event = some s') :
  s.phase ∈ (phaseTransitions event).1 ∧ s'.phase = (phaseTransitions event).2
  := by
  rw [transition] at h
  split at h
  case isTrue hp =>
      cases h
      exact ⟨hp, phase_applyEvent _ _⟩
  case isFalse => cases h

theorem ProtocolState.legality_allowed {s : ProtocolState} {verb : Verb}
    (h : s.legality verb = .allowed) :
  ∃ rule, commandRules verb = some rule ∧ s.phase ∈ rule.phases ∧
    (rule.requireUnauthenticated = true → s.authenticated = false)
  := by
  rw [legality] at h
  split at h
  · cases h
  · next rule hrule =>
    use rule, hrule
    split at h
    · cases h
    · split at h
      · cases h
      · next hstate =>
        obtain ⟨hphase, -, hauthenticated⟩ := by simpa only [not_or] using hstate
        exact ⟨not_not.mp hphase, fun hr => by simpa [hr] using hauthenticated⟩

end Server

end GoSmtp
