import GoSmtp.Lib.Exec
import GoSmtp.Lib.Fifo
import GoSmtp.Reply

/-!
# Client connections

The state of a client connection (`smtpclient/conn.go`, `state.go`), its errors
(`reply.go`, `finalstatus.go`), and the operations that the client's calls are made of.
What the peer sends is a feed of replies.  The rest of the outside is a world `ω`: the
transport under the connection, and the context of the caller, which may be cancelled at
any time.  A connection keeps a log of what went over the wire.
-/

namespace GoSmtp.Client

variable {φ ω α : Type}

/-- `smtpwire.Reply`. -/
structure Reply where
  code : Int
  text : Bytes
  lines : List Bytes := []
  deriving DecidableEq, Repr

inductive SessionState where
  | connected
  | greeted
  | tls
  | authenticated
  | transaction
  | closed
  deriving DecidableEq, Repr

def SessionState.name : SessionState → Bytes
  | .connected => ascii "connected"
  | .greeted => ascii "greeted"
  | .tls => ascii "tls"
  | .authenticated => ascii "authenticated"
  | .transaction => ascii "transaction"
  | .closed => ascii "closed"

/-! ### The wire -/

/-- What a line is part of, as far as it matters for what the server expects next. -/
inductive LineKind where
  | plain
  /-- The AUTH command and the responses of its exchange. -/
  | auth
  /-- The DATA command. -/
  | data
  deriving DecidableEq, Repr

/-- What the peer answers. -/
inductive Request where
  | line (text : Bytes) (kind : LineKind)
  /-- The end of the content after DATA. -/
  | endOfData
  | chunk (octets : Bytes) (last : Bool)
  deriving DecidableEq, Repr

/-- What goes over the wire, and what happens around it. -/
inductive WireEvent where
  /-- A request was written in full; the peer owes it a number of replies. -/
  | sent (request : Request) (replies : Nat)
  | reply (r : Reply)
  /-- The write of an operation that completes a transaction begins. -/
  | completing
  /-- A transaction was opened. -/
  | opened
  deriving DecidableEq, Repr

/-- What the server waits for. -/
inductive Expects where
  | command
  /-- A response in an AUTH exchange. -/
  | response
  /-- Content after DATA. -/
  | content
  deriving DecidableEq, Repr

/-- The two sides of a connection, as the log tells. -/
structure Dialogue where
  fifo : Fifo Request Reply
  expects : Expects
  deriving DecidableEq, Repr

namespace Dialogue

/-- What the server waits for after its reply to a request. -/
def after (r : Reply) : Option Request → Expects
  | some (.line _ .auth) => if r.code = 334 then .response else .command
  | some (.line _ .data) => if r.code = 354 then .content else .command
  | _ => .command

def step (d : Dialogue) : WireEvent → Dialogue
  | .sent request replies =>
    ⟨d.fifo.ask request replies, if request = .endOfData then .command else d.expects⟩
  | .reply r => ⟨d.fifo.answer r, after r d.fifo.next⟩
  | .completing | .opened => d

end Dialogue

def dialogue (log : List WireEvent) : Dialogue := log.foldl Dialogue.step ⟨.empty, .command⟩

@[simp]
theorem dialogue_append (log : List WireEvent) (e : WireEvent) :
  dialogue (log ++ [e]) = (dialogue log).step e
  := by
  simp [dialogue]

/-! ### The outside -/

/-- Where the context is looked at: before an operation touches the connection, or after
it. -/
inductive Check where
  | before
  | after
  deriving DecidableEq, Repr

/-- The operations of the world. -/
structure Env (φ ω : Type) where
  /-- Whether `ctx.Err` reports a cancellation.  The caller may know what went over the
  wire. -/
  canceled : Check → List WireEvent → ω → Bool × ω
  /-- `raw.Write`. -/
  write : Bytes → ω → Option φ × ω
  /-- Whether `cancelWatcher` has closed the connection meanwhile. -/
  watcher : ω → Bool × ω
  /-- A TLS handshake yields what the peer sends over TLS. -/
  handshake : ω → Except φ (Feed Reply φ) × ω
  /-- `rejectExtraLMTPFinalReply`: whether something came beyond the final replies, or the
  connection broke. -/
  extraReply : ω → Bool × ω
  /-- `ClientOptions.Trace`. -/
  trace : TraceEvent → ω → ω

/-- A world in which nothing fails and nothing is cancelled. -/
def Env.plain : Env φ ω where
  canceled _ _ w := (false, w)
  write _ w := (none, w)
  watcher w := (false, w)
  handshake w := (.ok [], w)
  extraReply w := (false, w)
  trace _ w := w

/-- A world in which the context is found cancelled once, after `n` looks at it. -/
def Env.impatient (n : Nat) : Env φ Nat where
  canceled _ _ w := (w == n, w + 1)
  write _ w := (none, w)
  watcher w := (false, w)
  handshake w := (.ok [], w)
  extraReply w := (false, w)
  trace _ w := w

/-- The options of the client, as far as they are used. -/
structure Options where
  lmtp : Bool
  identity : Bytes
  /-- `ParseEHLOReply`: the extensions with their parameters. -/
  parseEHLO : List Bytes → Option (List (Bytes × Bytes))
  /-- `ExtractEnhancedCode`. -/
  extractEnhancedCode : Bytes → Option (EnhancedCode × Bytes)

/-- Plain SMTP or LMTP, without extensions and enhanced codes. -/
def Options.plain (lmtp : Bool) : Options where
  lmtp := lmtp
  identity := ascii "a"
  parseEHLO _ := some []
  extractEnhancedCode _ := none

/-! ### Errors -/

/-- Errors that an `io.Reader` reports. -/
inductive SourceError (φ : Type) where
  | eof
  | unexpectedEOF
  | other (e : φ)
  deriving DecidableEq, Repr

/-- What is under a `*smtp.Error` that carries no reply. -/
inductive Cause (φ : Type) where
  | io (e : φ)
  | connectionEnded
  | invalidCommandToken
  | sizeTooLarge
  | source (e : SourceError φ)
  | message (text : Bytes)
  deriving DecidableEq, Repr

/-- Errors of the client. -/
inductive ClientError (φ : Type) where
  /-- The error of the context. -/
  | canceled
  | message (text : Bytes)
  /-- The error of the caller's reader, as it is. -/
  | source (e : SourceError φ)
  /-- `transportError`. -/
  | transport (command : Bytes) (cause : Cause φ)
  /-- `transportError` around an error of the client. -/
  | wrapped (command : Bytes) (e : ClientError φ)
  /-- `replyError`. -/
  | reply (command : Bytes) (e : SmtpError)
  /-- `ErrFinalStatusUnknown` over another error. -/
  | finalStatusUnknown (command : Bytes) (e : ClientError φ)
  deriving DecidableEq, Repr

namespace ClientError

/-- `finalStatusUnknownStream`. -/
def unknownStream (command : Bytes) (e : ClientError φ) : ClientError φ :=
  match e with
  | .finalStatusUnknown .. => e
  | .transport command _ | .wrapped command _ | .reply command _ => .finalStatusUnknown command e
  | .canceled | .message _ | .source _ => .finalStatusUnknown command e

/-- `finalStatusUnknown`: a reply that was received is authoritative. -/
def unknown (command : Bytes) (e : ClientError φ) : ClientError φ :=
  match e with
  | .reply _ r => if r.code ≠ 0 then e else unknownStream command e
  | _ => unknownStream command e

/-- Whether the error wraps `ErrFinalStatusUnknown`. -/
def isUnknown : ClientError φ → Bool
  | .finalStatusUnknown .. => true
  | _ => false

/-- Whether the error comes from the context, from the transport or from a text that cannot
be sent, and not from a reply. -/
def isLocal : ClientError φ → Bool
  | .canceled | .transport .. => true
  | _ => false

@[simp]
theorem isUnknown_unknownStream (command : Bytes) (e : ClientError φ) :
  (e.unknownStream command).isUnknown = true
  := by
  cases e <;> rfl

theorem unknown_of_isLocal {e : ClientError φ} (h : e.isLocal) (command : Bytes) :
  (e.unknown command).isUnknown = true
  := by
  cases e <;> first | rfl | cases h

theorem isUnknown_of_isLocal {e : ClientError φ} (h : e.isLocal) :
  e.isUnknown = false
  := by
  cases e <;> first | rfl | cases h

end ClientError

/-! ### Connections -/

/-- `connection`. -/
structure Conn (φ ω : Type) where
  /-- What the peer will send. -/
  replies : Feed Reply φ
  world : ω
  state : SessionState
  /-- The state to return to after a transaction. -/
  transactionBase : SessionState
  ext : List (Bytes × Bytes)
  recipients : List Bytes
  smtpUTF8 : Bool
  binaryMIME : Bool
  log : List WireEvent

/-- A connection in a given state, on which the peer will send the given replies. -/
def Conn.scripted (state : SessionState) (ext : List String) (recipients : List Bytes)
    (replies : List (Int × String)) (world : ω) : Conn φ ω where
  replies := Feed.items (replies.map fun r => ⟨r.1, ascii r.2, [ascii r.2]⟩)
  world := world
  state := state
  transactionBase := .greeted
  ext := ext.map fun x => (ascii x, [])
  recipients := recipients
  smtpUTF8 := false
  binaryMIME := false
  log := []

/-- Calls on a connection. -/
abbrev Call (φ ω α : Type) := Exec (Conn φ ω) (ClientError φ) α

namespace Conn

def closed (s : Conn φ ω) : Bool := s.state == .closed

/-- Whether the server advertised an extension. -/
def advertises (s : Conn φ ω) (keyword : Bytes) : Bool := s.ext.any (·.1 == toUpper keyword)

def enhancedStatusCodes (s : Conn φ ω) : Bool := s.advertises (ascii "ENHANCEDSTATUSCODES")

end Conn

def poison : Call φ ω Unit := Exec.update fun s => { s with state := .closed }

def record (e : WireEvent) : Call φ ω Unit := Exec.update fun s => { s with log := s.log ++ [e] }

/-- An operation of the world. -/
def outside (f : ω → α × ω) : Call φ ω α := fun s =>
  (.ok (f s.world).1, { s with world := (f s.world).2 })

/-- `ctx.Err() != nil`. -/
def canceled (env : Env φ ω) (c : Check) : Call φ ω Bool := fun s =>
  (.ok (env.canceled c s.log s.world).1, { s with world := (env.canceled c s.log s.world).2 })

/-- `connection.trace`. -/
def trace (env : Env φ ω) (direction : TraceDirection) (line : Bytes) : Call φ ω Unit :=
  outside fun w => ((), env.trace ⟨direction, line⟩ w)

/-- The connection is poisoned, and the call fails. -/
def poisoned (e : ClientError φ) : Call φ ω α := do
  poison
  Exec.fail e

/-- An update that a closed connection does not get. -/
def unlessClosed (f : Conn φ ω → Conn φ ω) : Call φ ω Unit :=
  Exec.update fun s => if s.closed then s else f s

def readReply : Call φ ω (Except (Cause φ) Reply) := fun s =>
  match s.replies.next with
  | (.ok r, replies) => (.ok (.ok r), { s with replies := replies, log := s.log ++ [.reply r] })
  | (.error .ended, replies) => (.ok (.error .connectionEnded), { s with replies := replies })
  | (.error (.fault e), replies) => (.ok (.error (.io e)), { s with replies := replies })

/-! ### Texts -/

/-- White space of `strings.TrimSpace`, in ASCII. -/
def isSpace (b : UInt8) : Bool := b == 32 || (9 ≤ b && b ≤ 13)

/-- `strings.TrimSpace` on an ASCII text. -/
def trimSpace (v : Bytes) : Bytes := (v.dropWhile isSpace).reverse.dropWhile isSpace |>.reverse

/-! ### Replies as errors -/

def replyError (opts : Options) (enhanced : Bool) (r : Reply) : SmtpError :=
  match (if enhanced then opts.extractEnhancedCode r.text else none) with
  | some (code, rest) => ⟨r.code, code, rest⟩
  | none => ⟨r.code, .zero, r.text⟩

def unexpectedReply (opts : Options) (command : Bytes) (r : Reply) (enhanced : Bool)
    (want : List Int) : Option (ClientError φ) :=
  if r.code ∈ want then none
  else if r.code > 0 then some (.reply command (replyError opts enhanced r))
  else some (.transport command (.message (ascii "smtpclient: missing reply code")))

/-- The reply must have one of the codes. -/
def expectReply (opts : Options) (command : Bytes) (r : Reply) (want : List Int) :
    Call φ ω Unit := do
  let s ← Exec.read
  match unexpectedReply opts command r s.enhancedStatusCodes want with
  | some e => Exec.fail e
  | none => pure ()

/-- `invalidState`. -/
def requireState (command : Bytes) (allowed : List SessionState) : Call φ ω Unit := do
  let s ← Exec.read
  if s.state ∈ allowed then pure ()
  else
    Exec.fail (.message (ascii "smtpclient: " ++ command ++
      ascii " is not valid while session is " ++ s.state.name))

/-! ### What the operations do -/

section Rules

variable {s : Conn φ ω} {E : Option (ClientError φ) → Conn φ ω → Prop}

@[simp]
theorem wp_record {Q : Unit → Conn φ ω → Prop} (e : WireEvent) :
  wp (record e) Q E s ↔ Q () { s with log := s.log ++ [e] }
  := Iff.rfl

@[simp]
theorem wp_poisoned {Q : α → Conn φ ω → Prop} (e : ClientError φ) :
  wp (poisoned e) Q E s ↔ E (some e) { s with state := .closed }
  := Iff.rfl

@[simp]
theorem wp_outside {Q : α → Conn φ ω → Prop} (f : ω → α × ω) :
  wp (outside f) Q E s ↔ Q (f s.world).1 { s with world := (f s.world).2 }
  := Iff.rfl

@[simp]
theorem wp_trace {Q : Unit → Conn φ ω → Prop} (env : Env φ ω) (direction : TraceDirection)
    (line : Bytes) :
  wp (trace env direction line) Q E s
    ↔ Q () { s with world := env.trace ⟨direction, line⟩ s.world }
  := Iff.rfl

@[simp]
theorem wp_canceled {Q : Bool → Conn φ ω → Prop} (env : Env φ ω) (c : Check) :
  wp (canceled env c) Q E s
    ↔ Q (env.canceled c s.log s.world).1 { s with world := (env.canceled c s.log s.world).2 }
  := Iff.rfl

@[simp]
theorem wp_unlessClosed {Q : Unit → Conn φ ω → Prop} (f : Conn φ ω → Conn φ ω) :
  wp (unlessClosed f) Q E s ↔ Q () (if s.closed then s else f s)
  := Iff.rfl

theorem wp_readReply {Q : Except (Cause φ) Reply → Conn φ ω → Prop}
    (hreply : ∀ r replies, s.replies = .item r :: replies →
      Q (.ok r) { s with replies := replies, log := s.log ++ [.reply r] })
    (herror : ∀ cause replies, (∀ r rest, s.replies ≠ .item r :: rest) →
      Q (.error cause) { s with replies := replies }) :
  wp readReply Q E s
  := by
  rcases h : s.replies with _ | ⟨r | e, replies⟩ <;> simp only [wp, readReply, h, Feed.next]
  · apply herror
    rw [h]
    simp
  · apply hreply r replies h
  · apply herror
    rw [h]
    simp

theorem wp_expectReply {Q : Unit → Conn φ ω → Prop} {opts : Options} {command : Bytes} {r : Reply}
    {want : List Int} (hQ : r.code ∈ want → Q () s)
    (hE : ∀ e, r.code ∉ want → e.isUnknown = false → E (some e) s) :
  wp (expectReply opts command r want) Q E s
  := by
  simp only [expectReply, wp_bind, wp_read]
  split
  · next e he =>
    have hcode : r.code ∉ want := by
      intro hcode
      rw [unexpectedReply, if_pos hcode] at he
      cases he
    apply hE e hcode
    rw [unexpectedReply, if_neg hcode] at he
    split at he <;> cases he <;> rfl
  · next he =>
    apply hQ
    by_contra hcode
    rw [unexpectedReply, if_neg hcode] at he
    split at he <;> cases he

theorem wp_requireState {Q : Unit → Conn φ ω → Prop} {command : Bytes} {allowed : List SessionState}
    (hQ : s.state ∈ allowed → Q () s) (hE : ∀ text, E (some (.message text)) s) :
  wp (requireState command allowed) Q E s
  := by
  simp only [requireState, wp_bind, wp_read, wp_ite, wp_pure, wp_fail]
  constructor
  · apply hQ
  · intro _
    apply hE

end Rules

end GoSmtp.Client
