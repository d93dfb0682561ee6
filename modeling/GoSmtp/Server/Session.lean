import GoSmtp.Server.Content
import GoSmtp.Server.Spool

/-!
# Sessions

The state of one connection (`smtpserver/cmd_session.go`, `lifecycle.go`), what it needs
from the outside, and the operations that the command handlers are made of.  The outside
is a world `ω` with arbitrary operations on it: the backend, the transport, the operating
system and the other sessions.  The session keeps a log of what it does to the outside.
-/

namespace GoSmtp.Server

open Exec

variable {φ ω α : Type}
variable {γ : Type} {op : ω → Outcome BackendError α × ω}

/-! ### Replies and parameters -/

structure WireReply where
  code : Int
  enhanced : EnhancedCode := .zero
  text : Bytes := []
  lines : List Bytes := []
  context : ReplyContext := .command
  deriving DecidableEq, Repr

structure Param where
  keyword : Bytes
  value : Bytes
  deriving DecidableEq, Repr

/-- What the session uses of a parsed path. -/
structure Path where
  mailbox : Bytes
  params : List Param
  deriving DecidableEq, Repr

/-- What the session uses of the parameters of MAIL. -/
structure MailParams where
  size : Option Int
  binaryMIME : Bool
  smtpUTF8 : Bool
  deriving DecidableEq, Repr

/-- The syntax of arguments.  The session does not depend on it further. -/
structure Grammar where
  validGreetingIdentity : Bytes → Bool
  /-- `ParseReversePath`. -/
  reversePath : Bytes → Option Path
  /-- `ParseForwardPath`, with or without SMTPUTF8. -/
  forwardPath : Bool → Bytes → Option Path
  /-- `parseMailParameters` and `validateExtensionMailPath`: an error names the
  parameter. -/
  mailParams : ProtocolState → Bool → Path → Except Bytes MailParams
  /-- `parseRcptParameters`. -/
  rcptParams : Path → Option Bytes

inductive ResetReason where
  | explicit
  | newMail
  | completed
  | failed
  | startTLS
  | sessionEnd
  deriving DecidableEq, Repr

/-! ### The outside -/

structure OAuthError where
  status : Bytes
  scope : Bytes
  openIDConfiguration : Bytes
  deriving DecidableEq, Repr

/-- `AuthFailure`: credentials that are refused. -/
structure AuthFailure where
  err : Option SmtpError := none
  oauth : Option OAuthError := none
  deriving DecidableEq, Repr

structure AuthResult where
  identity : Bytes
  failure : Option AuthFailure := none
  deriving DecidableEq, Repr

/-- The calls of the backend in an AUTH exchange. -/
inductive AuthCall where
  /-- A verifier, and its result if it has one. -/
  | verify (result : Option AuthResult)
  /-- `Session.CommitAuth`. -/
  | commit (result : AuthResult)
  deriving DecidableEq, Repr

/-- An AUTH exchange: challenges, each followed by a response, calls of the backend, and an
end. -/
inductive AuthDialog (ω : Type) where
  /-- The exchange goes on with the response, in the world that it arrives in. -/
  | challenge (text : Bytes) (world : ω) (k : Bytes → ω → AuthDialog ω)
  | call (c : AuthCall) (world : ω) (k : AuthDialog ω)
  | accepted (world : ω)
  | refused (reply : WireReply) (world : ω)
  | failed (world : ω)
  | panic (world : ω)

/-- What the server waits for when it reads. -/
inductive Awaited where
  | command
  /-- A line of a SASL exchange. -/
  | response
  | content
  | chunk (size : Nat)
  deriving DecidableEq, Repr

/-- The operations of the world. -/
structure Env (φ ω : Type) where
  storage : Storage ω φ
  mail : Bytes → MailParams → ω → Outcome BackendError Unit × ω
  /-- The value is `SuccessLines`. -/
  rcpt : Bytes → ω → Outcome BackendError (List Bytes) × ω
  data : ω → DataCall φ ω
  /-- Whether the callback panics. -/
  reset : ResetReason → ω → Bool × ω
  close : ω → Bool × ω
  verify : Option (Bytes → ω → Outcome BackendError Bytes × ω)
  expand : Option (Bytes → ω → Outcome BackendError (List Bytes) × ω)
  help : Option (Bytes → ω → Outcome BackendError Bytes × ω)
  etrn : Option (Bytes → ω → Outcome BackendError Unit × ω)
  /-- The value is whether there is a takeover callback. -/
  atrn : Option (List Bytes → ω → Outcome BackendError Bool × ω)
  takeover : ω → Outcome BackendError Unit × ω
  auth : Bytes → Option Bytes → ω → AuthDialog ω
  /-- Whether a reply could be encoded and buffered. -/
  write : WireReply → ω → Option φ × ω
  flush : ω → Option φ × ω
  setDeadline : ω → Option φ × ω
  /-- `FormatReceived`, after the greeting, with or without extensions, and for the recipients. -/
  received : ProtocolState → Bool → List Bytes → ω → Option Bytes × ω
  /-- The handshake yields what the peer sends over TLS. -/
  handshake : ω → Except φ (Feed UInt8 φ) × ω
  canceled : ω → Bool × ω
  /-- Whether the decoder holds octets of what is left of the feed. -/
  buffered : Feed UInt8 φ → ω → Bool × ω
  /-- A read of the feed begins, with its deadline. -/
  await : Awaited → Feed UInt8 φ → ω → Option φ × ω
  /-- The pieces in which a chunk arrives. -/
  pieces : Bytes → ω → List Bytes × ω
  pieces_flatten : ∀ w v, (pieces w v).1.flatten = w

/-- The transport takes a reply in the world `w`. -/
def Env.takes (env : Env φ ω) (r : WireReply) (w : ω) : Bool :=
  (env.setDeadline w).1.isNone && (env.write r (env.setDeadline w).2).1.isNone

/-- The world after a reply. -/
def Env.written (env : Env φ ω) (r : WireReply) (w : ω) : ω := (env.write r (env.setDeadline w).2).2

/-- A world in which nothing fails, with a backend that accepts every envelope and reads no
content. -/
def Env.plain : Env φ ω where
  storage :=
    { createFile := fun w => (none, w)
      writeFile := fun p w => ((p.length, none), w)
      rewind := fun w => (none, w)
      reread := fun f w => (Feed.items f, w)
      others := fun m w => (m, w)
      writeFile_le := fun _ _ => Nat.le_refl _
      writeFile_full := fun _ _ _ => rfl
      others_opts := fun _ _ => rfl
      reread_payload := fun f _ => Feed.payload_items f }
  mail _ _ w := (.ok (), w)
  rcpt _ w := (.ok [], w)
  data w := .ret [] none w
  reset _ w := (false, w)
  close w := (false, w)
  verify := none
  expand := none
  help := none
  etrn := none
  atrn := none
  takeover w := (.ok (), w)
  auth _ _ w := .failed w
  write _ w := (none, w)
  flush w := (none, w)
  setDeadline w := (none, w)
  received _ _ _ w := (some (ascii "Received: from a by b" ++ crlf), w)
  handshake w := (.ok [], w)
  canceled w := (false, w)
  buffered _ w := (true, w)
  await _ _ w := (none, w)
  pieces p w := ([p], w)
  pieces_flatten := by simp

/-- The configuration of the server, as far as a session uses it. -/
structure Config where
  mode : ListenerMode
  identity : Bytes
  /-- A positive `int64`, as `NewServer` checks. -/
  maxMessage : Nat
  maxMessage_pos : 0 < maxMessage
  maxMessage_le : maxMessage ≤ maxInt64
  maxRcpt : Nat
  maxTransactions : Nat
  chunking : Bool
  requireTLS : Bool
  requireAuth : Bool
  /-- Whether there is a TLS configuration. -/
  tlsConfig : Bool
  grammar : Grammar
  /-- The lines of the EHLO reply after the first. -/
  capabilities : ProtocolState → List Bytes
  authMechanisms : ProtocolState → Bool → List Bytes

/-- A grammar in which a path is anything in angle brackets, without parameters. -/
def Grammar.bracketed : Grammar where
  validGreetingIdentity w := !w.isEmpty
  reversePath := path (ascii "FROM:<")
  forwardPath _ := path (ascii "TO:<")
  mailParams _ _ _ := .ok ⟨none, false, false⟩
  rcptParams _ := none
  where
  /-- The path after the given beginning. -/
  path (beginning argument : Bytes) : Option Path :=
    if toUpper (argument.take beginning.length) == beginning && argument.getLast? == some 62 then
      some ⟨(argument.drop beginning.length).dropLast, []⟩
    else none

theorem seven_lt : 7 < maxInt64 := by decide

/-- A server that takes messages of at most `n + 1` octets. -/
def Config.small (n : Nat) (h : n < maxInt64) : Config where
  mode := .smtp
  identity := ascii "b"
  maxMessage := n + 1
  maxMessage_pos := Nat.succ_pos n
  maxMessage_le := h
  maxRcpt := 1
  maxTransactions := 1
  chunking := true
  requireTLS := false
  requireAuth := false
  tlsConfig := false
  grammar := .bracketed
  capabilities _ := []
  authMechanisms _ _ := []

/-! ### The session -/

/-- Where the content of a message comes from. -/
inductive Source where
  | dot
  | spool (octets : Bytes)
  deriving DecidableEq, Repr

/-- What a session does to the outside. -/
inductive LogEvent where
  | decoded (command : Command)
  | reply (r : WireReply)
  /-- A call of `Session.Mail`. -/
  | mailCall
  /-- A call of `Session.Mail` that succeeded. -/
  | mail (mailbox : Bytes)
  /-- A call of `Session.Rcpt`. -/
  | rcptCall
  /-- A recipient that was accepted. -/
  | rcpt (mailbox : Bytes)
  /-- The trace field of a message, and the state of the session that it is about. -/
  | traced (state : ProtocolState) (extended : Bool) (header : Option Bytes)
  /-- A call of `Session.Data`. -/
  | dataCall (source : Source)
  /-- The outcome of `Session.Data`, and whether it is an authoritative one. -/
  | outcome (authoritative : Bool)
  /-- A message that was too large, whatever its outcome is. -/
  | oversize
  /-- The results of a message are being emitted. -/
  | emit
  /-- A chunk that arrived in full. -/
  | chunk (octets : Bytes)
  /-- A chunk, or the command after one, that made the message fail. -/
  | bdatFailed
  | spoolOpened
  | spoolClosed
  | auth (c : AuthCall)
  /-- The session becomes authenticated. -/
  | authenticated
  /-- A TLS handshake that succeeded. -/
  | handshake
  | reset (reason : ResetReason)
  | close
  /-- A state transition that was refused. -/
  | refused (event : StateEvent)
  deriving DecidableEq, Repr

/-- `commandSession` with its lifecycle. -/
structure Session (φ ω : Type) where
  feed : Feed UInt8 φ
  world : ω
  manager : SpoolManager
  state : ProtocolState
  transactionOpen : Bool
  spool : Option Spool
  closed : Bool
  extended : Bool
  smtpUTF8 : Bool
  binaryMIME : Bool
  recipients : List Bytes
  mailAttempts : Nat
  log : List LogEvent

/-- Errors that end a session. -/
inductive SessionError (φ : Type) where
  | transport (e : φ)
  | command (e : CommandError φ)
  | chunk (e : ChunkError φ)
  | transition (event : StateEvent)
  | received
  | auth
  | content (cause : Cause φ)
  | noHandler
  | canceled
  deriving DecidableEq, Repr

/-- Calls on a session. -/
abbrev Call (φ ω α : Type) := Exec (Session φ ω) (SessionError φ) α

structure CommandAction where
  synchronizationPoint : Bool := false
  closeConnection : Bool := false
  deriving DecidableEq, Repr

/-- The action of a handler that is done, with a synchronization point. -/
def sync : CommandAction := { synchronizationPoint := true }

namespace Session

/-- A session right after the connection was made. -/
def new (cfg : Config) (manager : SpoolManager) (tls : Bool) (feed : Feed UInt8 φ) (world : ω) :
    Session φ ω where
  feed := feed
  world := world
  manager := manager
  state := { ProtocolState.new cfg.mode with tls := tls }
  transactionOpen := false
  spool := none
  closed := false
  extended := false
  smtpUTF8 := false
  binaryMIME := false
  recipients := []
  mailAttempts := 0
  log := []

/-! ### Operations -/

def record (e : LogEvent) : Call φ ω Unit := Exec.update fun s => { s with log := s.log ++ [e] }

/-- An operation of the world that does not fail. -/
def outside (f : ω → α × ω) : Call φ ω α := fun s =>
  (.ok (f s.world).1, { s with world := (f s.world).2 })

/-- An operation of the transport. -/
def transport (f : ω → Option φ × ω) : Call φ ω Unit := do
  match ← outside f with
  | some e => Exec.fail (.transport e)
  | none => pure ()

/-- A callback of the backend, with its error as a value. -/
def callback (f : ω → Outcome BackendError α × ω) : Call φ ω (Except BackendError α) := fun s =>
  match f s.world with
  | (.ok a, w) => (.ok (.ok a), { s with world := w })
  | (.err e, w) => (.ok (.error e), { s with world := w })
  | (.panic, w) => (.panic, { s with world := w })

/-- A callback that returns nothing. -/
def notify (f : ω → Bool × ω) : Call φ ω Unit := fun s =>
  (if (f s.world).1 then .panic else .ok (), { s with world := (f s.world).2 })

/-- Whether the decoder holds octets. -/
def buffered (env : Env φ ω) : Call φ ω Bool := fun s => outside (env.buffered s.feed) s

/-- A read begins. -/
def await (env : Env φ ω) (awaited : Awaited) : Call φ ω Unit := fun s =>
  transport (env.await awaited s.feed) s

def writeReply (env : Env φ ω) (r : WireReply) : Call φ ω Unit := do
  transport env.setDeadline
  transport (env.write r)
  record (.reply r)

def transition (event : StateEvent) : Call φ ω Unit := do
  let s ← Exec.read
  match s.state.transition event with
  | none =>
    record (.refused event)
    Exec.fail (.transition event)
  | some state => Exec.update fun s => { s with state := state }

def clearTransaction : Call φ ω Unit :=
  Exec.update fun s => { s with smtpUTF8 := false, binaryMIME := false, recipients := [] }

/-- An operation on the attached spool, with its error as a value.  Without a spool there is
none to operate on. -/
def onSpool (op : Spool.Op ω φ α) : Call φ ω (Except (SpoolError φ) α) := fun s =>
  match s.spool with
  | none => (.panic, s)
  | some spool =>
    match op ⟨s.manager, spool, s.world⟩ with
    | (r, ⟨manager, spool, world⟩) =>
      let s := { s with manager := manager, spool := some spool, world := world }
      match r with
      | .ok a => (.ok (.ok a), s)
      | .err e => (.ok (.error e), s)
      | .panic => (.panic, s)

/-! ### The lifecycle -/

/-- The session without its spool, which is closed. -/
def detachSpool (s : Session φ ω) : Session φ ω :=
  match s.spool with
  | none => s
  | some spool =>
    { s with spool := none,
             manager := (Spool.close (φ := φ) ⟨s.manager, spool, s.world⟩).2.manager }

/-- The event of a spool that is closed, if there is one. -/
def spoolEvents (s : Session φ ω) : List LogEvent :=
  if s.spool.isSome then [.spoolClosed] else []

/-- `lifecycle.reset`: the spool is closed and the backend told. -/
def lifecycleReset (env : Env φ ω) (reason : ResetReason) : Call φ ω Unit := do
  Exec.update fun s =>
    { s.detachSpool with transactionOpen := false, log := s.log ++ s.spoolEvents }
  record (.reset reason)
  notify (env.reset reason)

/-- `lifecycle.resetIfOpen`. -/
def resetIfOpen (env : Env φ ω) (reason : ResetReason) : Call φ ω Unit := do
  let s ← Exec.read
  if !s.transactionOpen && s.spool.isNone then pure () else lifecycleReset env reason

/-- A reset of an open transaction. -/
def resetTransaction (env : Env φ ω) (reason : ResetReason) : Call φ ω Unit := do
  let s ← Exec.read
  if s.transactionOpen then lifecycleReset env reason else pure ()

/-- `lifecycle.mail`. -/
def lifecycleMail (env : Env φ ω) (mailbox : Bytes) (params : MailParams) :
    Call φ ω (Except BackendError Unit) := do
  resetTransaction env .newMail
  record .mailCall
  match ← callback (env.mail mailbox params) with
  | .error e => pure (.error e)
  | .ok _ =>
    record (.mail mailbox)
    Exec.update fun s => { s with transactionOpen := true }
    pure (.ok ())

/-- `newSpool` and `attachSpool`, when no spool is attached: `false` if the server has no
room for another one. -/
def attachSpool (env : Env φ ω) : Call φ ω Bool := do
  Exec.update fun s =>
    { s with manager := (env.storage.others s.manager s.world).1,
             world := (env.storage.others s.manager s.world).2 }
  let s ← Exec.read
  match s.manager.newSpool with
  | none => pure false
  | some (manager, spool) =>
    Exec.update fun s => { s with manager := manager, spool := some spool }
    record .spoolOpened
    pure true

/-- `lifecycle.close`. -/
def lifecycleClose (env : Env φ ω) : Call φ ω Unit := do
  let s ← Exec.read
  if s.closed then pure ()
  else
    Exec.update fun s => { s with closed := true }
    resetIfOpen env .sessionEnd
    record .close
    notify env.close

/-- `commandSession.close`, at the end of the connection. -/
def close (env : Env φ ω) : Call φ ω Unit := do
  lifecycleClose env
  let _ ← Exec.attempt (transition .close)

/-! ### What the operations leave alone -/

/-- The session without the world and the log. -/
def core (s : Session φ ω) : Session φ Unit := { s with world := (), log := [] }

theorem keeps_outside {f : Session φ ω → γ}
    (hf : ∀ s w, f { s with world := w } = f s) (op : ω → α × ω) :
  Keeps f (outside op : Call φ ω α)
  := fun s => hf s _

theorem keeps_buffered {f : Session φ ω → γ}
    (hf : ∀ s w, f { s with world := w } = f s) (env : Env φ ω) :
  Keeps f (buffered env)
  := fun s => hf s _

theorem keeps_transport {f : Session φ ω → γ}
    (hf : ∀ s w, f { s with world := w } = f s) (op : ω → Option φ × ω) :
  Keeps f (transport op)
  := by
  apply (keeps_outside hf op).bind
  intro e
  split
  · exact .fail _
  · exact .pure _

theorem keeps_await {f : Session φ ω → γ}
    (hf : ∀ s w, f { s with world := w } = f s) (env : Env φ ω) (awaited : Awaited) :
  Keeps f (await env awaited)
  := fun s => keeps_transport hf (env.await awaited s.feed) s

theorem keeps_callback {f : Session φ ω → γ}
    (hf : ∀ s w, f { s with world := w } = f s) (op : ω → Outcome BackendError α × ω) :
  Keeps f (callback op : Call φ ω (Except BackendError α))
  := by
  intro s
  simp only [callback]
  split <;> exact hf s _

theorem keeps_notify {f : Session φ ω → γ}
    (hf : ∀ s w, f { s with world := w } = f s) (op : ω → Bool × ω) :
  Keeps f (notify op : Call φ ω Unit)
  := fun s => hf s _

theorem keeps_record {f : Session φ ω → γ} (e : LogEvent)
    (hf : ∀ s, f { s with log := s.log ++ [e] } = f s) :
  Keeps f (record e)
  := hf

theorem keeps_writeReply {f : Session φ ω → γ} (hw : ∀ s w, f { s with world := w } = f s)
    (hl : ∀ s e, f { s with log := s.log ++ [e] } = f s) (env : Env φ ω) (r : WireReply) :
  Keeps f (writeReply env r)
  := by
  apply (keeps_transport hw env.setDeadline).bind
  intro _
  apply (keeps_transport hw (env.write r)).bind
  intro _
  exact keeps_record _ fun s => hl s _

theorem keeps_onSpool {f : Session φ ω → γ}
    (hf : ∀ s m p w, f { s with manager := m, spool := p, world := w } = f s)
    (op : Spool.Op ω φ α) :
  Keeps f (onSpool op)
  := by
  intro s
  simp only [onSpool]
  split
  · rfl
  · split <;> exact hf s _ _ _

theorem detachSpool_eq (s : Session φ ω) :
  s.detachSpool = { s with spool := none, manager := s.detachSpool.manager }
  := by
  obtain ⟨⟩ := s
  unfold detachSpool
  split
  · next h =>
    cases h
    rfl
  · rfl

/-- A reset changes the world, the log, the spool and its manager, and closes the
transaction. -/
theorem keeps_lifecycleReset {f : Session φ ω → γ} (hw : ∀ s w, f { s with world := w } = f s)
    (hl : ∀ s reason, f { s with log := s.log ++ [.reset reason] } = f s)
    (hc : ∀ s, f { s with log := s.log ++ [.spoolClosed] } = f s)
    (hs : ∀ s m, f { s with spool := none, manager := m, transactionOpen := false } = f s)
    (env : Env φ ω) (reason : ResetReason) :
  Keeps f (lifecycleReset env reason)
  := by
  have hupdate : Keeps f (Exec.update fun s =>
      { s.detachSpool with transactionOpen := false, log := s.log ++ s.spoolEvents } :
      Call φ ω Unit) := by
    intro s
    have hevents : f { s with log := s.log ++ s.spoolEvents } = f s := by
      rw [spoolEvents]
      split
      · exact hc s
      · rw [List.append_nil]
    rw [Exec.update, detachSpool_eq]
    exact (hs { s with log := s.log ++ s.spoolEvents } _).trans hevents
  exact hupdate.bind fun _ =>
    (keeps_record _ fun s => hl s reason).bind fun _ => keeps_notify hw _

theorem keeps_transition {f : Session φ ω → γ}
    (hf : ∀ {event st} s, s.state.transition event = some st → f { s with state := st } = f s)
    (hl : ∀ s event, f { s with log := s.log ++ [.refused event] } = f s) (event : StateEvent) :
  Keeps f (transition event : Call φ ω Unit)
  := by
  intro s
  rw [transition, Exec.read_bind]
  cases hstate : s.state.transition event with
  | none => exact hl s event
  | some state => exact hf s hstate

/-! ### What the operations do -/

section Rules

variable {Q : Unit → Session φ ω → Prop} {E : Option (SessionError φ) → Session φ ω → Prop}
  {s : Session φ ω}

@[simp]
theorem wp_outside {Q : α → Session φ ω → Prop} {op : ω → α × ω} :
  wp (outside op) Q E s ↔ Q (op s.world).1 { s with world := (op s.world).2 }
  := Iff.rfl

theorem wp_buffered {env : Env φ ω} {Q : Bool → Session φ ω → Prop} :
  wp (buffered env) Q E s ↔
    Q (env.buffered s.feed s.world).1 { s with world := (env.buffered s.feed s.world).2 }
  := Iff.rfl

@[simp]
theorem wp_record {e : LogEvent} :
  wp (record e) Q E s ↔ Q () { s with log := s.log ++ [e] }
  := Iff.rfl

theorem wp_transport_world {op : ω → Option φ × ω} (hQ : Q () { s with world := (op s.world).2 })
    (hE : ∀ e, E e { s with world := (op s.world).2 }) :
  wp (transport op) Q E s
  := by
  rw [transport, wp_bind, wp_outside]
  split
  · exact hE _
  · exact hQ

theorem wp_transport {op : ω → Option φ × ω} (hQ : ∀ w, Q () { s with world := w })
    (hE : ∀ e w, E e { s with world := w }) :
  wp (transport op) Q E s
  := wp_transport_world (hQ _) fun e => hE e _

theorem wp_await {env : Env φ ω} {awaited : Awaited} (hQ : ∀ w, Q () { s with world := w })
    (hE : ∀ e w, E e { s with world := w }) :
  wp (await env awaited) Q E s
  := wp_transport hQ hE

theorem wp_callback_ok {Q : Except BackendError α → Session φ ω → Prop}
    {a : α} (h : (op s.world).1 = .ok a) :
  wp (callback op) Q E s ↔ Q (.ok a) { s with world := (op s.world).2 }
  := by
  rcases hop : op s.world with ⟨o, w⟩
  rw [hop] at h
  subst h
  simp only [wp, callback, hop]

theorem wp_callback_err {Q : Except BackendError α → Session φ ω → Prop}
    {e : BackendError} (h : (op s.world).1 = .err e) :
  wp (callback op) Q E s ↔ Q (.error e) { s with world := (op s.world).2 }
  := by
  rcases hop : op s.world with ⟨o, w⟩
  rw [hop] at h
  subst h
  simp only [wp, callback, hop]

theorem wp_callback {Q : Except BackendError α → Session φ ω → Prop}
    (hQ : ∀ r w, Q r { s with world := w }) (hE : ∀ e w, E e { s with world := w }) :
  wp (callback op) Q E s
  := by
  rcases h : op s.world with ⟨a | e | _, w⟩ <;> simp only [wp, callback, h]
  · exact hQ _ w
  · exact hQ _ w
  · exact hE _ w

theorem wp_notify_iff {op : ω → Bool × ω} :
  wp (notify op) Q E s ↔
    ((op s.world).1 = false → Q () { s with world := (op s.world).2 }) ∧
    ((op s.world).1 = true → E none { s with world := (op s.world).2 })
  := by
  cases h : (op s.world).1 <;> simp [wp, notify, h]

theorem wp_notify {op : ω → Bool × ω} (hQ : ∀ w, Q () { s with world := w })
    (hE : ∀ w, E none { s with world := w }) :
  wp (notify op) Q E s
  := wp_notify_iff.mpr ⟨fun _ => hQ _, fun _ => hE _⟩

theorem wp_writeReply {env : Env φ ω} {r : WireReply}
    (hQ : ∀ w, Q () { s with world := w, log := s.log ++ [.reply r] })
    (hE : ∀ e w, E e { s with world := w }) :
  wp (writeReply env r) Q E s
  := by
  rw [writeReply, wp_bind]
  apply wp_transport _ hE
  intro w
  rw [wp_bind]
  exact wp_transport (fun w => hQ w) hE

theorem writeReply_takes {env : Env φ ω} {r : WireReply} (h : env.takes r s.world = true) :
  writeReply env r s
    = (.ok (), { s with world := env.written r s.world, log := s.log ++ [.reply r] })
  := by
  obtain ⟨hdeadline, hwrite⟩ :
      (env.setDeadline s.world).1 = none ∧ (env.write r (env.setDeadline s.world).2).1 = none := by
    simpa [Env.takes] using h
  simp [writeReply, transport, outside, record, Exec.update, Bind.bind, Pure.pure, hdeadline, hwrite,
    Env.written]

theorem writeReply_fails {env : Env φ ω} {r : WireReply} (h : env.takes r s.world = false) :
  ∃ e w, writeReply env r s = (.err (.transport e), { s with world := w })
  := by
  rcases hdeadline : (env.setDeadline s.world).1 with _ | e
  · rcases hwrite : (env.write r (env.setDeadline s.world).2).1 with _ | e
    · simp [Env.takes, hdeadline, hwrite] at h
    · use e, env.written r s.world
      simp [writeReply, transport, outside, Bind.bind, Pure.pure, hdeadline, hwrite, Exec.fail,
        Env.written]
  · use e, (env.setDeadline s.world).2
    simp [writeReply, transport, outside, Bind.bind, hdeadline, Exec.fail]

theorem wp_transition {event : StateEvent}
    (hQ : ∀ st : ProtocolState, s.state.phase ∈ (phaseTransitions event).1 →
      st.phase = (phaseTransitions event).2 → Q () { s with state := st })
    (hE : ∀ e, E e { s with log := s.log ++ [.refused event] }) :
  wp (transition event) Q E s
  := by
  simp only [transition, wp_bind, wp_read]
  split
  · exact hE _
  · next st h => exact hQ st (ProtocolState.transition_some h).1 (ProtocolState.transition_some h).2

theorem wp_transition_of_mem {event : StateEvent}
    (hphase : s.state.phase ∈ (phaseTransitions event).1) :
  wp (transition event) Q E s ↔
    Q () { s with
      state := { s.state with phase := (phaseTransitions event).2 }.applyEvent event }
  := by
  simp only [transition, wp_bind, wp_read, ProtocolState.transition, hphase, if_true,
    wp_update]

/-- The session after a reset, before the backend is told. -/
def afterReset (s : Session φ ω) (reason : ResetReason) : Session φ ω :=
  { s with spool := none, manager := s.detachSpool.manager, transactionOpen := false,
           log := s.log ++ s.spoolEvents ++ [.reset reason] }

theorem wp_lifecycleReset_iff {env : Env φ ω} {reason : ResetReason} :
  wp (lifecycleReset env reason) Q E s ↔
    ((env.reset reason s.world).1 = false →
      Q () { s.afterReset reason with world := (env.reset reason s.world).2 }) ∧
    ((env.reset reason s.world).1 = true →
      E none { s.afterReset reason with world := (env.reset reason s.world).2 })
  := by
  rw [lifecycleReset, wp_bind, wp_update, wp_bind, wp_record, wp_notify_iff,
    detachSpool_eq]
  rfl

theorem wp_lifecycleReset {env : Env φ ω} {reason : ResetReason}
    (hQ : ∀ m w, Q () { s with world := w, manager := m, spool := none, transactionOpen := false,
                               log := s.log ++ s.spoolEvents ++ [.reset reason] })
    (hE : ∀ m w, E none { s with world := w, manager := m, spool := none, transactionOpen := false,
                                 log := s.log ++ s.spoolEvents ++ [.reset reason] }) :
  wp (lifecycleReset env reason) Q E s
  := wp_lifecycleReset_iff.mpr ⟨fun _ => hQ _ _, fun _ => hE _ _⟩

theorem wp_resetIfOpen {env : Env φ ω} {reason : ResetReason}
    (hidle : s.transactionOpen = false → s.spool = none → Q () s)
    (hQ : ∀ m w, Q () { s with world := w, manager := m, spool := none, transactionOpen := false,
                               log := s.log ++ s.spoolEvents ++ [.reset reason] })
    (hE : ∀ m w, E none { s with world := w, manager := m, spool := none, transactionOpen := false,
                                 log := s.log ++ s.spoolEvents ++ [.reset reason] }) :
  wp (resetIfOpen env reason) Q E s
  := by
  simp only [resetIfOpen, wp_bind, wp_read, wp_ite, wp_pure]
  constructor
  · intro h
    simp only [Bool.and_eq_true, Bool.not_eq_true', Option.isNone_iff_eq_none] at h
    exact hidle h.1 h.2
  · intro _
    exact wp_lifecycleReset hQ hE

theorem wp_attachSpool {env : Env φ ω} {Q : Bool → Session φ ω → Prop}
    (hfull : ∀ m w, Q false { s with manager := m, world := w })
    (hnew : ∀ m w, Q true { s with manager := m, world := w, spool := some .empty,
                                   log := s.log ++ [.spoolOpened] }) :
  wp (attachSpool env) Q E s
  := by
  simp only [attachSpool, SpoolManager.newSpool, wp_bind, wp_update, wp_read]
  split
  · exact hfull _ _
  · next h =>
    split at h
    · cases h
    · cases h
      exact hnew _ _

theorem wp_onSpool {op : Spool.Op ω φ α} {Q : Except (SpoolError φ) α → Session φ ω → Prop}
    {spool : Spool} (hs : s.spool = some spool)
    (h : wp op
      (fun a t => Q (.ok a) { s with manager := t.manager, spool := some t.spool, world := t.world })
      (fun e t => ∀ r, e = some r →
        Q (.error r) { s with manager := t.manager, spool := some t.spool, world := t.world })
      ⟨s.manager, spool, s.world⟩)
    (hE : ∀ e m p w, E e { s with manager := m, spool := some p, world := w }) :
  wp (onSpool op) Q E s
  := by
  simp only [wp, onSpool, hs] at h ⊢
  rcases hop : op ⟨s.manager, spool, s.world⟩ with ⟨a | e | _, t⟩ <;> simp only [hop] at h ⊢
  · exact h
  · exact h e rfl
  · exact hE _ _ _ _

theorem wp_onSpool_calm {op : Spool.Op ω φ α} {Q : Except (SpoolError φ) α → Session φ ω → Prop}
    (hs : s.spool.isSome) (hop : Calm op)
    (h : ∀ r m p w, Q r { s with manager := m, spool := some p, world := w }) :
  wp (onSpool op) Q E s
  := by
  obtain ⟨spool, hspool⟩ := Option.isSome_iff_exists.mp hs
  have hcalm := hop ⟨s.manager, spool, s.world⟩
  simp only [wp, onSpool, hspool]
  rcases hrun : op ⟨s.manager, spool, s.world⟩ with ⟨a | e | _, t⟩ <;> simp only [hrun] at hcalm ⊢
  · exact h _ _ _ _
  · exact h _ _ _ _
  · exact absurd rfl hcalm

end Rules

end Session

end GoSmtp.Server
