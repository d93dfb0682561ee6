import GoSmtp.Server.Talk

/-!
# What a turn is made of

All that the handlers do is made of a few kinds of steps: changes of the own fields of the session,
callbacks of the backend, operations of the transport, and operations on the spool.  A relation
that allows each of these steps holds between a session and what a turn makes of it.
-/

namespace GoSmtp.Server

open Exec

variable {φ ω α : Type}
variable {r : WireReply} {e : LogEvent} {action : CommandAction} {verb : Verb}
variable {s : Session φ ω} {cfg : Config} {c : Command}

/-- The callbacks of the backend that have a result. -/
inductive Env.Callback (env : Env φ ω) :
    {α : Type} → (ω → Outcome BackendError α × ω) → Prop where
  | mail (mailbox : Bytes) (params : MailParams) : Callback env (env.mail mailbox params)
  | rcpt (mailbox : Bytes) : Callback env (env.rcpt mailbox)
  | verify {f : Bytes → ω → Outcome BackendError Bytes × ω} (h : env.verify = some f)
      (address : Bytes) : Callback env (f address)
  | expand {f : Bytes → ω → Outcome BackendError (List Bytes) × ω} (h : env.expand = some f)
      (list : Bytes) : Callback env (f list)
  | help {f : Bytes → ω → Outcome BackendError Bytes × ω} (h : env.help = some f)
      (topic : Bytes) : Callback env (f topic)
  | etrn {f : Bytes → ω → Outcome BackendError Unit × ω} (h : env.etrn = some f)
      (domain : Bytes) : Callback env (f domain)
  | atrn {f : List Bytes → ω → Outcome BackendError Bool × ω} (h : env.atrn = some f)
      (domains : List Bytes) : Callback env (f domains)
  | takeover : Callback env env.takeover

/-- The command that an event tells of. -/
def LogEvent.command : LogEvent → Option Command
  | .decoded c => some c
  | _ => none

namespace Session

/-- The commands that were decoded. -/
def commands (s : Session φ ω) : List Command := s.log.filterMap LogEvent.command

/-- The commands of a session, and how many of them were counted as MAIL. -/
def ledger (s : Session φ ω) : Nat × List Command := (s.mailAttempts, s.commands)

/-- The spool of a session, and the manager. -/
def holding (s : Session φ ω) : SpoolManager × Option Spool := (s.manager, s.spool)

/-- What a session shares with others. -/
def common (s : Session φ ω) : ω × SpoolManager × Option Spool := (s.world, s.holding)

theorem ledger_append (s : Session φ ω) {es : List LogEvent} (hes : ∀ e ∈ es, e.command = none) :
  ({ s with log := s.log ++ es } : Session φ ω).ledger = s.ledger
  := by
  have hnone : es.filterMap LogEvent.command = [] := List.filterMap_eq_nil_iff.mpr hes
  simp [ledger, commands, hnone]

/-! ### Steps -/

/-- What a step of a session is about. -/
inductive Concern where
  | ordinary
  | greeting
  | sender
  | recipient
  /-- The content of a message. -/
  | content
  /-- The trace field of a message. -/
  | trace
  | security
  | authentication
  /-- The end of the connection. -/
  | ending
  deriving DecidableEq, Repr

end Session

/-- A reply is about the greeting, or about nothing in particular. -/
def WireReply.concern (r : WireReply) : Session.Concern :=
  match r.context with
  | .hello => .greeting
  | _ => .ordinary

/-- What an event is about, unless it is a command. -/
def LogEvent.concern : LogEvent → Option Session.Concern
  | .decoded _ => none
  | .reply r => some r.concern
  | .traced _ _ _ => some .trace
  | _ => some .ordinary

def StateEvent.concern : StateEvent → Session.Concern
  | .hello => .greeting
  | .startTLS => .security
  | .authenticated => .authentication
  | .close => .ending
  | _ => .ordinary

def Verb.concern : Verb → Session.Concern
  | .helo | .ehlo | .lhlo => .greeting
  | .mail => .sender
  | .rcpt => .recipient
  | .data | .bdat => .content
  | .startTLS => .security
  | .auth => .authentication
  | _ => .ordinary

theorem LogEvent.command_of_concern {k : Session.Concern} (h : e.concern = some k) :
  e.command = none
  := by
  cases e with
  | decoded _ => cases h
  | _ => rfl

namespace Session

/-- A step in which the session changes its own fields only. -/
inductive Own : Concern → Session φ ω → Session φ ω → Prop where
  | feed (s : Session φ ω) (feed : Feed UInt8 φ) : Own .ordinary s { s with feed := feed }
  | events {k : Concern} (s : Session φ ω) {es : List LogEvent}
      (hes : ∀ e ∈ es, e.concern = some k) : Own k s { s with log := s.log ++ es }
  | state (s : Session φ ω) {event : StateEvent} {state : ProtocolState}
      (h : s.state.transition event = some state) : Own event.concern s { s with state := state }
  | clear (s : Session φ ω) :
      Own .ordinary s { s with smtpUTF8 := false, binaryMIME := false, recipients := [] }
  | opened (s : Session φ ω) (isOpen : Bool) : Own .ordinary s { s with transactionOpen := isOpen }
  | closed (s : Session φ ω) : Own .ordinary s { s with closed := true }
  | greeted (s : Session φ ω) (domain : Bytes) (extended : Bool) :
      Own .greeting s { s with state.hello := domain, extended := extended, smtpUTF8 := false,
                               binaryMIME := false, recipients := [] }
  | sent (s : Session φ ω) (smtpUTF8 binaryMIME : Bool) :
      Own .sender s { s with smtpUTF8 := smtpUTF8, binaryMIME := binaryMIME, recipients := [] }
  | added (s : Session φ ω) (mailbox : Bytes) :
      Own .recipient s { s with recipients := s.recipients ++ [mailbox] }
  | secured (s : Session φ ω) (feed : Feed UInt8 φ) :
      Own .security s { s with extended := false, feed := feed }

namespace Own

variable {k : Concern} {s s' : Session φ ω}

theorem common (h : Own k s s') :
  s'.common = s.common
  := by
  cases h <;> rfl

theorem ledger (h : Own k s s') :
  s'.ledger = s.ledger
  := by
  cases h with
  | events _ hes => exact ledger_append s fun e he => LogEvent.command_of_concern (hes e he)
  | _ => rfl

theorem mode (h : Own k s s') :
  s'.state.mode = s.state.mode
  := by
  cases h with
  | state _ h => exact ProtocolState.mode_transition h
  | _ => rfl

end Own

/-- The projection is the same for both sessions. -/
def Unchanged {γ : Type} (f : Session φ ω → γ) (s s' : Session φ ω) : Prop := f s' = f s

instance {γ : Type} (f : Session φ ω → γ) : IsPreorder (Session φ ω) (Unchanged f) where
  refl _ := rfl
  trans _ _ _ h h' := h'.trans h

/-! ### What the outside does -/

/-- The relation allows what the outside does, the reading of the feed, and the transitions and
events that are about the concerns. -/
structure Around (K : Concern → Prop) (R : Session φ ω → Session φ ω → Prop) : Prop where
  ordinary : K .ordinary
  world : ∀ (s : Session φ ω) w, R s { s with world := w }
  feed : ∀ (s : Session φ ω) feed, R s { s with feed := feed }
  state : ∀ {event state} (s : Session φ ω), K event.concern →
    s.state.transition event = some state → R s { s with state := state }
  event : ∀ (s : Session φ ω) {e k}, K k → e.concern = some k → R s { s with log := s.log ++ [e] }
  /-- An exchange may end in any reply. -/
  reply : K .authentication → ∀ (s : Session φ ω) r, R s { s with log := s.log ++ [.reply r] }

namespace Around

variable {K : Concern → Prop} {R : Session φ ω → Session φ ω → Prop} (h : Around K R)
include h

theorem record {k : Concern} (hk : K k) (he : e.concern = some k) :
  Along R (record e : Call φ ω Unit)
  := fun s => h.event s hk he

theorem outside (op : ω → α × ω) :
  Along R (outside op : Call φ ω α)
  := fun s => h.world s _

theorem notify (op : ω → Bool × ω) :
  Along R (notify op : Call φ ω Unit)
  := fun s => h.world s _

theorem callback (op : ω → Outcome BackendError α × ω) :
  Along R (callback op : Call φ ω _)
  := by
  intro s
  simp only [Session.callback]
  split <;> exact h.world s _

theorem transition (event : StateEvent) (hk : K event.concern) :
  Along R (transition event : Call φ ω Unit)
  := by
  intro s
  rw [Session.transition, Exec.read_bind]
  cases hstate : s.state.transition event with
  | none => exact h.record h.ordinary rfl s
  | some state => exact h.state s hk hstate

variable [IsPreorder (Session φ ω) R]

theorem transport (op : ω → Option φ × ω) :
  Along R (transport op)
  := by
  apply (h.outside op).bind
  intro r
  cases r with
  | some e => exact .fail _
  | none => exact .pure _

theorem await (env : Env φ ω) (awaited : Awaited) :
  Along R (await env awaited)
  := fun s => h.transport _ s

theorem writeReply (env : Env φ ω)
    (hr : ∀ s : Session φ ω, R s { s with log := s.log ++ [.reply r] }) :
  Along R (writeReply env r)
  := (h.transport _).bind fun _ => (h.transport _).bind fun _ => hr

theorem answer (env : Env φ ω) (hr : K r.concern) :
  Along R (Session.writeReply env r)
  := h.writeReply env fun s => h.event s hr rfl

theorem content (env : Env φ ω) (hr : K r.concern) :
  Along R (do Session.writeReply env r; Session.transport env.flush; Session.await env .content)
  := (h.answer env hr).bind fun _ => (h.transport _).bind fun _ => h.await env _

theorem takeChunk (env : Env φ ω) (size : Nat) :
  Along R (takeChunk env size)
  := by
  apply (h.await env _).bind
  intro _
  apply Along.read
  intro s
  exact .bind (fun s => h.feed s _) fun _ => .pure _

theorem evaluateContent (hK : K .trace) {σ : Type} (env : Env φ ω) (command : Bytes)
    (r : Reader σ UInt8 (ContentError φ)) (source : Source) (size : Nat) (content : σ) :
  Along R (evaluateContent env command r source size content)
  := by
  apply Along.read
  intro s
  apply (h.outside _).bind
  intro header
  apply (h.record hK rfl).bind
  intro _
  split
  · exact .fail _
  · apply (h.record h.ordinary rfl).bind
    intro _
    apply Along.read
    intro s
    apply (h.record h.ordinary rfl).bind
    intro _
    exact .bind (fun s => h.world s _) fun _ => .pure _

theorem runDialog (hK : K .authentication) (env : Env φ ω) (dialog : AuthDialog ω) :
  Along R (runDialog env dialog)
  := by
  intro s
  have htalk : Talk (R s) (R s) := by
    constructor
    · exact fun w hs => trans_of R hs (h.world _ w)
    · exact fun r w hs => trans_of R (trans_of R hs (h.world _ w)) (h.reply hK _ r)
    · exact id
  have hsteps {m : Call φ ω Unit} (hm : Along R m) : Maintains (R s) (R s) m :=
    hm.maintains (fun hstep hs => trans_of R hs hstep) id
  apply (htalk.runDialog _ _ _ _ env dialog).state (refl_of R s)
  · exact fun feed hs => trans_of R hs (h.feed _ feed)
  · exact fun c => hsteps (h.record h.ordinary rfl)
  · exact hsteps (h.transition .authenticated hK)
  · exact hsteps (h.record h.ordinary rfl)

end Around

/-- The projection does not depend on the outside, on transitions, and on events other than
commands. -/
abbrev Apart {γ : Type} (f : Session φ ω → γ) : Prop := Around (fun _ => True) (Unchanged f)

/-- The relation allows every step of a turn that is about one of the concerns, but the taking of a
chunk and the reading of the command. -/
structure Walk (env : Env φ ω) (K : Concern → Prop) (R : Session φ ω → Session φ ω → Prop) :
    Prop where
  ordinary : K .ordinary
  own : ∀ {k s s'}, K k → Own k s s' → R s s'
  callback : ∀ {α : Type} {op : ω → Outcome BackendError α × ω}, env.Callback op →
    Along R (callback op : Call φ ω _)
  notify : ∀ reason, Along R (notify (env.reset reason) : Call φ ω Unit)
  reply : ∀ {r}, K r.concern → Along R (writeReply env r)
  flush : Along R (transport env.flush)
  canceled : Along R (outside env.canceled : Call φ ω Bool)
  buffered : Along R (buffered env)
  handshake : K .security → Along R (outside env.handshake : Call φ ω _)
  pieces : ∀ w, Along R (outside (env.pieces w) : Call φ ω _)
  /-- A read of content begins after a reply that is flushed. -/
  content : ∀ {r}, K r.concern →
    Along R (do writeReply env r; transport env.flush; await env .content)
  /-- Content is evaluated for some recipient. -/
  evaluate : K .content → ∀ {σ : Type} (command : Bytes) (r : Reader σ UInt8 (ContentError φ))
    (source : Source) (size : Nat) (content : σ) {s}, s.recipients ≠ [] →
    R s (evaluateContent env command r source size content s).2
  auth : K .authentication → ∀ mechanism initial,
    Along R fun s => runDialog env (env.auth mechanism initial s.world) s
  detach : ∀ s, R s s.detachSpool
  attach : Along R (attachSpool env)
  write : ∀ pieces, Along R (onSpool (Spool.writeChunk env.storage pieces))
  read : Along R (onSpool (Spool.reader env.storage))

theorem Around.walk {env : Env φ ω} {K : Concern → Prop} {R : Session φ ω → Session φ ω → Prop}
    [IsPreorder (Session φ ω) R] (h : Around K R) (hown : ∀ {k s s'}, K k → Own k s s' → R s s')
    (hevaluate : K .content → ∀ {σ : Type} (command : Bytes) (r : Reader σ UInt8 (ContentError φ))
      (source : Source) (size : Nat) (content : σ) {s : Session φ ω}, s.recipients ≠ [] →
      R s (Session.evaluateContent env command r source size content s).2)
    (hdetach : ∀ s, R s s.detachSpool) (hattach : Along R (attachSpool env))
    (hwrite : ∀ pieces, Along R (onSpool (Spool.writeChunk env.storage pieces)))
    (hread : Along R (onSpool (Spool.reader env.storage))) :
  Walk env K R
  where
  ordinary := h.ordinary
  own := hown
  callback _ := h.callback _
  notify _ := h.notify _
  reply := h.answer env
  flush := h.transport _
  canceled := h.outside _
  buffered s := h.outside _ s
  handshake _ := h.outside _
  pieces _ := h.outside _
  content := h.content env
  evaluate := hevaluate
  auth hK _ _ s := h.runDialog hK env _ s
  detach := hdetach
  attach := hattach
  write := hwrite
  read := hread

theorem apart_recipients :
  Apart (fun s : Session φ ω => s.recipients)
  where
  ordinary := trivial
  world _ _ := rfl
  feed _ _ := rfl
  state _ _ _ := rfl
  event _ _ _ _ _ := rfl
  reply _ _ _ := rfl

theorem recipients_onSpool (op : Spool.Op ω φ α) :
  Keeps (fun s : Session φ ω => s.recipients) (onSpool op)
  := keeps_onSpool (fun _ _ _ _ => rfl) op

theorem recipients_spoolChunk (env : Env φ ω) (size : Nat) :
  Keeps (fun s : Session φ ω => s.recipients) (spoolChunk env size)
  := by
  apply (apart_recipients.takeChunk env size).bind
  rintro ⟨w, e⟩
  apply (apart_recipients.outside _).bind
  intro pieces
  apply (recipients_onSpool _).bind
  intro r
  cases e with
  | some e => exact .fail _
  | none => exact Keeps.bind (fun _ => rfl) fun _ => .pure _

theorem recipients_attachSpool (env : Env φ ω) :
  Keeps (fun s : Session φ ω => s.recipients) (attachSpool env)
  := by
  apply Keeps.bind fun _ => rfl
  intro _
  apply Keeps.read.bind
  intro s
  split
  · exact .pure _
  · exact Keeps.bind (fun _ => rfl) fun _ => Keeps.bind (fun _ => rfl) fun _ => .pure _

theorem concern_errorReply (e : BackendError) (code : Int) (text : Bytes) :
  (errorReply e code text).concern = .ordinary
  := by
  cases e with
  | other => rfl
  | protocol e =>
    rw [errorReply]
    split <;> rfl

theorem concern_storageReply (e : SpoolError φ) :
  (storageReply e).concern = .ordinary
  := by
  cases e <;> rfl

/-- The relation allows what a handler does that only asks the backend. -/
structure Chat (env : Env φ ω) (R : Session φ ω → Session φ ω → Prop) : Prop where
  callback : ∀ {α : Type} {op : ω → Outcome BackendError α × ω}, env.Callback op →
    Along R (callback op : Call φ ω _)
  reply : ∀ {r}, r.concern = .ordinary → Along R (writeReply env r)
  flush : Along R (transport env.flush)
  buffered : Along R (buffered env)

theorem Talk.chats {I F : Session φ ω → Prop} (h : Talk I F) {env : Env φ ω} {m : Call φ ω α}
    (hm : Chat env (Preserves I) → Along (Preserves I) m) :
  Maintains I F m
  := by
  have htalk : Talk I I := ⟨h.world, h.reply, id⟩
  apply Along.maintains (hm _) (fun h => h) h.fails
  constructor
  · exact fun _ _ => (htalk.callback _).state
  · exact fun _ _ => (htalk.writeReply env _).state
  · exact fun _ => (htalk.transport _).state
  · exact fun _ => (htalk.buffered env).state

namespace Chat

variable {env : Env φ ω} {R : Session φ ω → Session φ ω → Prop} [IsPreorder (Session φ ω) R]
  (h : Chat env R)
include h

theorem answer {r : WireReply} {action : CommandAction} (hr : r.concern = .ordinary) :
  Along R (do writeReply env r; pure action)
  := (h.reply hr).bind fun _ => .pure action

theorem backendReply (verb : Verb) (e : BackendError) (text : Bytes) :
  Along R (backendReply env verb e text)
  := h.answer (concern_errorReply e 451 text)

theorem ask {op : ω → Outcome BackendError α × ω} (hop : env.Callback op)
    {answer : α → WireReply} (hanswer : ∀ a, (answer a).concern = .ordinary) :
  Along R (ask env verb op answer)
  := by
  apply (h.callback hop).bind
  intro r
  split
  · exact h.backendReply _ _ _
  · exact h.answer (hanswer _)

theorem handleVRFY (c : Command) :
  Along R (handleVRFY env c)
  := by
  refine Along.ite (h.answer rfl) ?_
  split
  · exact h.answer rfl
  · next verify => exact h.ask (.verify verify _) fun _ => rfl

theorem handleEXPN (c : Command) :
  Along R (handleEXPN env c)
  := by
  refine Along.ite (h.answer rfl) ?_
  split
  · exact h.answer rfl
  · next expand => exact h.ask (.expand expand _) fun _ => rfl

theorem handleHELP (c : Command) :
  Along R (handleHELP env c)
  := by
  rw [Session.handleHELP]
  split
  · exact h.answer rfl
  · next help => exact h.ask (.help help _) fun _ => rfl

theorem handleETRN (c : Command) :
  Along R (handleETRN env c)
  := by
  refine Along.ite (h.answer rfl) ?_
  split
  · exact h.answer rfl
  · next etrn => exact h.ask (.etrn etrn _) fun _ => rfl

theorem handleATRN (c : Command) :
  Along R (handleATRN env c)
  := by
  apply Along.read
  intro s
  split
  · exact h.answer rfl
  · refine Along.ite (h.answer rfl) ?_
    split
    · exact h.answer rfl
    · next hatrn =>
      apply h.buffered.bind
      intro buffered
      refine Along.ite (h.answer rfl) ?_
      apply (h.callback (.atrn hatrn _)).bind
      intro r
      split
      · exact h.backendReply _ _ _
      · exact h.backendReply _ _ _
      · refine Along.bind (h.reply rfl) fun _ => ?_
        apply h.flush.bind
        intro _
        exact (h.callback .takeover).bind fun _ => .pure _

end Chat

namespace Walk

variable {env : Env φ ω} {K : Concern → Prop} {R : Session φ ω → Session φ ω → Prop}

section Steps

variable (h : Walk env K R)
include h

theorem update {k : Concern} (hk : K k) {f : Session φ ω → Session φ ω} (hf : ∀ s, Own k s (f s)) :
  Along R (Exec.update f : Call φ ω Unit)
  := fun s => h.own hk (hf s)

theorem record (he : e.concern = some .ordinary) :
  Along R (record e : Call φ ω Unit)
  := h.update h.ordinary fun s => .events s (by simpa using he)

theorem transition (event : StateEvent) (hk : K event.concern) :
  Along R (transition event : Call φ ω Unit)
  := by
  intro s
  rw [Session.transition, Exec.read_bind]
  cases hstate : s.state.transition event with
  | none => exact h.record rfl s
  | some state => exact h.own hk (.state s hstate)

theorem clearTransaction :
  Along R (clearTransaction : Call φ ω Unit)
  := h.update h.ordinary .clear

end Steps

variable [IsPreorder (Session φ ω) R] (h : Walk env K R)
include h

theorem answer (hr : K r.concern) :
  Along R (do writeReply env r; pure action)
  := (h.reply hr).bind fun _ => .pure action

theorem answer_at (hr : K r.concern) :
  R s ((do writeReply env r; pure action : Call φ ω CommandAction) s).2
  := h.answer hr s

omit [IsPreorder (Session φ ω) R] in
theorem chat :
  Chat env R
  := ⟨h.callback, fun hr => h.reply (hr ▸ h.ordinary), h.flush, h.buffered⟩

theorem lifecycleReset (reason : ResetReason) :
  Along R (lifecycleReset env reason)
  := by
  apply Along.bind
  · intro s
    have hevents : ∀ e ∈ s.spoolEvents, e.concern = some .ordinary := by
      rw [spoolEvents]
      split <;> simp [LogEvent.concern]
    have hlog : s.detachSpool.log = s.log := by rw [detachSpool_eq]
    apply trans_of R (h.detach s)
    apply trans_of R (h.own h.ordinary (.events _ hevents))
    rw [hlog]
    exact h.own h.ordinary (.opened _ _)
  · exact fun _ => (h.record rfl).bind fun _ => h.notify reason

theorem resetIfOpen (reason : ResetReason) :
  Along R (resetIfOpen env reason)
  := .read fun _ => .ite (.pure _) (h.lifecycleReset reason)

theorem resetTransaction (reason : ResetReason) :
  Along R (resetTransaction env reason)
  := .read fun _ => .ite (h.lifecycleReset reason) (.pure _)

theorem handleHello (hK : K .greeting) (cfg : Config) (verb : Verb) (c : Command) :
  Along R (handleHello cfg env verb c)
  := by
  rw [Session.handleHello]
  split
  · exact h.answer h.ordinary
  · apply (h.resetTransaction _).bind
    intro _
    apply (h.transition .hello hK).bind
    intro _
    apply Along.bind (h.update hK fun s => .greeted s _ _)
    intro _
    apply Along.read
    exact fun s => .ite (h.answer h.ordinary) (.ite (h.answer hK) (h.answer hK))

theorem abandonTransaction :
  Along R (abandonTransaction env)
  := .read fun _ => .ite ((h.lifecycleReset _).bind fun _ =>
    (h.transition .transactionFailed h.ordinary).bind fun _ => h.clearTransaction) (.pure _)

theorem lifecycleMail (mailbox : Bytes) (params : MailParams) :
  Along R (lifecycleMail env mailbox params)
  := by
  apply (h.resetTransaction _).bind
  intro _
  apply (h.record rfl).bind
  intro _
  apply (h.callback (.mail _ _)).bind
  intro r
  split
  · exact .pure _
  · apply (h.record rfl).bind
    intro _
    exact .bind (h.update h.ordinary fun s => .opened s _) fun _ => .pure _

theorem accept_mail (hK : K .sender) (cfg : Config) (path : Path) (params : MailParams) :
  Along R (handleMail.accept cfg env path params)
  := by
  have hfailed (e : BackendError) : Along R (do
      Session.clearTransaction
      Session.backendReply env .mail e) :=
    h.clearTransaction.bind fun _ => h.chat.backendReply _ e _
  apply h.abandonTransaction.bind
  intro _
  refine Along.ite (h.answer h.ordinary) ?_
  apply (h.lifecycleMail _ _).bind
  intro r
  split
  · apply Along.read
    intro s
    apply Along.ite
    · exact (h.transition .transactionFailed h.ordinary).attempt.bind fun _ => hfailed _
    · exact hfailed _
  · apply (h.transition .mailAccepted h.ordinary).bind
    intro _
    exact (h.update hK fun s => .sent s _ _).bind fun _ => h.answer h.ordinary

theorem handleMail (hK : K .sender) (cfg : Config) (c : Command) :
  Along R (handleMail cfg env c)
  := by
  apply Along.read
  intro s
  refine Along.ite (h.answer h.ordinary) ?_
  refine Along.ite (h.answer h.ordinary) ?_
  split
  · exact h.answer h.ordinary
  · split
    · exact h.answer h.ordinary
    · split
      · exact h.answer h.ordinary
      · exact .ite (h.answer h.ordinary) (h.accept_mail hK cfg _ _)

theorem accept_rcpt {path : Path}
    (hadded : ∀ s, R s { s with recipients := s.recipients ++ [path.mailbox] })
    (lines : List Bytes) :
  Along R (handleRcpt.accept env path lines)
  := by
  refine Along.bind hadded fun _ => ?_
  apply (h.record rfl).bind
  intro _
  apply Along.read
  intro s
  have hreply : Along R (if lines.isEmpty then do
        writeReply env { code := 250, enhanced := ⟨2, 1, 5, []⟩, text := ascii "Recipient OK" }
        pure {}
      else do
        writeReply env { code := 250, lines := ascii "Recipient OK" :: lines }
        pure {} : Call φ ω CommandAction) := .ite (h.answer h.ordinary) (h.answer h.ordinary)
  exact .ite ((h.transition .recipientAccepted h.ordinary).bind fun _ => hreply) hreply

theorem handleRcpt (hadded : ∀ {utf8 path}, cfg.grammar.forwardPath utf8 c.argument = some path →
      ∀ s, R s { s with recipients := s.recipients ++ [path.mailbox] }) :
  Along R (handleRcpt cfg env c)
  := by
  apply Along.read
  intro s
  split
  · exact h.answer h.ordinary
  next path hpath =>
  · split
    · exact h.answer h.ordinary
    · refine Along.ite (h.answer h.ordinary) ?_
      split
      · exact h.answer h.ordinary
      · apply (h.record rfl).bind
        intro _
        apply (h.callback (.rcpt _)).bind
        intro r
        split
        · exact h.chat.backendReply _ _ _
        · exact .ite (h.accept_rcpt (hadded hpath) _) (h.chat.backendReply _ _ _)

theorem handleRSET (c : Command) :
  Along R (handleRSET env c)
  := by
  refine Along.ite (h.answer h.ordinary) ?_
  apply (h.resetIfOpen _).bind
  intro _
  apply (h.transition .reset h.ordinary).bind
  intro _
  exact h.clearTransaction.bind fun _ => h.answer h.ordinary

theorem handleSTARTTLS (hK : K .security) (cfg : Config) (c : Command) :
  Along R (handleSTARTTLS cfg env c)
  := by
  apply Along.read
  intro s
  refine Along.ite (h.answer h.ordinary) ?_
  refine Along.ite (h.answer h.ordinary) ?_
  refine Along.bind (h.reply h.ordinary) fun _ => ?_
  apply h.flush.bind
  intro _
  apply (h.handshake hK).bind
  intro r
  split
  · exact .fail _
  · apply (h.record rfl).bind
    intro _
    apply (h.lifecycleReset _).bind
    intro _
    apply (h.transition .startTLS hK).bind
    intro _
    apply Along.bind (h.update hK fun s => .secured s _)
    exact fun _ => h.clearTransaction.bind fun _ => .pure _

theorem writeResults (results : DataResult) :
  Along R (writeResults env results)
  := by
  induction results with
  | nil => exact .pure _
  | cons r rs ih => exact .bind (h.reply h.ordinary) fun _ => ih

theorem finishContent (evaluation : DataEvaluation φ) :
  Along R (finishContent env evaluation)
  := by
  apply Along.ite
  · split
    · exact .fail _
    · exact .pure _
  · apply Along.defer
    · apply (h.record rfl).bind
      intro _
      exact (h.writeResults evaluation.result).bind fun _ => .pure _
    · apply (h.lifecycleReset _).bind
      intro _
      apply h.clearTransaction.bind
      intro _
      split <;> exact h.transition _ h.ordinary

theorem handleDATA (hK : K .content) (cfg : Config) (c : Command) :
  Along R (handleDATA cfg env c)
  := by
  have hreceive {s : Session φ ω} (hs : s.recipients ≠ []) :
      R s (handleDATA.receive cfg env s).2 := by
    rw [handleDATA.receive, Exec.read_bind]
    apply Along.after (h.evaluate hK _ _ _ _ _ hs)
    rintro ⟨evaluation, limited, x, feed⟩
    apply Along.bind (h.update h.ordinary fun s => .feed s _)
    intro _
    cases evaluation with
    | none => exact fun s => refl_of R s
    | some evaluation =>
      apply Along.ite _ (h.finishContent _)
      apply (h.record rfl).bind
      exact fun _ => .read fun _ => h.finishContent _
  intro s
  rw [Session.handleDATA, Exec.read_bind]
  split
  · exact h.answer_at h.ordinary
  split
  · exact h.answer_at h.ordinary
  split
  · exact h.answer_at h.ordinary
  next hrecipients _ =>
  let r : WireReply := { code := 354, text := ascii "End data with <CRLF>.<CRLF>" }
  have hr : K r.concern := h.ordinary
  have hcontent := Along.step (h.content hr s) fun _ =>
    hreceive (ne_of_eq_of_ne (apart_recipients.content env trivial s) (by simpa using hrecipients))
  simpa only [Exec.bind_bind] using hcontent

theorem failed (hr : K r.concern) :
  Along R (do
    Session.record .bdatFailed
    Session.resetIfOpen env .failed
    Session.transition .bdatFailed
    writeReply env r
    pure action)
  := (h.record rfl).bind fun _ => (h.resetIfOpen _).bind fun _ =>
    (h.transition .bdatFailed h.ordinary).bind fun _ => h.answer hr

theorem finishBDAT (hK : K .content) (hs : s.recipients ≠ []) :
  R s (finishBDAT env s).2
  := by
  rw [Session.finishBDAT, Exec.read_bind]
  apply Along.step (h.read s)
  intro r
  split
  · exact h.failed ((concern_storageReply _).symm ▸ h.ordinary) _
  · apply Along.after (h.evaluate hK _ _ _ _ _ (ne_of_eq_of_ne (recipients_onSpool _ s) hs))
    intro x
    split
    · exact fun s => refl_of R s
    · exact h.finishContent _

theorem handleBDAT (hK : K .content)
    (hchunk : ∀ framing, parseBDATArgument c.argument = .ok framing → s.extended = true →
      cfg.chunking = true → R s (takeChunk env framing.size s).2 ∧
        R (attachSpool env s).2 (takeChunk env framing.size (attachSpool env s).2).2) :
  R s (handleBDAT cfg env c s).2
  := by
  have hdiscard {n : Nat} {k : Call φ ω CommandAction} {s : Session φ ω}
      (htake : R s (takeChunk env n s).2) (hk : Along R k) :
      R s ((discardChunk env n >>= fun _ => k) s).2 := by
    rw [discardChunk, Exec.bind_bind]
    apply Along.after htake
    rintro ⟨w, _ | e⟩
    · exact (h.record rfl).bind fun _ => hk
    · exact (Along.fail _).bind fun _ => hk
  have happend {framing : BDATCommand} {s : Session φ ω} (hs : s.recipients ≠ [])
      (htake : R s (takeChunk env framing.size s).2) :
      R s (handleBDAT.append env framing s).2 := by
    rw [handleBDAT.append]
    apply Along.step
    · apply Along.after htake
      rintro ⟨w, e⟩
      apply (h.pieces _).bind
      intro pieces
      apply (h.write _).bind
      intro r
      cases e with
      | some e => exact .fail _
      | none => exact (h.record rfl).bind fun _ => .pure _
    · intro r
      split
      · exact h.failed ((concern_storageReply _).symm ▸ h.ordinary) _
      · split
        · exact h.finishBDAT hK (ne_of_eq_of_ne (recipients_spoolChunk env _ s) hs)
        · exact h.answer_at h.ordinary
  rw [Session.handleBDAT, Exec.read_bind]
  cases hparse : parseBDATArgument c.argument with
  | error e =>
    cases e with
    | sizeOverflow => exact h.answer_at h.ordinary
    | syntaxError => exact h.answer_at h.ordinary
  | ok framing =>
    dsimp only
    split
    · exact h.answer_at h.ordinary
    next hon =>
    obtain ⟨hextended, hchunking⟩ : s.extended = true ∧ cfg.chunking = true := by
      simpa using hon
    obtain ⟨htake, htake'⟩ := hchunk framing hparse hextended hchunking
    split
    · exact hdiscard htake (h.answer h.ordinary)
    next hsome =>
    split
    · exact hdiscard htake (h.answer h.ordinary)
    next hphase =>
    have hs : s.recipients ≠ [] := fun hnil => hsome (by simp [hnil, hphase])
    split
    · exact happend hs htake
    · have hattach := h.attach s
      have hkept := recipients_attachSpool env s
      simp only [Bind.bind]
      rcases hx : attachSpool env s with ⟨attached | e | _, s'⟩ <;>
        rw [hx] at hattach htake' hkept
      · cases attached with
        | true => exact trans_of R hattach (happend (ne_of_eq_of_ne hkept hs) htake')
        | false =>
          refine trans_of R hattach (hdiscard htake' ?_)
          exact h.failed h.ordinary
      · exact hattach
      · exact hattach

theorem handleAUTH (hK : K .authentication) (cfg : Config) (c : Command) :
  Along R (handleAUTH cfg env c)
  := by
  have hexchange (supported : Bytes → Bool) (mechanism : Bytes) (initial : Option Bytes) :
      Along R (handleAUTH.exchange env supported mechanism initial : Call φ ω _) := by
    intro s
    rw [handleAUTH.exchange, Exec.read_bind]
    split
    · exact h.answer_at h.ordinary
    · exact h.auth hK _ _ s
  apply Along.read
  intro s
  split
  · exact hexchange _ _ _
  · exact hexchange _ _ _
  · exact h.answer h.ordinary

theorem handle (hK : K verb.concern) (hverb : verb ≠ .bdat) (cfg : Config) (c : Command) :
  Along R (handle cfg env verb c)
  := by
  cases verb with
  | helo | ehlo | lhlo => exact h.handleHello hK cfg _ c
  | mail => exact h.handleMail hK cfg c
  | rcpt => exact h.handleRcpt fun _ s => h.own hK (.added s _)
  | data => exact h.handleDATA hK cfg c
  | bdat => exact absurd rfl hverb
  | rset => exact h.handleRSET c
  | noop => exact h.answer h.ordinary
  | quit => exact Along.ite (h.answer h.ordinary) (h.answer h.ordinary)
  | vrfy => exact h.chat.handleVRFY c
  | expn => exact h.chat.handleEXPN c
  | help => exact h.chat.handleHELP c
  | etrn => exact h.chat.handleETRN c
  | startTLS => exact h.handleSTARTTLS hK cfg c
  | auth => exact h.handleAUTH hK cfg c
  | atrn => exact h.chat.handleATRN c
  | other => exact .fail _

theorem dispatch
    (hhandle : s.state.legality verb = .allowed → R s (Session.handle cfg env verb c s).2) :
  R s (dispatch cfg env verb c s).2
  := by
  rw [Session.dispatch, Exec.read_bind]
  cases hlegality : s.state.legality verb with
  | unknown => exact h.answer_at h.ordinary
  | wrongMode => exact h.answer_at h.ordinary
  | wrongState => exact h.answer_at h.ordinary
  | allowed => exact hhandle hlegality

theorem execute (hK : K (Verb.ofSpelling c.verb).concern)
    (hcount : ∀ s : Session φ ω, R s { s with mailAttempts := s.mailAttempts + 1 })
    (hchunk : Verb.ofSpelling c.verb = .bdat → s.state.legality .bdat = .allowed →
      R s (Session.handleBDAT cfg env c s).2) :
  R s (execute cfg env c s).2
  := by
  simp only [Session.execute]
  split
  · next hmail =>
    have hverb : Verb.ofSpelling c.verb ≠ .bdat := by simp [hmail]
    apply Along.after (hcount s)
    intro _
    have hdispatch : Along R (Session.dispatch cfg env (Verb.ofSpelling c.verb) c) :=
      fun s => h.dispatch fun _ => h.handle hK hverb cfg c s
    exact .read fun _ => .ite (h.answer h.ordinary) hdispatch
  · by_cases hverb : Verb.ofSpelling c.verb = .bdat
    · rw [hverb]
      exact h.dispatch (hchunk hverb)
    · exact h.dispatch fun _ => h.handle hK hverb cfg c s

theorem handleCommandReadError (e : CommandError φ) :
  Along R (handleCommandReadError env e)
  := .read fun _ => .ite (.fail _) (h.failed h.ordinary)

theorem finishTurn (action : CommandAction) :
  Along R (finishTurn env action)
  := .ite (h.flush.bind fun _ => .pure _) (.pure _)

/-- What a relation allows beside the steps of a walk, if it holds along every turn: chunks are
taken, commands read, and those of MAIL counted. -/
structure Rest (env : Env φ ω) (R : Session φ ω → Session φ ω → Prop) : Prop where
  chunk : ∀ n, Along R (takeChunk env n)
  command : Along R (await env .command)
  decoded : ∀ (s : Session φ ω) c, R s { s with log := s.log ++ [.decoded c] }
  count : ∀ s : Session φ ω, R s { s with mailAttempts := s.mailAttempts + 1 }

theorem turn (hK : ∀ k, K k) (hrest : Rest env R) (cfg : Config) :
  Along R (turn cfg env)
  := by
  have hexecute (c : Command) : Along R (Session.execute cfg env c) := fun s =>
    h.execute (hK _) hrest.count fun _ _ =>
      h.handleBDAT (hK _) fun framing _ _ _ => ⟨hrest.chunk _ s, hrest.chunk _ _⟩
  have hflush : Along R (flushBeforeRead env) :=
    h.buffered.bind fun _ => .ite (.pure _) h.flush
  apply h.canceled.bind
  intro canceled
  refine Along.ite (.fail _) ?_
  apply hflush.bind
  intro _
  apply hrest.command.bind
  intro _
  apply Along.read
  intro s
  apply Along.bind (h.update h.ordinary fun s => .feed s _)
  intro _
  split
  · exact .pure _
  · exact (h.handleCommandReadError _).bind fun action => h.finishTurn action
  · next c _ =>
    have hdecoded : Along R (Session.record (.decoded c) : Call φ ω Unit) :=
      fun s => hrest.decoded s c
    apply hdecoded.bind
    intro _
    exact (hexecute _).bind fun action => h.finishTurn action

theorem serve (hK : ∀ k, K k) (hrest : Rest env R) (cfg : Config) {n : Nat}
    (hon : (serve cfg env n s).2 = true) :
  R s (serve cfg env n s).1
  := by
  induction n generalizing s with
  | zero => exact refl_of R s
  | succ n ih =>
    have hturn := h.turn hK hrest cfg s
    rw [Session.serve] at hon ⊢
    rcases hx : Session.turn cfg env s with ⟨(_ | _) | e | _, s'⟩ <;> rw [hx] at hon hturn
    · cases hon
    · exact trans_of R hturn (ih hon)
    · cases hon
    · cases hon

end Walk

/-! ### What the handlers leave alone -/

/-- The projection depends on nothing but the commands and the mode. -/
structure Aloof {γ : Type} (f : Session φ ω → γ) : Prop where
  own : ∀ {s s'}, s'.ledger = s.ledger → s'.state.mode = s.state.mode → f s' = f s

namespace Aloof

variable {γ : Type} {f : Session φ ω → γ} (h : Aloof f)
include h

theorem apart :
  Apart f
  where
  ordinary := trivial
  world _ _ := h.own rfl rfl
  feed _ _ := h.own rfl rfl
  state _ _ hstate := h.own rfl (ProtocolState.mode_transition hstate)
  event s _ _ _ he := h.own (ledger_append s (by simpa using LogEvent.command_of_concern he)) rfl
  reply _ s _ := h.own (ledger_append s (by simp [LogEvent.command])) rfl

theorem attachSpool (env : Env φ ω) :
  Keeps f (attachSpool env)
  := by
  apply Keeps.bind fun _ => h.own rfl rfl
  intro _
  apply Keeps.read.bind
  intro s
  split
  · exact .pure _
  · apply Keeps.bind fun _ => h.own rfl rfl
    exact fun _ => (h.apart.record trivial rfl).bind fun _ => .pure _

theorem walk (env : Env φ ω) :
  Walk env (fun _ => True) (Unchanged f)
  := by
  apply h.apart.walk fun _ hown => h.own hown.ledger hown.mode
  · exact fun _ _ command r source size content s _ =>
      h.apart.evaluateContent trivial env command r source size content s
  · intro s
    rw [detachSpool_eq]
    exact h.own rfl rfl
  · exact h.attachSpool env
  · exact fun pieces => keeps_onSpool (fun _ _ _ _ => h.own rfl rfl) _
  · exact keeps_onSpool (fun _ _ _ _ => h.own rfl rfl) _

theorem dispatch (cfg : Config) (env : Env φ ω) (verb : Verb) (c : Command) :
  Keeps f (dispatch cfg env verb c)
  := by
  intro s
  apply (h.walk env).dispatch
  intro _
  by_cases hverb : verb = .bdat
  · subst hverb
    apply (h.walk env).handleBDAT trivial
    exact fun framing _ _ _ => ⟨h.apart.takeChunk env _ s, h.apart.takeChunk env _ _⟩
  · exact (h.walk env).handle trivial hverb cfg c s

theorem finishTurn (env : Env φ ω) (action : CommandAction) :
  Keeps f (finishTurn env action)
  := (h.walk env).finishTurn action

theorem close (env : Env φ ω) :
  Keeps f (close env)
  := by
  have hend : Keeps f (lifecycleClose env) := by
    apply Keeps.read.bind
    intro s
    refine .ite (.pure _) ?_
    apply Keeps.bind fun _ => h.own rfl rfl
    intro _
    apply Keeps.bind ((h.walk env).resetIfOpen _)
    intro _
    exact (h.apart.record trivial rfl).bind fun _ => h.apart.notify _
  exact hend.bind fun _ => (h.apart.transition _ trivial).attempt.bind fun _ => .pure _

end Aloof

theorem aloof_ledger :
  Aloof (ledger : Session φ ω → _)
  := ⟨fun h _ => h⟩

theorem aloof_mode :
  Aloof (fun s : Session φ ω => s.state.mode)
  := ⟨fun _ h => h⟩

theorem rest_mode (env : Env φ ω) :
  Walk.Rest env (Unchanged fun s : Session φ ω => s.state.mode)
  where
  chunk n := aloof_mode.apart.takeChunk env n
  command := aloof_mode.apart.await env _
  decoded _ _ := rfl
  count _ := rfl

theorem mode_serve {env : Env φ ω} {n : Nat} (hon : (serve cfg env n s).2 = true) :
  (serve cfg env n s).1.state.mode = s.state.mode
  := (aloof_mode.walk env).serve (fun _ => trivial) (rest_mode env) cfg hon

end Session

end GoSmtp.Server
