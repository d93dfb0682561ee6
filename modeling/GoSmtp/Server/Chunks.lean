import GoSmtp.Server.Walk

/-!
# Acknowledged chunks

What a session owes to a client that sends its message in chunks: whenever the content of a
message goes to the backend, it consists of the chunks of the transaction that were answered
with 250, in order, and of the final chunk (`NoLoss`).

The chunks are counted along the log (`tally`).  An invariant relates the count to the
attached spool (`Ledger`), and demands something of the calls of the backend; the turns of the
command loop keep it, except for one that executes DATA while a spool is attached (`MixesData`),
which may fail the demand.
-/

namespace GoSmtp.Server

open Exec

variable {φ ω α : Type}
variable {size : Nat} {r : WireReply} {action : CommandAction} {spool : Spool} {chunk : Bytes}
  {verb : Verb}
variable {s s' : Session φ ω} {env : Env φ ω} {e : LogEvent} {cfg : Config} {c : Command}
  {log : List LogEvent}

/-! ### The chunks in a log -/

structure Tally where
  /-- The chunks answered with 250 since the last MAIL. -/
  acked : List Bytes
  /-- The chunk of the current command, before its reply. -/
  pending : Option Bytes
  deriving DecidableEq, Repr

/-- The count after another event. -/
def Tally.step (t : Tally) : LogEvent → Tally
  | .decoded _ => { t with pending := none }
  | .mail _ => ⟨[], none⟩
  | .chunk w => { t with pending := some w }
  | .reply r => ⟨if r.code = 250 then t.acked ++ t.pending.toList else t.acked, none⟩
  | _ => t

/-- The events that have to do with no chunk. -/
def LogEvent.inert : LogEvent → Bool
  | .decoded _ | .mail _ | .chunk _ | .reply _ | .dataCall _ => false
  | _ => true

theorem Tally.step_inert (he : e.inert) (t : Tally) :
  t.step e = t
  := by
  cases e <;> first | rfl | cases he

def tally (log : List LogEvent) : Tally := log.foldl Tally.step ⟨[], none⟩

@[simp]
theorem tally_append (log : List LogEvent) (e : LogEvent) :
  tally (log ++ [e]) = (tally log).step e
  := by
  simp [tally]

/-- The content of a message is made of the chunks that were answered with 250 and of the
chunk at hand.  Content in the form of DATA comes without any chunk. -/
def Tally.Accounts (t : Tally) : Source → Prop
  | .dot => t.acked = []
  | .spool octets => octets = t.acked.flatten ++ t.pending.getD []

instance (t : Tally) (source : Source) : Decidable (t.Accounts source) := by
  cases source <;> unfold Tally.Accounts <;> infer_instance

/-- Every call of `Session.Data` in the log got the content it should. -/
def NoLoss (log : List LogEvent) : Prop :=
  ∀ pre source post, log = pre ++ .dataCall source :: post → (tally pre).Accounts source

theorem NoLoss.call (h : NoLoss log) (k : Nat) (source : Source)
    (hk : log[k]? = some (.dataCall source)) :
  (tally (log.take k)).Accounts source
  := by
  obtain ⟨hlt, hget⟩ := List.getElem?_eq_some_iff.mp hk
  apply h _ source (log.drop (k + 1))
  rw [← hget, ← List.drop_eq_getElem_cons hlt, List.take_append_drop]

/-- Every call of `Session.Data` in the log meets a demand, which may depend on the chunks before
it. -/
def Calls (P : Tally → Source → Prop) (log : List LogEvent) : Prop :=
  ∀ pre source post, log = pre ++ .dataCall source :: post → P (tally pre) source

variable {P : Tally → Source → Prop}

theorem calls_nil :
  Calls P []
  := by
  intro pre source post h
  simp at h

theorem Calls.append (h : Calls P log)
    (he : ∀ source, e = .dataCall source → P (tally log) source) :
  Calls P (log ++ [e])
  := by
  intro pre source post heq
  rcases List.eq_nil_or_concat post with rfl | ⟨post, e', rfl⟩
  · obtain ⟨rfl, hlast⟩ := List.append_inj' heq rfl
    exact he source (List.cons.inj hlast).1
  · rw [List.concat_eq_append, ← List.cons_append, ← List.append_assoc] at heq
    exact h pre source post (List.append_inj' heq rfl).1

theorem Calls.note (h : Calls P log) (he : e.inert) :
  Calls P (log ++ [e])
  := by
  apply h.append
  rintro source rfl
  cases he

/-! ### The invariant -/

/-- What the invariant is about. -/
structure Books where
  log : List LogEvent
  spool : Option Spool
  phase : SessionPhase
  transactionOpen : Bool
  recipients : List Bytes

def Session.books (s : Session φ ω) : Books where
  log := s.log
  spool := s.spool
  phase := s.state.phase
  transactionOpen := s.transactionOpen
  recipients := s.recipients

/-- The spool of a transaction holds its acknowledged chunks. -/
structure Ledger (P : Tally → Source → Prop) (b : Books) : Prop where
  calls : Calls P b.log
  held : ∀ spool, b.spool = some spool →
    spool.content = (tally b.log).acked.flatten ∧ b.transactionOpen = true
  /-- Without a spool, no chunk of the transaction was acknowledged. -/
  fresh : b.spool = none → b.phase = .mail ∨ b.phase = .recipients → (tally b.log).acked = []
  opened : b.phase = .mail ∨ b.phase = .recipients → b.transactionOpen = true
  accepted : b.recipients ≠ [] → b.phase = .recipients ∨ b.phase = .failedBDAT

theorem Ledger.idle {b : Books} (hlog : Calls P b.log) (hspool : b.spool = none)
    (hmail : b.phase ≠ .mail) (hrcpt : b.phase ≠ .recipients)
    (hrecipients : b.recipients ≠ [] → b.phase = .failedBDAT) :
  Ledger P b
  := by
  constructor
  · exact hlog
  · intro spool h
    simp [hspool] at h
  · intro _ h
    exact absurd h (not_or.mpr ⟨hmail, hrcpt⟩)
  · intro h
    exact absurd h (not_or.mpr ⟨hmail, hrcpt⟩)
  · exact fun h => .inr (hrecipients h)

theorem Ledger.spool_none {b : Books} (h : Ledger P b) (ho : b.transactionOpen = false) :
  b.spool = none
  := by
  rcases hs : b.spool with - | spool
  · rfl
  · have hopen := (h.held spool hs).2
    simp [ho] at hopen

theorem Ledger.grow {b : Books} (h : Ledger P b) (hlog : Calls P log)
    (hacked : (tally log).acked = (tally b.log).acked) :
  Ledger P { b with log := log }
  := by
  constructor
  · exact hlog
  · simpa [hacked] using h.held
  · simpa [hacked] using h.fresh
  · exact h.opened
  · exact h.accepted

namespace Session

/-- The invariant while a command is executed that has not consumed a chunk. -/
structure Quiet (P : Tally → Source → Prop) (s : Session φ ω) : Prop where
  ledger : Ledger P s.books
  pending : (tally s.log).pending = none

/-- What is left of the invariant when a session fails. -/
def Sound (P : Tally → Source → Prop) (s : Session φ ω) : Prop := Calls P s.log

theorem Quiet.sound (h : Quiet P s) :
  Sound P s
  := h.ledger.calls

theorem Quiet.of_books (h : Quiet P s) (heq : s'.books = s.books) :
  Quiet P s'
  := by
  have hlog : s'.log = s.log := congrArg Books.log heq
  exact ⟨heq ▸ h.ledger, hlog ▸ h.pending⟩

theorem Quiet.reply (h : Quiet P s) (r : WireReply) (w : ω) :
  Quiet P { s with world := w, log := s.log ++ [.reply r] }
  := by
  have hp := h.pending
  constructor
  · apply h.ledger.grow (h.ledger.calls.append (by simp))
    simp [Tally.step, hp, books]
  · simp [Tally.step]

theorem Quiet.note (h : Quiet P s) (he : e.inert) :
  Quiet P { s with log := s.log ++ [e] }
  := by
  have hp := h.pending
  constructor
  · apply h.ledger.grow (h.ledger.calls.note he)
    simp [Tally.step_inert he, books]
  · simpa [Tally.step_inert he] using hp

/-! ### Calls without content -/

/-- Calls that keep the invariant. -/
abbrev Orderly (P : Tally → Source → Prop) (m : Call φ ω α) : Prop := Maintains (Quiet P) (Sound P) m

theorem orderly_note (he : e.inert) :
  Orderly P (record e : Call φ ω Unit)
  := fun _ h => h.note he

theorem orderly_update {f : Session φ ω → Session φ ω} (h : ∀ s, (f s).books = s.books) :
  Orderly P (Exec.update f)
  := fun s hs => hs.of_books (h s)

theorem talk_quiet :
  Talk ((Quiet P) : Session φ ω → Prop) (Sound P)
  := by
  constructor
  · exact fun _ h => h.of_books rfl
  · exact fun r w h => h.reply r w
  · exact Quiet.sound

theorem orderly_reply (env : Env φ ω) (r : WireReply) (action : CommandAction) :
  Orderly P (do writeReply env r; pure action)
  := talk_quiet.answer env r action

/-! ### Calls that end or begin a transaction -/

/-- A session whose spool is detached, whatever its phase. -/
structure Detached (P : Tally → Source → Prop) (s : Session φ ω) : Prop where
  calls : Calls P s.log
  spool : s.spool = none
  pending : (tally s.log).pending = none

theorem Detached.quiet (h : Detached P s) (hlog : s'.log = s.log) (hspool : s'.spool = s.spool)
    (hphase : s'.state.phase ≠ .mail ∧ s'.state.phase ≠ .recipients)
    (hrecipients : s'.recipients = [] ∨ s'.state.phase = .failedBDAT) :
  Quiet P s'
  := by
  constructor
  · apply Ledger.idle
    · show Calls P s'.log
      exact hlog ▸ h.calls
    · exact hspool.trans h.spool
    · exact hphase.1
    · exact hphase.2
    · exact fun hr => hrecipients.resolve_left hr
  · exact hlog ▸ h.pending

theorem Quiet.detach (h : Quiet P s) (reason : ResetReason) (m : SpoolManager) (w : ω) :
  Detached P { s with world := w, manager := m, spool := none, transactionOpen := false,
                      log := s.log ++ s.spoolEvents ++ [.reset reason] }
  := by
  have hlog : Calls P (s.log ++ s.spoolEvents) ∧ (tally (s.log ++ s.spoolEvents)).pending = none := by
    rw [spoolEvents]
    split
    · exact ⟨h.ledger.calls.append (by simp), by simpa [Tally.step] using h.pending⟩
    · simpa using ⟨h.ledger.calls, h.pending⟩
  constructor
  · exact hlog.1.append (by simp)
  · rfl
  · rw [tally_append]
    exact hlog.2

theorem Quiet.detached (h : Quiet P s) (ho : s.transactionOpen = false) :
  Detached P s
  := ⟨h.ledger.calls, h.ledger.spool_none ho, h.pending⟩

theorem wp_resetTransaction {reason : ResetReason} (h : Quiet P s) {Q : Unit → Session φ ω → Prop}
    (hQ : ∀ s', (Detached P) s' → s'.state = s.state → Q () s') :
  wp (resetTransaction env reason) Q (fun _ => Sound P) s
  := by
  rw [resetTransaction, wp_bind, wp_read, wp_ite]
  constructor
  · intro _
    apply wp_lifecycleReset
    · exact fun m w => hQ _ (h.detach reason m w) rfl
    · exact fun m w => (h.detach reason m w).calls
  · intro ho
    exact hQ s (h.detached (by simpa using ho)) rfl

theorem orderly_handleHello (cfg : Config) (env : Env φ ω) (verb : Verb) (c : Command) :
  Orderly P (handleHello cfg env verb c)
  := by
  rw [handleHello]
  split
  · exact orderly_reply _ _ _
  · intro s h
    rw [wp_bind]
    apply wp_resetTransaction h
    intro s hs _
    rw [wp_bind]
    apply wp_transition _ fun _ => hs.calls.append (by simp)
    intro st _ hst
    rw [wp_bind, wp_update, wp_bind, wp_read]
    -- From here on only replies are written.
    refine (?_ : Orderly P _) _ ?_
    · exact .ite (orderly_reply _ _ _) (.ite (orderly_reply _ _ _) (orderly_reply _ _ _))
    · exact hs.quiet rfl rfl (by simp [hst, phaseTransitions]) (.inl rfl)

theorem orderly_handleRSET (env : Env φ ω) (c : Command) :
  Orderly P (handleRSET env c)
  := by
  apply Maintains.ite (orderly_reply _ _ _)
  intro s h
  have hreset : ∀ s' : Session φ ω, (Detached P) s' →
      wp (do
        transition .reset
        clearTransaction
        writeReply env { code := 250, enhanced := ⟨2, 0, 0, []⟩, text := ascii "Reset state" }
        pure {} : Call φ ω CommandAction) (fun _ => Quiet P) (fun _ => Sound P) s' := by
    intro s' hs'
    rw [wp_bind]
    apply wp_transition _ fun _ => hs'.calls.append (by simp)
    intro st _ hst
    rw [clearTransaction, wp_bind, wp_update]
    apply orderly_reply
    exact hs'.quiet rfl rfl (by simp [hst, phaseTransitions]) (.inl rfl)
  rw [wp_bind]
  apply wp_resetIfOpen
  · exact fun ho _ => hreset s (h.detached ho)
  · exact fun m w => hreset _ (h.detach _ m w)
  · exact fun m w => (h.detach _ m w).calls

theorem orderly_handleSTARTTLS (cfg : Config) (env : Env φ ω) (c : Command) :
  Orderly P (handleSTARTTLS cfg env c)
  := by
  apply Maintains.read
  intro s h
  refine (?_ : Orderly P _) s h
  apply Maintains.ite (orderly_reply _ _ _)
  apply Maintains.ite (orderly_reply _ _ _)
  apply (talk_quiet.writeReply _ _).bind
  intro _
  apply (talk_quiet.transport _).bind
  intro _
  apply (talk_quiet.outside _).bind
  intro r
  split
  · exact talk_quiet.fail _
  · refine Maintains.bind (orderly_note (by rfl)) fun _ s h => ?_
    rw [wp_bind]
    apply wp_lifecycleReset _ fun m w => (h.detach _ m w).calls
    intro m w
    have hd := h.detach .startTLS m w
    rw [wp_bind]
    apply wp_transition _ fun _ => hd.calls.append (by simp)
    intro st _ hst
    simp only [clearTransaction, wp_bind, wp_update, wp_pure]
    exact hd.quiet rfl rfl (by simp [hst, phaseTransitions]) (.inl rfl)

theorem orderly_authenticated :
  Orderly P (transition .authenticated : Call φ ω Unit)
  := by
  intro s h
  apply wp_transition _ fun _ => h.sound.append (by simp)
  intro st hs hst
  apply h.of_books
  simp_all [books, phaseTransitions]

theorem orderly_runDialog (env : Env φ ω) (dialog : AuthDialog ω) :
  Orderly P (runDialog env dialog)
  := talk_quiet.runDialog (fun _ h => h.of_books rfl) (fun _ => orderly_note (by rfl))
    orderly_authenticated (orderly_note (by rfl)) env dialog

theorem orderly_handleAUTH (cfg : Config) (env : Env φ ω) (c : Command) :
  Orderly P (handleAUTH cfg env c)
  := by
  have hexchange (supported mechanism initial) :
      Orderly P (handleAUTH.exchange env supported mechanism initial) := by
    apply Maintains.read
    intro s h
    exact Maintains.ite (orderly_reply _ _ _) (orderly_runDialog _ _) s h
  apply Maintains.read
  intro s h
  refine (?_ : Orderly P _) s h
  split
  · exact hexchange _ _ _
  · exact hexchange _ _ _
  · exact orderly_reply _ _ _

/-! ### Envelopes -/

/-- A session in order that has no transaction. -/
structure Between (P : Tally → Source → Prop) (s : Session φ ω) : Prop where
  quiet : Quiet P s
  transactionOpen : s.transactionOpen = false

theorem Between.phase (h : Between P s) :
  ¬ (s.state.phase = .mail ∨ s.state.phase = .recipients)
  := by
  intro hphase
  have hopen : s.transactionOpen = true := h.quiet.ledger.opened hphase
  simp [h.transactionOpen] at hopen

theorem wp_abandonTransaction (h : Quiet P s) :
  wp (abandonTransaction env) (fun _ => Between P) (fun _ => Sound P) s
  := by
  rw [abandonTransaction, wp_bind, wp_read, wp_ite]
  constructor
  · intro _
    rw [wp_bind]
    apply wp_lifecycleReset _ fun m w => (h.detach _ m w).calls
    intro m w
    have hd := h.detach .newMail m w
    rw [wp_bind]
    apply wp_transition _ fun _ => hd.calls.append (by simp)
    intro st _ hst
    exact ⟨hd.quiet rfl rfl (by simp [hst, phaseTransitions]) (.inl rfl), rfl⟩
  · intro ho
    exact ⟨h, by simpa using ho⟩

theorem Between.begin (h : Between P s) {mailbox : Bytes}
    (hlog : s'.log = s.log ++ [.mail mailbox]) (hspool : s'.spool = s.spool)
    (hopen : s'.transactionOpen = true) (hrecipients : s'.recipients = []) :
  Quiet P s'
  := by
  have hs : s'.spool = none := hspool.trans (h.quiet.ledger.spool_none h.transactionOpen)
  have htally : tally s'.log = ⟨[], none⟩ := by
    rw [hlog, tally_append]
    rfl
  constructor
  · constructor
    · show Calls P s'.log
      rw [hlog]
      exact h.quiet.ledger.calls.append (by simp)
    · simp [books, hs]
    · simp [books, htally]
    · exact fun _ => hopen
    · exact fun hr => absurd hrecipients hr
  · simp [htally]

theorem orderly_accept_mail (cfg : Config) (env : Env φ ω) (path : Path) (params : MailParams) :
  Orderly P (handleMail.accept cfg env path params)
  := by
  intro s h
  rw [handleMail.accept, wp_bind]
  apply wp_mono (wp_abandonTransaction h) _ fun _ _ => id
  intro _ s h
  rw [wp_ite]
  constructor
  · intro _
    exact orderly_reply _ _ _ s h.quiet
  · intro _
    simp only [lifecycleMail, resetTransaction, wp_bind, wp_read, wp_record,
      h.transactionOpen, Bool.false_eq_true, if_false, wp_pure]
    have hcall : Quiet P { s with log := s.log ++ [.mailCall] } := h.quiet.note (by rfl)
    refine wp_callback ?_ fun _ w => hcall.sound
    intro r w
    have hw : Between P { s with world := w, log := s.log ++ [.mailCall] } :=
      ⟨hcall.of_books rfl, h.transactionOpen⟩
    cases r with
    | error e =>
      simp only [wp_bind, wp_pure, wp_read, if_neg hw.phase, clearTransaction,
        wp_update]
      apply orderly_reply
      exact (hw.quiet.detached hw.transactionOpen).quiet rfl rfl (not_or.mp hw.phase) (.inl rfl)
    | ok _ =>
      simp only [wp_bind, wp_pure, record, wp_update]
      apply wp_transition _ fun _ =>
        (hw.quiet.ledger.calls.append (by simp)).append (by simp)
      intro st _ hst
      apply orderly_reply
      exact hw.begin rfl rfl rfl rfl

theorem orderly_handleMail (cfg : Config) (env : Env φ ω) (c : Command) :
  Orderly P (handleMail cfg env c)
  := by
  apply Maintains.read
  intro s h
  refine (?_ : Orderly P _) s h
  apply Maintains.ite (orderly_reply _ _ _)
  apply Maintains.ite (orderly_reply _ _ _)
  split
  · exact orderly_reply _ _ _
  · split
    · exact orderly_reply _ _ _
    · split
      · exact orderly_reply _ _ _
      · exact .ite (orderly_reply _ _ _) (orderly_accept_mail _ _ _ _)

theorem orderly_accept_rcpt (env : Env φ ω) (path : Path) (lines : List Bytes)
    (h : Quiet P s) (hphase : s.state.phase = .mail ∨ s.state.phase = .recipients) :
  wp (handleRcpt.accept env path lines) (fun _ => Quiet P) (fun _ => Sound P) s
  := by
  have hreply : Orderly P (do
      if lines.isEmpty then
        writeReply env { code := 250, enhanced := ⟨2, 1, 5, []⟩, text := ascii "Recipient OK" }
      else writeReply env { code := 250, lines := ascii "Recipient OK" :: lines }
      pure {} : Call φ ω CommandAction) := .ite (orderly_reply _ _ _) (orderly_reply _ _ _)
  have hquiet (st : ProtocolState) (hst : st.phase = .recipients) :
      Quiet P { s with state := st, recipients := s.recipients ++ [path.mailbox],
                       log := s.log ++ [.rcpt path.mailbox] } := by
    have hquiet : Quiet P { s with state := st, recipients := s.recipients ++ [path.mailbox] } := by
      constructor
      · constructor
        · exact h.ledger.calls
        · exact h.ledger.held
        · exact fun hs _ => h.ledger.fresh hs hphase
        · exact fun _ => h.ledger.opened hphase
        · exact fun _ => .inl hst
      · exact h.pending
    exact hquiet.note (by rfl)
  simp only [handleRcpt.accept, wp_bind, wp_update, wp_read, wp_record]
  rw [wp_ite]
  constructor
  · intro _
    rw [wp_bind]
    refine wp_transition ?_ fun _ =>
      (h.ledger.calls.note (by rfl)).note (by rfl)
    intro st _ hst
    exact hreply _ (hquiet st hst)
  · intro hmail
    exact hreply _ (hquiet s.state (hphase.resolve_left hmail))

theorem orderly_handleRcpt (cfg : Config) (env : Env φ ω) (c : Command)
    (h : Quiet P s) (hphase : s.state.phase = .mail ∨ s.state.phase = .recipients) :
  wp (handleRcpt cfg env c) (fun _ => Quiet P) (fun _ => Sound P) s
  := by
  rw [handleRcpt, wp_bind, wp_read]
  split
  · exact orderly_reply _ _ _ s h
  · split
    · exact orderly_reply _ _ _ s h
    · rw [wp_ite]
      constructor
      · exact fun _ => orderly_reply _ _ _ s h
      · intro _
        split
        · exact orderly_reply _ _ _ s h
        · have hcall : Quiet P { s with log := s.log ++ [.rcptCall] } :=
            h.note (by rfl)
          rw [wp_bind, wp_record, wp_bind]
          refine wp_callback ?_ fun _ w => hcall.sound
          intro r w
          have hw : Quiet P { s with world := w, log := s.log ++ [.rcptCall] } := hcall.of_books rfl
          cases r with
          | error e => exact orderly_reply _ _ _ _ hw
          | ok lines =>
            simp only [wp_ite]
            constructor
            · exact fun _ => orderly_accept_rcpt env _ _ hw hphase
            · exact fun _ => orderly_reply _ _ _ _ hw

/-! ### Content -/

/-- How a command may end: if the connection stays open, the books are in order. -/
def Done (P : Tally → Source → Prop) (action : CommandAction) (s : Session φ ω) : Prop :=
  Sound P s ∧ (action.closeConnection = false → Ledger P s.books)

theorem Quiet.done (h : Quiet P s) (action : CommandAction) :
  Done P action s
  := ⟨h.sound, fun _ => h.ledger⟩

theorem Sound.grow (h : Sound P s) (hlog : s'.log = s.log ++ [e])
    (he : ∀ source, e ≠ .dataCall source) :
  Sound P s'
  := by
  rw [Sound, hlog]
  exact h.append fun source hs => absurd hs (he source)

theorem Sound.reset (h : Sound P s) (reason : ResetReason) :
  Calls P (s.log ++ s.spoolEvents ++ [.reset reason])
  := by
  refine Calls.append ?_ (by simp)
  rw [spoolEvents]
  split
  · exact h.append (by simp)
  · rw [List.append_nil]
    exact h

theorem wp_evaluateContent {σ : Type} {command : Bytes} {r : Reader σ UInt8 (ContentError φ)}
    {source : Source} {content : σ} {Q : Option (DataEvaluation φ) × σ → Session φ ω → Prop}
    (h : Sound P s) (hsource : P (tally s.log) source) (hQ : ∀ x s', (Sound P) s' → Q x s') :
  wp (evaluateContent env command r source size content) Q (fun _ => Sound P) s
  := by
  rw [evaluateContent, wp_bind, wp_read, wp_bind, wp_outside, wp_bind, wp_record]
  have htraced : Calls P (s.log ++ [.traced s.state s.extended
      (env.received s.state s.extended s.recipients s.world).1]) := Calls.append h (by simp)
  split
  · exact htraced
  · simp only [wp_record, wp_bind, wp_update, wp_read, wp_pure]
    apply hQ
    refine Calls.append (htraced.append ?_) (by simp)
    rintro source' ⟨⟩
    rw [tally_append]
    exact hsource

theorem talk_sound :
  Talk ((Sound P) : Session φ ω → Prop) (Sound P)
  := by
  constructor
  · exact fun _ h => h
  · exact fun r _ h => h.grow rfl (by simp)
  · exact id

theorem wp_finishContent {evaluation : DataEvaluation φ} (h : Sound P s) :
  wp (finishContent env evaluation) (Done P) (fun _ => Sound P) s
  := by
  rw [finishContent, wp_ite]
  constructor
  · intro _
    split
    · exact h
    · exact ⟨h, fun hc => by cases hc⟩
  · intro _
    have hend (reason : ResetReason) (event : StateEvent)
        (hevent : (phaseTransitions event).2 = .ready) {Q : Unit → Session φ ω → Prop}
        {E : Option (SessionError φ) → Session φ ω → Prop} {s : Session φ ω} (h : Sound P s)
        (hQ : ∀ s' : Session φ ω, (Ledger P) s'.books → Q () s') (hE : ∀ e s', (Sound P) s' → E e s') :
        wp (do
          lifecycleReset env reason
          clearTransaction
          transition event) Q E s := by
      rw [wp_bind]
      have hlog := h.reset reason
      refine wp_lifecycleReset (fun m w => ?_) fun m w => hE _ _ hlog
      simp only [clearTransaction, wp_bind, wp_update]
      refine wp_transition (fun st _ hst => ?_) fun e => hE _ _ (hlog.append (by simp))
      apply hQ
      rw [hevent] at hst
      apply Ledger.idle hlog rfl <;> simp [books, hst]
    have hevent : (phaseTransitions
        (if evaluation.completed then .transactionComplete else .transactionFailed)).2
        = .ready := by
      split <;> rfl
    rw [Exec.wp_defer, wp_bind, wp_record, wp_bind]
    apply wp_mono (talk_sound.writeResults env evaluation.result _ (h.grow rfl (by simp)))
    · intro _ s' h'
      exact hend _ _ hevent h' (fun s'' hl => ⟨hl.calls, fun _ => hl⟩) fun _ _ => id
    · intro e s' h'
      exact hend _ _ hevent h' (fun s'' hl => hl.calls) fun _ _ => id

theorem wp_handleDATA (hP : ∀ t source, t.Accounts source → P t source) (h : Quiet P s)
    (hphase : s.state.phase = .recipients)
    (hdata : c.argument = [] → s.binaryMIME = false → s.spool = none ∨ ∀ t, P t .dot) :
  wp (handleDATA cfg env c) (Done P) (fun _ => Sound P) s
  := by
  have hdone (r : WireReply) (action : CommandAction) :
      wp (do writeReply env r; pure action) (Done P) (fun _ => Sound P) s :=
    wp_mono (orderly_reply env r action s h) (fun _ _ h => h.done _) fun _ _ => id
  rw [handleDATA, wp_bind, wp_read, wp_ite]
  refine ⟨fun _ => hdone _ _, fun hc => ?_⟩
  rw [wp_ite]
  refine ⟨fun _ => hdone _ _, fun _ => ?_⟩
  rw [wp_ite]
  refine ⟨fun _ => hdone _ _, fun hb => ?_⟩
  have hdot : P ⟨(tally s.log).acked, none⟩ .dot := by
    rcases hdata (by simpa using hc) (by simpa using hb) with hspool | hany
    · exact hP _ _ (h.ledger.fresh hspool (.inr hphase))
    · exact hany _
  have hp := h.pending
  rw [wp_bind]
  refine wp_writeReply (fun w => ?_) fun _ w => h.sound
  have hr := h.reply { code := 354, text := ascii "End data with <CRLF>.<CRLF>" } w
  rw [wp_bind]
  refine wp_transport (fun w => ?_) fun _ w => hr.sound
  rw [wp_bind]
  refine wp_await (fun w => ?_) fun _ w => hr.sound
  rw [handleDATA.receive, wp_bind, wp_read, wp_bind]
  refine wp_evaluateContent hr.sound ?_ ?_
  · simpa [Tally.step, hp] using hdot
  · intro x s' hs'
    simp only [wp_bind, wp_update]
    split
    · exact hs'
    · rw [wp_ite]
      constructor
      · exact fun _ => wp_finishContent (hs'.grow rfl (by simp))
      · exact fun _ => wp_finishContent hs'

/-! ### Chunks -/

theorem wp_failed (h : Sound P s) :
  wp (do
    resetIfOpen env .failed
    transition .bdatFailed
    writeReply env r
    pure action) (Done P) (fun _ => Sound P) s
  := by
  have hend (s : Session φ ω) (h : Sound P s) (hspool : s.spool = none) :
      wp (do
        transition .bdatFailed
        writeReply env r
        pure action) (Done P) (fun _ => Sound P) s := by
    rw [wp_bind]
    refine wp_transition (fun st _ hst => ?_) fun _ => h.append (by simp)
    rw [wp_bind]
    refine wp_writeReply (fun w => ?_) fun _ w => h
    have hlog := h.append (e := .reply r) (by simp)
    refine ⟨hlog, fun _ => ?_⟩
    apply Ledger.idle hlog hspool <;> simp [books, hst, phaseTransitions]
  rw [wp_bind]
  apply wp_resetIfOpen
  · exact fun _ hspool => hend s h hspool
  · exact fun m w => hend _ (h.reset .failed) rfl
  · exact fun m w => h.reset .failed

theorem wp_failBDAT {cause : SpoolError φ} (h : Sound P s) :
  wp (failBDAT env cause) (Done P) (fun _ => Sound P) s
  := wp_failed (h.grow rfl (by simp))

theorem sound_discardChunk (env : Env φ ω) (size : Nat) :
  Maintains (Sound P) (Sound P) (discardChunk env size)
  := by
  intro s h
  rw [discardChunk, wp_bind]
  refine wp_takeChunk (fun x w feed => ?_) fun _ w => h
  split
  · exact h.grow rfl (by simp)
  · exact h

theorem wp_discardChunk (h : Quiet P s) (hcode : r.code ≠ 250) :
  wp (do
    discardChunk env size
    writeReply env r
    pure action) (Done P) (fun _ => Sound P) s
  := by
  rw [wp_bind, discardChunk, wp_bind]
  refine wp_takeChunk (fun x w feed => ?_) fun _ w => h.sound
  split
  · next chunk =>
    have hlog := h.ledger.calls.append (e := .chunk chunk) (by simp)
    rw [record, wp_update, wp_bind]
    refine wp_writeReply (fun w => ?_) fun _ w => hlog
    have hlog := hlog.append (e := .reply r) (by simp)
    refine ⟨hlog, fun _ => ?_⟩
    apply h.ledger.grow hlog
    rw [tally_append, tally_append]
    simp [Tally.step, hcode]
  · exact h.sound

/-- The chunk is in the spool, and not answered yet. -/
structure Spooled (P : Tally → Source → Prop) (chunk : Bytes) (s : Session φ ω) : Prop where
  sound : Sound P s
  phase : s.state.phase = .recipients
  transactionOpen : s.transactionOpen = true
  pending : (tally s.log).pending = some chunk
  spool : ∃ spool, s.spool = some spool ∧
    spool.content = (tally s.log).acked.flatten ++ chunk

theorem wp_spoolChunk (h : Quiet P s)
    (hphase : s.state.phase = .recipients) (hspool : s.spool = some spool) :
  wp (spoolChunk env size)
    (fun r s' => match r with | .ok _ => ∃ chunk, Spooled P chunk s' | .error _ => (Sound P) s')
    (fun _ => Sound P) s
  := by
  rw [spoolChunk, wp_bind]
  refine wp_takeChunk (fun x w feed => ?_) fun _ w => h.sound
  obtain ⟨chunk, e⟩ := x
  rw [wp_bind, wp_outside, wp_bind]
  refine wp_onSpool hspool ?_ fun _ _ _ _ => h.sound
  apply wp_mono (Spool.writeChunk_content env.storage _ _)
  · rintro _ t ⟨hcontent, -⟩
    cases e with
    | some e => exact h.sound
    | none =>
      have hlog := h.ledger.calls.append (e := .chunk chunk) (by simp)
      have hheld := h.ledger.held spool hspool
      refine ⟨chunk, hlog, hphase, hheld.2, ?_, t.spool, rfl, ?_⟩
      · simp [Tally.step]
      · rw [hcontent, env.pieces_flatten, hheld.1, tally_append]
        rfl
  · intro _ t _ r _
    cases e with
    | some e => exact h.sound
    | none => exact h.ledger.calls.append (by simp)

theorem Spooled.acknowledge (h : Spooled P chunk s)
    (hcode : r.code = 250) (w : ω) (action : CommandAction) :
  Done P action { s with world := w, log := s.log ++ [.reply r] }
  := by
  obtain ⟨spool, hspool, hcontent⟩ := h.spool
  have hlog : Calls P (s.log ++ [.reply r]) := h.sound.append (by simp)
  refine ⟨hlog, fun _ => ?_⟩
  constructor
  · exact hlog
  · intro spool' hspool'
    obtain rfl : spool = spool' := Option.some.inj (hspool.symm.trans hspool')
    refine ⟨?_, h.transactionOpen⟩
    simp [books, Tally.step, hcode, h.pending, hcontent]
  · simp [books, hspool]
  · exact fun _ => h.transactionOpen
  · exact fun _ => .inl h.phase

theorem wp_finishBDAT (hP : ∀ t source, t.Accounts source → P t source) (h : Spooled P chunk s) :
  wp (finishBDAT env) (Done P) (fun _ => Sound P) s
  := by
  obtain ⟨spool, hspool, hcontent⟩ := h.spool
  rw [finishBDAT, wp_bind, wp_read, wp_bind]
  refine wp_onSpool hspool ?_ fun _ _ _ _ => h.sound
  apply wp_mono (Spool.reader_payload env.storage _)
  · rintro feed t ⟨hpayload, -⟩
    rw [wp_bind]
    refine wp_evaluateContent h.sound ?_ ?_
    · apply hP
      show feed.payload = _
      rw [hpayload, hcontent, h.pending]
      rfl
    · rintro ⟨_ | evaluation, x⟩ s' hs'
      · exact hs'
      · exact wp_finishContent hs'
  · exact fun _ t _ r _ => wp_failBDAT h.sound

theorem wp_append {framing : BDATCommand} (hP : ∀ t source, t.Accounts source → P t source) (h : Quiet P s)
    (hphase : s.state.phase = .recipients) (hspool : s.spool = some spool) :
  wp (handleBDAT.append env framing) (Done P) (fun _ => Sound P) s
  := by
  rw [handleBDAT.append, wp_bind]
  apply wp_mono (wp_spoolChunk h hphase hspool) _ fun _ _ => id
  intro r s' hs'
  cases r with
  | error e => exact wp_failBDAT hs'
  | ok _ =>
    obtain ⟨chunk, hs'⟩ := hs'
    rw [wp_ite]
    refine ⟨fun _ => wp_finishBDAT hP hs', fun _ => ?_⟩
    rw [wp_bind]
    exact wp_writeReply (fun w => hs'.acknowledge rfl w _) fun _ w => hs'.sound

theorem Quiet.attach (h : Quiet P s) (hphase : s.state.phase = .recipients)
    (hspool : s.spool = none) (m : SpoolManager) (w : ω) :
  Quiet P { s with manager := m, world := w, spool := some .empty, log := s.log ++ [.spoolOpened] }
  := by
  have hacked : (tally s.log).acked = [] := h.ledger.fresh hspool (.inr hphase)
  have hopen : s.transactionOpen = true := h.ledger.opened (.inr hphase)
  suffices hquiet : Quiet P { s with manager := m, world := w, spool := some .empty } from
    hquiet.note (by rfl)
  constructor
  · constructor
    · exact h.ledger.calls
    · rintro spool ⟨⟩
      exact ⟨by simp [books, hacked, Spool.empty, Spool.content], hopen⟩
    · intro hnone
      cases hnone
    · exact fun _ => hopen
    · exact h.ledger.accepted
  · exact h.pending

theorem wp_handleBDAT (hP : ∀ t source, t.Accounts source → P t source) (h : Quiet P s) :
  wp (handleBDAT cfg env c) (Done P) (fun _ => Sound P) s
  := by
  have hdone (r : WireReply) (action : CommandAction) :
      wp (do writeReply env r; pure action) (Done P) (fun _ => Sound P) s :=
    wp_mono (orderly_reply env r action s h) (fun _ _ h => h.done _) fun _ _ => id
  rw [handleBDAT, wp_bind, wp_read]
  split
  · exact hdone _ _
  · exact hdone _ _
  · next framing _ =>
    rw [wp_ite]
    refine ⟨fun _ => hdone _ _, fun _ => ?_⟩
    rw [wp_ite]
    refine ⟨fun _ => wp_discardChunk h (by decide), fun hrecipients => ?_⟩
    rw [wp_ite]
    refine ⟨fun _ => wp_discardChunk h (by decide), fun hfailed => ?_⟩
    have hphase : s.state.phase = .recipients := by
      apply (h.ledger.accepted _).resolve_right hfailed
      intro hr
      exact hrecipients ⟨by simpa [books] using hr, hfailed⟩
    rw [wp_ite]
    constructor
    · intro hspool
      obtain ⟨spool, hspool⟩ := Option.isSome_iff_exists.mp hspool
      exact wp_append hP h hphase hspool
    · intro hspool
      have hnone : s.spool = none := by simpa using hspool
      rw [wp_bind]
      apply wp_attachSpool
      · intro m w
        simp only [Bool.false_eq_true, if_false, wp_bind]
        refine wp_mono (sound_discardChunk env framing.size _ h.sound) ?_ fun _ _ => id
        exact fun _ _ h => wp_failBDAT h
      · intro m w
        exact wp_append hP (h.attach hphase hnone m w) hphase rfl

/-! ### Turns -/

/-- The command is DATA in its proper form. -/
def asksForData : Except (CommandError φ) Command → Bool
  | .ok c => Verb.ofSpelling c.verb = .data ∧ c.argument = []
  | .error _ => false

/-- The next command is DATA, it gets as far as the content, and the transaction already has a
spool. -/
def MixesData (s : Session φ ω) : Prop :=
  s.spool.isSome ∧ asksForData (readCommand s.feed).1 ∧ s.binaryMIME = false

instance (s : Session φ ω) : Decidable (MixesData s) := inferInstanceAs (Decidable (_ ∧ _ ∧ _))

theorem Orderly.done {m : Call φ ω CommandAction} (h : Orderly P m) (hs : Quiet P s) :
  wp m (Done P) (fun _ => Sound P) s
  := wp_mono (h s hs) (fun _ _ h => h.done _) fun _ _ => id

theorem wp_handle
    (hP : ∀ t source, t.Accounts source → P t source) (h : Quiet P s) (hlegal : s.state.legality verb = .allowed)
    (hdata : verb = .data → c.argument = [] → s.binaryMIME = false → s.spool = none ∨ ∀ t, P t .dot) :
  wp (handle cfg env verb c) (Done P) (fun _ => Sound P) s
  := by
  obtain ⟨rule, hrule, hphase, -⟩ := ProtocolState.legality_allowed hlegal
  cases verb with
  | helo | ehlo | lhlo => exact (orderly_handleHello cfg env _ c).done h
  | mail => exact (orderly_handleMail cfg env c).done h
  | rcpt =>
    cases hrule
    have hphase : s.state.phase = .mail ∨ s.state.phase = .recipients := by simpa using hphase
    exact wp_mono (orderly_handleRcpt cfg env c h hphase) (fun _ _ h => h.done _) fun _ _ => id
  | data =>
    cases hrule
    exact wp_handleDATA hP h (by simpa using hphase) (hdata rfl)
  | bdat => exact wp_handleBDAT hP h
  | rset => exact (orderly_handleRSET env c).done h
  | noop => exact Orderly.done (orderly_reply _ _ _) h
  | quit => exact Orderly.done (talk_quiet.handleQUIT cfg env c) h
  | vrfy => exact Orderly.done (talk_quiet.chats (·.handleVRFY c)) h
  | expn => exact Orderly.done (talk_quiet.chats (·.handleEXPN c)) h
  | help => exact Orderly.done (talk_quiet.chats (·.handleHELP c)) h
  | etrn => exact Orderly.done (talk_quiet.chats (·.handleETRN c)) h
  | startTLS => exact (orderly_handleSTARTTLS cfg env c).done h
  | auth => exact (orderly_handleAUTH cfg env c).done h
  | atrn => exact Orderly.done (talk_quiet.chats (·.handleATRN c)) h
  | other => exact h.sound

theorem wp_dispatch (hP : ∀ t source, t.Accounts source → P t source) (h : Quiet P s)
    (hdata : verb = .data → c.argument = [] → s.binaryMIME = false → s.spool = none ∨ ∀ t, P t .dot) :
  wp (dispatch cfg env verb c) (Done P) (fun _ => Sound P) s
  := by
  rw [dispatch, wp_bind, wp_read]
  split
  · exact Orderly.done (orderly_reply _ _ _) h
  · exact Orderly.done (orderly_reply _ _ _) h
  · exact Orderly.done (orderly_reply _ _ _) h
  · next hlegal => exact wp_handle hP h hlegal hdata

theorem wp_execute (hP : ∀ t source, t.Accounts source → P t source) (h : Quiet P s)
    (hdata : Verb.ofSpelling c.verb = .data → c.argument = [] → s.binaryMIME = false →
      s.spool = none ∨ ∀ t, P t .dot) :
  wp (execute cfg env c) (Done P) (fun _ => Sound P) s
  := by
  have hcount : Quiet P { s with mailAttempts := s.mailAttempts + 1 } := h.of_books rfl
  unfold execute
  rw [wp_ite]
  refine ⟨fun _ => ?_, fun _ => wp_dispatch hP h hdata⟩
  rw [wp_bind, wp_update, wp_bind, wp_read, wp_ite]
  refine ⟨fun _ => ?_, fun _ => wp_dispatch hP hcount hdata⟩
  exact Orderly.done (orderly_reply _ _ _) hcount

/-- What holds between two turns. -/
def Boundary (P : Tally → Source → Prop) (on : Bool) (s : Session φ ω) : Prop := (Sound P) s ∧ (on = true → Ledger P s.books)

theorem wp_finishTurn (h : Done P action s) :
  wp (finishTurn env action) (Boundary P) (fun _ => Sound P) s
  := by
  have hdone (w : ω) : Boundary P (!action.closeConnection) { s with world := w } :=
    ⟨h.1, fun hc => h.2 (by simpa using hc)⟩
  simp only [finishTurn]
  rw [wp_ite]
  constructor
  · intro _
    rw [wp_bind]
    exact wp_transport hdone fun _ w => h.1
  · exact fun _ => hdone s.world

theorem wp_handleCommandReadError {e : CommandError φ} (h : Sound P s) :
  wp (handleCommandReadError env e) (Done P) (fun _ => Sound P) s
  := by
  rw [handleCommandReadError, wp_bind, wp_read, wp_ite]
  exact ⟨fun _ => h, fun _ => wp_failed (h.grow rfl (by simp))⟩

theorem wp_turn (cfg : Config) (env : Env φ ω) (hP : ∀ t source, t.Accounts source → P t source)
    (h : Ledger P s.books) (hdata : MixesData s → ∀ t, P t .dot) :
  wp (turn cfg env) (Boundary P) (fun _ => Sound P) s
  := by
  have hsound : Sound P s := h.calls
  rw [turn, wp_bind, wp_outside, wp_ite]
  refine ⟨fun _ => hsound, fun _ => ?_⟩
  rw [wp_bind]
  refine wp_flushBeforeRead (fun w => ?_) fun _ _ => hsound
  rw [wp_bind]
  refine wp_await (fun w => ?_) fun _ _ => hsound
  rw [wp_bind, wp_read]
  simp only [wp_bind, wp_update]
  split
  · exact ⟨hsound, fun hon => by cases hon⟩
  · rw [wp_bind]
    refine wp_mono (wp_handleCommandReadError hsound) ?_ fun _ _ => id
    exact fun _ _ h => wp_finishTurn h
  · next c hc =>
    -- Decoding a command starts a new count of its chunk.
    have hlog := h.calls.append (e := .decoded c) (by simp)
    have hquiet : Quiet P { s with world := w, feed := (readCommand s.feed).2,
                                   log := s.log ++ [.decoded c] } := by
      constructor
      · apply h.grow hlog
        simp [Tally.step]
      · simp [Tally.step]
    rw [wp_bind, record, wp_update, wp_bind]
    refine wp_mono (wp_execute hP hquiet ?_) ?_ fun _ _ => id
    rotate_left
    · exact fun _ _ h => wp_finishTurn h
    · intro hverb harg hbinary
      by_cases hspool : s.spool = none
      · exact .inl hspool
      · exact .inr (hdata ⟨Option.isSome_iff_ne_none.mpr hspool,
          by simp [hc, asksForData, hverb, harg], hbinary⟩)

/-! ### Runs -/

theorem sound_close (env : Env φ ω) (h : Sound P s) :
  Sound P (close env s).2
  := by
  have htransition : Maintains (Sound P) (Sound P) (transition .close : Call φ ω Unit) :=
    fun s h => wp_transition (fun _ _ _ => h) fun _ => h.grow rfl (by simp)
  have hlifecycle : Maintains (Sound P) (Sound P) (lifecycleClose env : Call φ ω Unit) := by
    apply Maintains.read
    intro s h
    rw [wp_ite]
    refine ⟨fun _ => h, fun _ => ?_⟩
    have hend (s : Session φ ω) (h : Sound P s) :
        wp (do record .close; notify env.close) (fun _ => Sound P) (fun _ => Sound P) s := by
      have hlog : Sound P { s with log := s.log ++ [.close] } := h.grow rfl (by simp)
      rw [wp_bind, record, wp_update]
      exact wp_notify (fun _ => hlog) fun _ => hlog
    rw [wp_bind, wp_update, wp_bind]
    exact wp_resetIfOpen (fun _ _ => hend _ h) (fun m w => hend _ (h.reset .sessionEnd))
      fun m w => h.reset .sessionEnd
  apply Maintains.state _ h
  apply hlifecycle.bind
  intro _
  exact (htransition.attempt fun _ => id).bind fun _ => .pure _

/-- The session before turn `k`, if the session gets so far, does not mix DATA with chunks. -/
def Separates (cfg : Config) (env : Env φ ω) (n : Nat) (s : Session φ ω) : Prop :=
  ∀ k < n, (serve cfg env k s).2 = true → ¬ MixesData (serve cfg env k s).1

theorem boundary_serve {n : Nat} (hP : ∀ t source, t.Accounts source → P t source)
    (h : Ledger P s.books)
    (hs : ∀ k < n, (serve cfg env k s).2 = true → MixesData (serve cfg env k s).1 → ∀ t, P t .dot) :
  Boundary P (serve cfg env n s).2 (serve cfg env n s).1
  := by
  induction n generalizing s with
  | zero => exact ⟨h.calls, fun _ => h⟩
  | succ n ih =>
    have hturn := wp_turn cfg env hP h (hs 0 (Nat.succ_pos n) rfl)
    rw [serve]
    rcases hx : turn cfg env s with ⟨o, s'⟩
    simp only [wp, hx] at hturn
    rcases o with (_ | _) | e | _
    · exact ⟨sound_close env hturn.1, by simp⟩
    · apply ih (hturn.2 rfl)
      intro k hk hopen
      have hstep : serve cfg env (k + 1) s = serve cfg env k s' := by rw [serve, hx]
      rw [← hstep] at hopen ⊢
      exact hs (k + 1) (Nat.succ_lt_succ hk) hopen
    · exact ⟨sound_close env hturn, by simp⟩
    · exact ⟨sound_close env hturn, by simp⟩

theorem ledger_new (cfg : Config) (manager : SpoolManager) (tls : Bool) (feed : Feed UInt8 φ)
    (world : ω) :
  Ledger P (Session.new cfg manager tls feed world).books
  := by
  apply Ledger.idle <;> simp [books, new, ProtocolState.new, calls_nil]

/-- No acknowledged chunk is lost in a run in which DATA never meets an attached spool. -/
theorem noLoss_serve (cfg : Config) (env : Env φ ω) (manager : SpoolManager) (tls : Bool)
    (feed : Feed UInt8 φ) (world : ω) (n : Nat)
    (h : Separates cfg env n (Session.new cfg manager tls feed world)) :
  NoLoss (serve cfg env n (Session.new cfg manager tls feed world)).1.log
  := (boundary_serve (P := Tally.Accounts) (fun _ _ => id) (ledger_new cfg manager tls feed world)
    fun k hk hon hmixes => absurd hmixes (h k hk hon)).1

/-- A session of a client that sends the given lines. -/
def scripted (lines : List String) : Session Empty Unit :=
  Session.new (.small 7 seven_lt) SpoolManager.small false (script lines) ()

/-- A message in two chunks reaches the backend in full. -/
theorem noLoss_serve_two_chunks :
  let s := (serve (.small 7 (by decide)) Env.plain 6 (scripted
    ["EHLO a", "MAIL FROM:<>", "RCPT TO:<c>", "BDAT 1", "xBDAT 1 LAST", "yQUIT"])).1
  .dataCall (.spool (ascii "xy")) ∈ s.log ∧ NoLoss s.log
  := by
  constructor
  · decide +kernel
  · apply noLoss_serve
    rw [Separates]
    decide +kernel

/-- A chunk answered with 250 is lost: the DATA that follows is accepted, and its content goes
to the backend alone. -/
theorem not_noLoss_mixed :
  ¬ NoLoss (serve (.small 7 (by decide)) Env.plain 6 (scripted
    ["EHLO a", "MAIL FROM:<>", "RCPT TO:<c>", "BDAT 1", "xDATA", ".", "QUIT"])).1.log
  := by
  intro h
  have hcall := h.call 17 .dot (by decide +kernel)
  revert hcall
  decide +kernel

end Session

end GoSmtp.Server
