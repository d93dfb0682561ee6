import GoSmtp.Server.Journal

/-!
# The invariant of a session

What holds between two operations of a session (`Steady`): the phase, the lifecycle, the
recipients and the greeting fit together (`Coherent`), and the journal of the log tells what the
state is.  What is left of it when a session fails (`Safe`) is enough for its end.
-/

namespace GoSmtp.Server

variable {φ ω : Type}
variable {e : LogEvent} {mailbox : Bytes} {result : AuthResult}

/-! ### Events -/

namespace LogEvent

/-- The events that leave the transaction, the spool and the authentication alone. -/
def quiet : LogEvent → Bool
  | .reply _ | .mailCall | .rcptCall | .traced _ _ _ | .dataCall _ | .outcome _ | .oversize
  | .chunk _ | .auth (.verify _) => true
  | _ => false

/-- The events of the lifecycle. -/
def lifecycle : LogEvent → Bool
  | .mail _ | .spoolOpened | .spoolClosed | .reset _ | .close => true
  | _ => false

/-- The events that change whether the session is authenticated. -/
def authenticates : LogEvent → Bool
  | .auth (.commit _) | .authenticated | .handshake => true
  | _ => false

theorem of_quiet (he : e.quiet) :
  e.lifecycle = false ∧ e.authenticates = false
  := by
  unfold quiet at he
  split at he <;> first | exact ⟨rfl, rfl⟩ | cases he

end LogEvent

theorem Exchange.step_settled {x : Exchange} (h : x ≠ .committed)
    (he : ∀ result, e ≠ .auth (.commit result)) :
  x.step e ≠ .committed
  := by
  unfold step
  split
  · split <;> simp
  · split <;> simp
  · simp
  · exact absurd rfl (he _)
  · simp
  · exact absurd rfl h
  · simp

namespace Journal

theorem quiet_step (he : e.quiet) (j : Journal) :
  (j.step e).recipients = j.recipients ∧ (j.step e).failed = j.failed ∧
    (j.step e).emitting = j.emitting
  := by
  unfold step
  split <;> first | exact ⟨rfl, rfl, rfl⟩ | cases he

theorem lifecycle_step (he : e.lifecycle = false) (j : Journal) :
  (j.step e).opened = j.opened ∧ (j.step e).spool = j.spool ∧ (j.step e).closed = j.closed
  := by
  unfold step
  split <;> first | exact ⟨rfl, rfl, rfl⟩ | cases he

theorem emitting_step (he : e.lifecycle = false) (hemit : e ≠ .emit) (j : Journal) :
  (j.step e).emitting = j.emitting
  := by
  unfold step
  split <;> first | rfl | exact absurd rfl hemit | cases he

theorem auth_step (he : e.authenticates = false) (j : Journal) :
  (j.step e).tls = j.tls ∧ (j.step e).authenticated = j.authenticated ∧
    (j.step e).commits = j.commits
  := by
  unfold step
  split <;> first | exact ⟨rfl, rfl, rfl⟩ | cases he

end Journal

/-! ### The invariant -/

/-- What the invariant is about. -/
structure Facts where
  log : List LogEvent
  state : ProtocolState
  transactionOpen : Bool
  /-- Whether a spool is attached. -/
  spool : Bool
  closed : Bool
  extended : Bool
  recipients : List Bytes

def Session.facts (s : Session φ ω) : Facts where
  log := s.log
  state := s.state
  transactionOpen := s.transactionOpen
  spool := s.spool.isSome
  closed := s.closed
  extended := s.extended
  recipients := s.recipients

namespace Facts

variable {cfg : Config} {tls : Bool} {f f' : Facts}

/-- The log is accepted, and tells about the lifecycle. -/
structure Traced (cfg : Config) (tls : Bool) (f : Facts) : Prop where
  accepts : (monitor cfg tls).Accepts f.log
  opened : (journal tls f.log).opened = f.transactionOpen
  spool : (journal tls f.log).spool = f.spool
  unclosed : (journal tls f.log).closed = false ∧ f.closed = false
  held : f.spool = true → f.transactionOpen = true
  alive : f.state.phase ≠ .closed

/-- The log tells about the authentication. -/
structure Recorded (tls : Bool) (f : Facts) : Prop where
  secured : (journal tls f.log).tls = f.state.tls
  authenticated : (journal tls f.log).authenticated = f.state.authenticated
  commits : (journal tls f.log).commits = if f.state.authenticated then 1 else 0
  settled : (journal tls f.log).exchange ≠ .committed

/-- The phase, the lifecycle, the recipients and the greeting fit together. -/
structure Coherent (cfg : Config) (f : Facts) : Prop where
  opened : f.transactionOpen = true ↔ f.state.phase = .mail ∨ f.state.phase = .recipients
  spool : f.spool = true → f.state.phase = .recipients
  accepted : f.state.phase = .recipients → f.recipients ≠ []
  cleared : f.state.phase ∈ [.connected, .ready, .mail] → f.recipients = []
  plain : f.state.phase = .connected → f.extended = false
  hello : f.state.phase ∉ [.connected, .closed] →
    cfg.grammar.validGreetingIdentity f.state.hello = true

/-- A session that has failed is ready to be closed. -/
structure Safe (cfg : Config) (tls : Bool) (f : Facts) : Prop extends Traced cfg tls f where
  emitting : (journal tls f.log).emitting = false

/-- The invariant between two operations. -/
structure Steady (cfg : Config) (tls : Bool) (f : Facts) : Prop extends
    Safe cfg tls f, Recorded tls f where
  coherent : Coherent cfg f
  failed : (journal tls f.log).failed = true → f.state.phase = .failedBDAT
  recipients : f.transactionOpen = true → (journal tls f.log).recipients = f.recipients
  policy : f.transactionOpen = true →
    (cfg.requireTLS = true → f.state.tls = true) ∧
    (cfg.requireAuth = true → f.state.authenticated = true)

/-- The results of a message are being emitted, as completed or not. -/
structure Emits (cfg : Config) (tls completed : Bool) (f : Facts) : Prop extends
    Traced cfg tls f, Recorded tls f where
  phase : f.state.phase = .recipients
  isOpen : f.transactionOpen = true
  completing : (journal tls f.log).completing = completed
  failed : (journal tls f.log).failed = false
  hello : cfg.grammar.validGreetingIdentity f.state.hello = true

/-! ### How the facts change -/

theorem Traced.transfer (h : f.Traced cfg tls) (hlog : f'.log = f.log)
    (hopen : f'.transactionOpen = f.transactionOpen) (hspool : f'.spool = f.spool)
    (hclosed : f'.closed = f.closed) (halive : f'.state.phase ≠ .closed) :
  f'.Traced cfg tls
  := by
  obtain ⟨haccepts, hopened, hspooled, hunclosed, hheld, -⟩ := h
  rw [← hlog, ← hopen] at hopened
  rw [← hlog, ← hspool] at hspooled
  rw [← hlog, ← hclosed] at hunclosed
  rw [← hopen, ← hspool] at hheld
  exact ⟨hlog ▸ haccepts, hopened, hspooled, hunclosed, hheld, halive⟩

theorem Safe.transfer (h : f.Safe cfg tls) (hlog : f'.log = f.log)
    (hopen : f'.transactionOpen = f.transactionOpen) (hspool : f'.spool = f.spool)
    (hclosed : f'.closed = f.closed) (halive : f'.state.phase ≠ .closed) :
  f'.Safe cfg tls
  := ⟨h.toTraced.transfer hlog hopen hspool hclosed halive, hlog ▸ h.emitting⟩

theorem Recorded.transfer (h : f.Recorded tls) (hlog : f'.log = f.log)
    (htls : f'.state.tls = f.state.tls)
    (hauthenticated : f'.state.authenticated = f.state.authenticated) :
  f'.Recorded tls
  := by
  obtain ⟨hsecured, hauth, hcommits, hsettled⟩ := h
  rw [← hlog, ← htls] at hsecured
  rw [← hlog, ← hauthenticated] at hauth hcommits
  exact ⟨hsecured, hauth, hcommits, hlog ▸ hsettled⟩

theorem Steady.of_idle (hsafe : f.Safe cfg tls) (hrecorded : f.Recorded tls)
    (hidle : f.transactionOpen = false) (hcoherent : f.Coherent cfg)
    (hfailed : (journal tls f.log).failed = true → f.state.phase = .failedBDAT) :
  f.Steady cfg tls
  := by
  refine ⟨hsafe, hrecorded, hcoherent, hfailed, ?_, ?_⟩
  · intro hopen
    simp [hidle] at hopen
  · intro hopen
    simp [hidle] at hopen

theorem Steady.failed_eq (h : f.Steady cfg tls) (hphase : f.state.phase ≠ .failedBDAT) :
  (journal tls f.log).failed = false
  := by
  rw [← Bool.not_eq_true]
  exact fun hfailed => hphase (h.failed hfailed)

theorem Steady.hello_valid (h : f.Steady cfg tls) (hphase : f.state.phase ≠ .connected) :
  cfg.grammar.validGreetingIdentity f.state.hello = true
  := by
  apply h.coherent.hello
  simp [hphase, h.alive]

theorem Steady.idle (h : f.Steady cfg tls) (hphase : f.state.phase = .ready) :
  f.transactionOpen = false
  := by
  rw [← Bool.not_eq_true]
  intro hopen
  have hmail := h.coherent.opened.mp hopen
  simp [hphase] at hmail

variable {e : LogEvent}

theorem Traced.note (h : f.Traced cfg tls) (he : e.lifecycle = false)
    (hlegal : (journal tls f.log).legal cfg e) :
  Traced cfg tls { f with log := f.log ++ [e] }
  := by
  obtain ⟨hopened, hspool, hclosed⟩ := Journal.lifecycle_step he (journal tls f.log)
  obtain ⟨haccepts, hopened', hspool', hclosed', hheld, halive⟩ := h
  refine ⟨haccepts.snoc hlegal, ?_, ?_, ?_, hheld, halive⟩
  · rw [journal_snoc, hopened, hopened']
  · rw [journal_snoc, hspool, hspool']
  · rw [journal_snoc, hclosed]
    exact hclosed'

theorem Safe.note (h : f.Safe cfg tls) (he : e.lifecycle = false) (hemit : e ≠ .emit)
    (hlegal : (journal tls f.log).legal cfg e) :
  Safe cfg tls { f with log := f.log ++ [e] }
  := by
  refine ⟨h.toTraced.note he hlegal, ?_⟩
  rw [journal_snoc, Journal.emitting_step he hemit]
  exact h.emitting

theorem Recorded.note (h : f.Recorded tls) (he : e.authenticates = false) :
  Recorded tls { f with log := f.log ++ [e] }
  := by
  obtain ⟨htls, hauthenticated, hcommits⟩ := Journal.auth_step he (journal tls f.log)
  obtain ⟨hsecured, hauth, hcount, hsettled⟩ := h
  constructor
  · rw [journal_snoc, htls, hsecured]
  · rw [journal_snoc, hauthenticated, hauth]
  · rw [journal_snoc, hcommits, hcount]
  · rw [journal_snoc, Journal.exchange_step]
    apply Exchange.step_settled hsettled
    rintro result rfl
    cases he

section

variable (h : f.Steady cfg tls)
include h

theorem Steady.note (he : e.quiet) (hlegal : (journal tls f.log).legal cfg e) :
  Steady cfg tls { f with log := f.log ++ [e] }
  := by
  obtain ⟨hrecipients, hfailed, hemitting⟩ := Journal.quiet_step he (journal tls f.log)
  obtain ⟨hlifecycle, hauthenticates⟩ := e.of_quiet he
  refine ⟨⟨h.toTraced.note hlifecycle hlegal, ?_⟩, h.toRecorded.note hauthenticates, ?_, ?_, ?_,
    h.policy⟩
  · rw [journal_snoc, hemitting]
    exact h.emitting
  · obtain ⟨hopened, hspool, haccepted, hcleared, hplain, hhello⟩ := h.coherent
    exact ⟨hopened, hspool, haccepted, hcleared, hplain, hhello⟩
  · rw [journal_snoc, hfailed]
    exact h.failed
  · rw [journal_snoc, hrecipients]
    exact h.recipients

theorem Steady.reply (r : WireReply) :
  Steady cfg tls { f with log := f.log ++ [.reply r] }
  := h.note rfl fun hcommitted => absurd hcommitted h.settled

theorem Steady.decoded (c : Command) :
  Steady cfg tls { f with log := f.log ++ [.decoded c] }
  := by
  refine ⟨h.toSafe.note rfl (by simp) h.settled, h.toRecorded.note rfl, ?_, ?_, ?_, h.policy⟩
  · obtain ⟨hopened, hspool, haccepted, hcleared, hplain, hhello⟩ := h.coherent
    exact ⟨hopened, hspool, haccepted, hcleared, hplain, hhello⟩
  · rw [journal_snoc]
    intro hfailed
    exact h.failed (Bool.and_eq_true_iff.mp hfailed).1
  · rw [journal_snoc]
    exact h.recipients

theorem Steady.admits (hphase : f.state.phase ≠ .failedBDAT)
    (htls : cfg.requireTLS = true → f.state.tls = true)
    (hauthenticated : cfg.requireAuth = true → f.state.authenticated = true) :
  (journal tls f.log).Admits cfg
  := by
  constructor
  · rw [h.secured]
    exact htls
  · rw [h.authenticated]
    exact hauthenticated
  · exact h.failed_eq hphase
  · exact h.unclosed.1

theorem Steady.begin (hphase : f.state.phase = .ready)
    (hadmits : (journal tls f.log).Admits cfg)
    (hlog : f'.log = f.log ++ [.mailCall] ++ [.mail mailbox])
    (hstate : f'.state = { f.state with phase := .mail }) (hopen : f'.transactionOpen = true)
    (hspool : f'.spool = false) (hclosed : f'.closed = f.closed) (hrecipients : f'.recipients = []) :
  f'.Steady cfg tls
  := by
  have hcall := h.note (e := .mailCall) rfl ⟨hadmits, h.opened.trans (h.idle hphase)⟩
  have hidle := h.idle hphase
  have hjournal : journal tls f'.log
      = ((journal tls f.log).step .mailCall).step (.mail mailbox) := by
    rw [hlog, journal_snoc, journal_snoc]
  have hnone : (journal tls f.log).spool = false := by
    rw [h.spool, ← Bool.not_eq_true]
    intro hspool
    simp [h.held hspool] at hidle
  refine ⟨⟨⟨?_, ?_, ?_, ?_, fun _ => hopen, ?_⟩, ?_⟩, ?_, ?_, ?_, ?_, ?_⟩
  · rw [hlog]
    apply hcall.accepts.snoc
    rw [run_monitor, journal_snoc]
    exact ⟨rfl, h.opened.trans hidle⟩
  · rw [hjournal, hopen]
    rfl
  · rw [hjournal, hspool]
    exact hnone
  · rw [hjournal, hclosed]
    exact h.unclosed
  · rw [hstate]
    simp
  · rw [hjournal]
    exact h.emitting
  · apply (hcall.toRecorded.note (e := .mail mailbox) rfl).transfer hlog <;> rw [hstate]
  · constructor <;> rw [hstate]
    · simp [hopen]
    · simp [hspool]
    · simp
    · exact fun _ => hrecipients
    · simp
    · exact fun _ => h.hello_valid (by simp [hphase])
  · rw [hjournal, hstate]
    intro hfailed
    have hclear := h.failed_eq (by simp [hphase])
    exact absurd (hclear.symm.trans hfailed) Bool.false_ne_true
  · rw [hjournal, hrecipients]
    exact fun _ => rfl
  · rw [hstate]
    intro _
    exact ⟨fun hr => h.secured ▸ hadmits.tls hr, fun hr => h.authenticated ▸ hadmits.authenticated hr⟩

theorem Steady.admits_open (hopen : f.transactionOpen = true) :
  (journal tls f.log).Admits cfg ∧ (journal tls f.log).opened = true
  := by
  obtain ⟨htls, hauthenticated⟩ := h.policy hopen
  refine ⟨h.admits ?_ htls hauthenticated, h.opened.trans hopen⟩
  intro heq
  have hmail := h.coherent.opened.mp hopen
  simp [heq] at hmail

theorem Steady.accept (hphase : f.state.phase = .mail ∨ f.state.phase = .recipients)
    (hlog : f'.log = f.log ++ [.rcpt mailbox])
    (hstate : f'.state = { f.state with phase := .recipients })
    (hopen : f'.transactionOpen = f.transactionOpen) (hspool : f'.spool = f.spool)
    (hclosed : f'.closed = f.closed) (hrecipients : f'.recipients = f.recipients ++ [mailbox]) :
  f'.Steady cfg tls
  := by
  have hopened : f.transactionOpen = true := h.coherent.opened.mpr hphase
  have hjournal : journal tls f'.log = (journal tls f.log).step (.rcpt mailbox) := by
    rw [hlog, journal_snoc]
  have htraced := h.toTraced.note (e := .rcpt mailbox) rfl (by trivial)
  refine ⟨⟨?_, ?_⟩, ?_, ?_, ?_, ?_, ?_⟩
  · apply htraced.transfer hlog hopen hspool hclosed
    rw [hstate]
    simp
  · rw [hjournal]
    exact h.emitting
  · apply (h.toRecorded.note (e := .rcpt mailbox) rfl).transfer hlog <;> rw [hstate]
  · constructor <;> rw [hstate]
    · simp [hopen, hopened]
    · exact fun _ => rfl
    · simp [hrecipients]
    · simp
    · simp
    · exact fun _ => h.hello_valid (by rcases hphase with heq | heq <;> simp [heq])
  · rw [hjournal]
    intro hfailed
    have hclear := h.failed_eq (by rcases hphase with heq | heq <;> simp [heq])
    exact absurd (hclear.symm.trans hfailed) Bool.false_ne_true
  · rw [hjournal, hrecipients, ← h.recipients hopened]
    exact fun _ => rfl
  · rw [hstate]
    exact fun _ => h.policy hopened

theorem Steady.attach (hphase : f.state.phase = .recipients) :
  Steady cfg tls { f with log := f.log ++ [.spoolOpened], spool := true }
  := by
  have hopen : f.transactionOpen = true := h.coherent.opened.mpr (.inr hphase)
  refine ⟨⟨⟨?_, ?_, ?_, ?_, fun _ => hopen, h.alive⟩, ?_⟩, ?_, ?_, ?_, ?_, h.policy⟩
  · exact h.accepts.snoc (by trivial)
  · rw [journal_snoc]
    exact h.opened
  · rw [journal_snoc]
    rfl
  · rw [journal_snoc]
    exact h.unclosed
  · rw [journal_snoc]
    exact h.emitting
  · exact (h.toRecorded.note (e := .spoolOpened) rfl).transfer rfl rfl rfl
  · obtain ⟨hopened, -, haccepted, hcleared, hplain, hhello⟩ := h.coherent
    exact ⟨hopened, fun _ => hphase, haccepted, hcleared, hplain, hhello⟩
  · rw [journal_snoc]
    exact h.failed
  · rw [journal_snoc]
    exact h.recipients

theorem Steady.commit (hresult : result.failure = none)
    (hauthenticated : f.state.authenticated = false)
    (hexchange : (journal tls f.log).exchange = .started (some result)) :
  Safe cfg tls { f with log := f.log ++ [.auth (.commit result)] }
  := by
  refine h.toSafe.note rfl (by simp) ⟨hexchange, hresult, ?_⟩
  rw [h.commits, hauthenticated]
  rfl

theorem Steady.authenticate (hresult : result.failure = none)
    (hphase : f.state.phase = .ready) (hauthenticated : f.state.authenticated = false)
    (hexchange : (journal tls f.log).exchange = .started (some result)) {r : WireReply}
    (hcode : r.code = 235) :
  Steady cfg tls
    { f with
      log := f.log ++ [.auth (.commit result)] ++ [.authenticated] ++ [.reply r]
      state := { f.state with authenticated := true } }
  := by
  have hcommits : (journal tls f.log).commits = 0 := by
    rw [h.commits, hauthenticated]
    rfl
  have hcommit := h.commit hresult hauthenticated hexchange
  have hset := hcommit.note (e := .authenticated) rfl (by simp) (by trivial)
  have hsafe := hset.note (e := .reply r) rfl (by simp) fun _ => hcode
  apply Steady.of_idle
  · exact hsafe.transfer rfl rfl rfl rfl h.alive
  · constructor <;> rw [journal_snoc, journal_snoc, journal_snoc]
    · exact h.secured
    · rfl
    · show (journal tls f.log).commits + 1 = 1
      rw [hcommits]
    · simp [Exchange.step]
  · exact h.idle hphase
  · obtain ⟨hopened, hspool, haccepted, hcleared, hplain, hhello⟩ := h.coherent
    exact ⟨hopened, hspool, haccepted, hcleared, hplain, hhello⟩
  · rw [journal_snoc, journal_snoc, journal_snoc]
    exact h.failed

theorem Steady.emit (hphase : f.state.phase = .recipients) :
  Emits cfg tls ((journal tls f.log).decided && !(journal tls f.log).oversize)
    { f with log := f.log ++ [.emit] }
  := by
  have hfailed := h.failed_eq (by simp [hphase])
  refine ⟨h.toTraced.note rfl (by trivial), h.toRecorded.note rfl, hphase,
    h.coherent.opened.mpr (.inr hphase), ?_, ?_, h.hello_valid (by simp [hphase])⟩
  · rw [journal_snoc]
    exact Bool.true_and _
  · rw [journal_snoc]
    exact hfailed

end

theorem Emits.reply {completed : Bool} (h : f.Emits cfg tls completed) (r : WireReply) :
  Emits cfg tls completed { f with log := f.log ++ [.reply r] }
  := by
  refine ⟨h.toTraced.note rfl fun hcommitted => absurd hcommitted h.settled, h.toRecorded.note rfl,
    h.phase, h.isOpen, ?_, ?_, h.hello⟩
  · rw [journal_snoc]
    exact h.completing
  · rw [journal_snoc]
    exact h.failed

/-- The facts after a reset: the spool is closed, and the backend told. -/
def resetBy (f : Facts) (reason : ResetReason) : Facts :=
  { f with
    log := f.log ++ (if f.spool = true then [.spoolClosed] else []) ++ [.reset reason]
    transactionOpen := false
    spool := false }

theorem Traced.reset (h : f.Traced cfg tls) {reason : ResetReason}
    (hopen : f.transactionOpen = true ↔ reason ≠ .startTLS)
    (hreason : reason = .completed ↔ (journal tls f.log).completing = true) :
  (f.resetBy reason).Safe cfg tls
  := by
  obtain ⟨haccepts, hopened, hspool, ⟨hunclosed, hclosed⟩, -, halive⟩ := h
  rw [← hopened] at hopen
  cases hs : f.spool with
  | true =>
    have hlog : (f.resetBy reason).log = f.log ++ [.spoolClosed] ++ [.reset reason] := by
      simp [resetBy, hs]
    have haccepts' : (monitor cfg tls).Accepts (f.log ++ [.spoolClosed] ++ [.reset reason]) := by
      apply (haccepts.snoc (by trivial)).snoc
      rw [run_monitor, journal_snoc]
      exact ⟨hopen, rfl, hunclosed, hreason⟩
    refine ⟨⟨hlog ▸ haccepts', ?_, ?_, ⟨?_, hclosed⟩, by intros; contradiction, halive⟩, ?_⟩ <;>
      rw [hlog, journal_snoc, journal_snoc]
    · rfl
    · rfl
    · exact hunclosed
    · rfl
  | false =>
    have hlog : (f.resetBy reason).log = f.log ++ [.reset reason] := by simp [resetBy, hs]
    rw [hs] at hspool
    have haccepts' : (monitor cfg tls).Accepts (f.log ++ [.reset reason]) :=
      haccepts.snoc ⟨hopen, hspool, hunclosed, hreason⟩
    refine ⟨⟨hlog ▸ haccepts', ?_, ?_, ⟨?_, hclosed⟩, by intros; contradiction, halive⟩, ?_⟩ <;>
      rw [hlog, journal_snoc]
    · rfl
    · exact hspool
    · exact hunclosed
    · rfl

theorem Recorded.reset (h : f.Recorded tls) (reason : ResetReason) :
  (f.resetBy reason).Recorded tls
  := by
  have hclosed : Recorded tls
      { f with log := f.log ++ if f.spool = true then [.spoolClosed] else [] } := by
    split
    · exact h.note rfl
    · rw [List.append_nil]
      exact h
  have hreset := hclosed.note (e := .reset reason) rfl
  exact hreset.transfer rfl rfl rfl

theorem failed_resetBy (reason : ResetReason) :
  (journal tls (f.resetBy reason).log).failed = (journal tls f.log).failed
  := by
  rw [resetBy]
  split
  · rw [journal_snoc, journal_snoc]
    rfl
  · rw [List.append_nil, journal_snoc]
    rfl

end Facts

end GoSmtp.Server
