import GoSmtp.Server.AuthExchange
import GoSmtp.Server.Invariant
import GoSmtp.Server.Outcome
import GoSmtp.Server.Walk

/-!
# The conduct of a session

The log of every session is accepted by its monitor.  The proof goes through the handlers once:
each keeps the invariant, or fails and leaves a session that is ready to be closed.
-/

namespace GoSmtp.Server

variable {φ ω α : Type}
variable {Q : Unit → Session φ ω → Prop}
variable {r : WireReply} {action : CommandAction} {path : Path} {completed : Bool}
variable {s' : Session φ ω} {env : Env φ ω} {reason : ResetReason} {size : Nat}
  {last : Option AuthResult}

/-! ### Calls -/

namespace Session

variable {cfg : Config} {tls : Bool} {s : Session φ ω}

/-- Calls that keep the invariant. -/
abbrev Conducts (cfg : Config) (tls : Bool) (m : Call φ ω α) : Prop :=
  Exec.Maintains (fun s => s.facts.Steady cfg tls) (fun s => s.facts.Safe cfg tls) m

/-- The call takes the session `s` to one that meets the invariant, or fails safely. -/
abbrev Conducted (cfg : Config) (tls : Bool) (m : Call φ ω α) (s : Session φ ω) : Prop :=
  wp m (fun _ s' => s'.facts.Steady cfg tls) (fun _ s' => s'.facts.Safe cfg tls) s

theorem talk_steady :
  Talk (fun s : Session φ ω => s.facts.Steady cfg tls) (fun s => s.facts.Safe cfg tls)
  := by
  constructor
  · exact fun _ h => h
  · exact fun r _ h => h.reply r
  · exact fun h => h.toSafe

theorem conduct_answer (h : s.facts.Steady cfg tls) :
  Conducted cfg tls (do writeReply env r; pure action) s
  := talk_steady.answer env r action s h

/-- The session `s'` is what is left of `s` without its transaction. -/
structure Idle (cfg : Config) (tls : Bool) (s s' : Session φ ω) : Prop where
  safe : s'.facts.Safe cfg tls
  recorded : s'.facts.Recorded tls
  closed : s'.transactionOpen = false
  state : s'.state = s.state
  recipients : s'.recipients = s.recipients
  failed : (journal tls s'.log).failed = (journal tls s.log).failed

theorem Idle.refl (h : s.facts.Steady cfg tls) (hopen : s.transactionOpen = false) :
  Idle cfg tls s s
  := ⟨h.toSafe, h.toRecorded, hopen, rfl, rfl, rfl⟩

theorem Idle.spool (h : Idle cfg tls s s') :
  s'.spool.isSome = false
  := by
  have hclosed : s'.facts.transactionOpen = false := h.closed
  have hheld := h.safe.held
  rw [hclosed] at hheld
  rw [← Bool.not_eq_true]
  exact fun hspool => Bool.false_ne_true (hheld hspool)

theorem Idle.tls_eq (h : Idle cfg tls s s') :
  s'.state.tls = s.state.tls
  := congrArg ProtocolState.tls h.state

theorem Idle.authenticated_eq (h : Idle cfg tls s s') :
  s'.state.authenticated = s.state.authenticated
  := congrArg ProtocolState.authenticated h.state

theorem Idle.hello_eq (h : Idle cfg tls s s') :
  s'.state.hello = s.state.hello
  := congrArg ProtocolState.hello h.state

theorem Idle.steady {s'' : Session φ ω} (h : Idle cfg tls s s') (hlog : s''.log = s'.log)
    (hopen : s''.transactionOpen = s'.transactionOpen) (hspool : s''.spool = s'.spool)
    (hclosed : s''.closed = s'.closed) (htls : s''.state.tls = s.state.tls)
    (hauthenticated : s''.state.authenticated = s.state.authenticated)
    (hphase : s''.state.phase ∈ [.connected, .ready, .failedBDAT])
    (hcleared : s''.state.phase ≠ .failedBDAT → s''.recipients = [])
    (hplain : s''.state.phase = .connected → s''.extended = false)
    (hhello : s''.state.phase ≠ .connected →
      cfg.grammar.validGreetingIdentity s''.state.hello = true)
    (hfailed : (journal tls s.log).failed = true → s''.state.phase = .failedBDAT) :
  s''.facts.Steady cfg tls
  := by
  have hspool' : s''.facts.spool = s'.facts.spool := congrArg Option.isSome hspool
  have hopen' : s''.facts.transactionOpen = false := hopen.trans h.closed
  have hnone : s''.facts.spool = false := hspool'.trans h.spool
  apply Facts.Steady.of_idle _ _ hopen'
  · constructor
    · rw [hopen']
      simp only [Bool.false_eq_true, false_iff, not_or]
      show s''.state.phase ≠ .mail ∧ s''.state.phase ≠ .recipients
      constructor <;> intro heq <;> simp [heq] at hphase
    · rw [hnone]
      simp
    · intro heq
      simp [show s''.state.phase = .recipients from heq] at hphase
    · intro hmem
      apply hcleared
      intro heq
      simp [show s''.facts.state.phase = .failedBDAT from heq] at hmem
    · exact hplain
    · intro hmem
      apply hhello
      intro heq
      simp [show s''.facts.state.phase = .connected from heq] at hmem
  · intro hfail
    apply hfailed
    rw [← h.failed, ← hlog]
    exact hfail
  · apply h.safe.transfer hlog hopen hspool' hclosed
    intro heq
    simp [show s''.state.phase = .closed from heq] at hphase
  · apply h.recorded.transfer hlog
    · exact htls.trans (congrArg _ h.state.symm)
    · exact hauthenticated.trans (congrArg _ h.state.symm)

theorem conduct_reset (h : s.facts.Steady cfg tls)
    (hopen : s.transactionOpen = true ↔ reason ≠ .startTLS) (hreason : reason ≠ .completed)
    (hQ : ∀ s', Idle cfg tls s s' → Q () s') :
  wp (lifecycleReset env reason) Q (fun _ s' => s'.facts.Safe cfg tls) s
  := by
  have hsafe : (s.facts.resetBy reason).Safe cfg tls := by
    apply h.toTraced.reset hopen
    simp [hreason, Journal.completing, h.emitting]
  apply wp_lifecycleReset
  · intro m w
    apply hQ
    exact ⟨hsafe, h.toRecorded.reset reason, rfl, rfl, rfl,
      Facts.failed_resetBy (f := s.facts) reason⟩
  · exact fun m w => hsafe

theorem conduct_resetTransaction (h : s.facts.Steady cfg tls)
    (hreason : reason ≠ .completed ∧ reason ≠ .startTLS) (hQ : ∀ s', Idle cfg tls s s' → Q () s') :
  wp (resetTransaction env reason) Q (fun _ s' => s'.facts.Safe cfg tls) s
  := by
  rw [resetTransaction, wp_bind, wp_read, wp_ite]
  constructor
  · intro hopen
    exact conduct_reset h (by simp [hopen, hreason.2]) hreason.1 hQ
  · intro hopen
    exact hQ s (.refl h (by simpa using hopen))

theorem isOpen_of_not_idle (h : s.facts.Traced cfg tls)
    (hidle : ¬ (!s.transactionOpen && s.spool.isNone) = true) :
  s.transactionOpen = true
  := by
  by_contra hopen
  have hspool : s.spool ≠ none := by simpa [Bool.not_eq_true _ ▸ hopen] using hidle
  exact hopen (h.held (Option.isSome_iff_ne_none.mpr hspool))

theorem conduct_resetIfOpen (h : s.facts.Steady cfg tls)
    (hreason : reason ≠ .completed ∧ reason ≠ .startTLS) (hQ : ∀ s', Idle cfg tls s s' → Q () s') :
  wp (resetIfOpen env reason) Q (fun _ s' => s'.facts.Safe cfg tls) s
  := by
  rw [resetIfOpen, wp_bind, wp_read, wp_ite]
  constructor
  · intro hidle
    simp only [Bool.and_eq_true, Bool.not_eq_true'] at hidle
    exact hQ s (.refl h hidle.1)
  · intro hidle
    have hopen := isOpen_of_not_idle h.toTraced hidle
    exact conduct_reset h (by simp [hopen, hreason.2]) hreason.1 hQ

/-! ### Greetings, RSET and STARTTLS -/

section Handlers

variable {env : Env φ ω} {c : Command}

theorem valid_parseHello {argument domain : Bytes} (h : parseHello cfg argument = some domain) :
  cfg.grammar.validGreetingIdentity domain = true
  := by
  rw [parseHello] at h
  split at h
  · cases h
  · next hvalid =>
    cases h
    simp only [Bool.or_eq_true, Bool.not_eq_true', not_or, Bool.not_eq_false] at hvalid
    exact hvalid.2

theorem conduct_handleHello {verb : Verb} (h : s.facts.Steady cfg tls)
    (hphase : s.state.phase ∈ [.connected, .ready, .mail, .recipients]) :
  Conducted cfg tls (handleHello cfg env verb c) s
  := by
  have hfailed : (journal tls s.log).failed = false := by
    apply h.failed_eq
    intro heq
    simp [show s.state.phase = .failedBDAT from heq] at hphase
  rw [Conducted, handleHello.eq_def]
  split
  · exact conduct_answer h
  · next domain hparse =>
    rw [wp_bind]
    apply conduct_resetTransaction h (by simp)
    intro s' hs'
    rw [wp_bind, wp_transition_of_mem (by rw [hs'.state]; exact hphase), wp_bind,
      wp_update, wp_bind, wp_read]
    -- From here on only replies are written.
    refine (?_ : Conducts cfg tls _) _ ?_
    · exact .ite (talk_steady.answer _ _ _)
        (.ite (talk_steady.answer _ _ _) (talk_steady.answer _ _ _))
    · refine hs'.steady rfl rfl rfl rfl ?_ ?_ ?_ ?_ ?_ ?_ ?_
      · exact hs'.tls_eq
      · exact hs'.authenticated_eq
      · simp [phaseTransitions, ProtocolState.applyEvent]
      · exact fun _ => rfl
      · intros; contradiction
      · exact fun _ => valid_parseHello hparse
      · simp [hfailed]

theorem conduct_handleRSET (h : s.facts.Steady cfg tls)
    (hphase : s.state.phase ∈ [.ready, .mail, .recipients, .failedBDAT])
    (hfailed : c.argument = [] → (journal tls s.log).failed = false) :
  Conducted cfg tls (handleRSET env c) s
  := by
  rw [Conducted, handleRSET, wp_ite]
  refine ⟨fun _ => conduct_answer h, fun hargument => ?_⟩
  rw [wp_bind]
  apply conduct_resetIfOpen h (by simp)
  intro s' hs'
  rw [wp_bind, wp_transition_of_mem (by rw [hs'.state]; exact hphase), clearTransaction,
    wp_bind, wp_update]
  apply talk_steady.answer
  refine hs'.steady rfl rfl rfl rfl ?_ ?_ ?_ ?_ ?_ ?_ ?_
  · exact hs'.tls_eq
  · exact hs'.authenticated_eq
  · simp [phaseTransitions, ProtocolState.applyEvent]
  · exact fun _ => rfl
  · intros; contradiction
  · intro _
    have hhello : cfg.grammar.validGreetingIdentity s.state.hello = true := by
      apply h.hello_valid
      intro heq
      simp [show s.state.phase = .connected from heq] at hphase
    rw [← hs'.hello_eq] at hhello
    exact hhello
  · simp [hfailed (by simpa using hargument)]

/-- The facts of a session after a handshake and the reset that follows it. -/
def secured (s : Session φ ω) : Facts :=
  Facts.resetBy { s.facts with log := s.log ++ [.handshake] } .startTLS

theorem safe_secured (h : s.facts.Steady cfg tls) (hopen : s.transactionOpen = false) :
  s.secured.Safe cfg tls
  := by
  have htraced : Facts.Traced cfg tls { s.facts with log := s.log ++ [.handshake] } :=
    h.toTraced.note rfl (by trivial)
  apply htraced.reset
  · simp [facts, hopen]
  · have hemitting : ((journal tls s.log).step .handshake).emitting = false := h.emitting
    simp [Journal.completing, hemitting]

theorem steady_secured (h : s.facts.Steady cfg tls) (hphase : s.state.phase = .ready) {f : Facts}
    (hlog : f.log = s.secured.log)
    (hstate : f.state = { s.state with phase := .connected }.applyEvent .startTLS)
    (hopen : f.transactionOpen = false) (hspool : f.spool = false) (hclosed : f.closed = s.closed)
    (hextended : f.extended = false) (hrecipients : f.recipients = []) :
  f.Steady cfg tls
  := by
  have hfailed : (journal tls f.log).failed = false := by
    rw [hlog, secured, Facts.failed_resetBy, journal_snoc]
    exact h.failed_eq (by simp [facts, hphase])
  have hrecorded : Facts.Recorded tls
      { s.facts with
        log := s.log ++ [.handshake]
        state := { s.state with phase := .connected }.applyEvent .startTLS } := by
    constructor <;> rw [journal_snoc]
    · rfl
    · rfl
    · rfl
    · rw [Journal.exchange_step]
      exact Exchange.step_settled h.settled (by simp)
  apply Facts.Steady.of_idle
  · apply (safe_secured h (h.idle hphase)).transfer hlog hopen hspool hclosed
    rw [hstate]
    rintro ⟨⟩
  · apply (hrecorded.reset .startTLS).transfer hlog <;> rw [hstate] <;> rfl
  · exact hopen
  · constructor <;> rw [hstate]
    · rw [hopen]
      simp [ProtocolState.applyEvent]
    · rw [hspool]
      simp
    · intros; contradiction
    · exact fun _ => hrecipients
    · exact fun _ => hextended
    · exact fun hmem => absurd (List.mem_cons_self) hmem
  · simp [hfailed]

theorem conduct_handleSTARTTLS (h : s.facts.Steady cfg tls) (hphase : s.state.phase = .ready) :
  Conducted cfg tls (handleSTARTTLS cfg env c) s
  := by
  rw [Conducted, handleSTARTTLS, wp_bind, wp_read, wp_ite]
  refine ⟨fun _ => conduct_answer h, fun _ => ?_⟩
  rw [wp_ite]
  refine ⟨fun _ => conduct_answer h, fun _ => ?_⟩
  rw [wp_bind]
  let r : WireReply :=
    { code := 220, enhanced := ⟨2, 0, 0, []⟩, text := ascii "Ready to start TLS" }
  refine wp_writeReply (fun w => ?_) fun _ w => h.toSafe
  have hr : ({ s with log := s.log ++ [.reply r] } : Session φ ω).facts.Steady cfg tls := h.reply r
  rw [wp_bind]
  refine wp_transport (fun w => ?_) fun _ w => hr.toSafe
  rw [wp_bind, wp_outside]
  split
  · exact hr.toSafe
  · have hidle : s.transactionOpen = false := h.idle hphase
    rw [wp_bind, wp_record, wp_bind]
    refine wp_lifecycleReset (fun m w => ?_) fun m w => safe_secured hr hidle
    have hmem : s.state.phase ∈ (phaseTransitions .startTLS).1 := by simp [hphase, phaseTransitions]
    rw [wp_bind]
    refine (wp_transition_of_mem ?_).mpr ?_
    · exact hmem
    · exact steady_secured hr hphase rfl rfl rfl rfl rfl rfl rfl

/-! ### Envelopes -/

theorem conduct_abandonTransaction (h : s.facts.Steady cfg tls)
    (hphase : s.state.phase ∈ [.ready, .mail, .recipients])
    (hQ : ∀ s' : Session φ ω, s'.facts.Steady cfg tls → s'.state.phase = .ready →
      s'.state.tls = s.state.tls → s'.state.authenticated = s.state.authenticated → Q () s') :
  wp (abandonTransaction env) Q (fun _ s' => s'.facts.Safe cfg tls) s
  := by
  rw [abandonTransaction, wp_bind, wp_read, wp_ite]
  constructor
  · intro hopen
    have hmail : s.state.phase = .mail ∨ s.state.phase = .recipients := h.coherent.opened.mp hopen
    have hfailed : (journal tls s.log).failed = false := by
      apply h.failed_eq
      rcases hmail with heq | heq <;> simp [facts, heq]
    rw [wp_bind]
    apply conduct_reset h (by simp [hopen]) (by simp)
    intro s' hs'
    rw [wp_bind]
    refine (wp_transition_of_mem ?_).mpr ?_
    · rw [hs'.state]
      rcases hmail with heq | heq <;> simp [heq, phaseTransitions]
    apply hQ
    · refine hs'.steady rfl rfl rfl rfl hs'.tls_eq hs'.authenticated_eq ?_ ?_ ?_ ?_ ?_
      · exact List.mem_of_elem_eq_true rfl
      · exact fun _ => rfl
      · intros; contradiction
      · intro _
        have hhello := h.hello_valid (by rcases hmail with heq | heq <;> simp [facts, heq])
        rw [facts, ← hs'.hello_eq] at hhello
        exact hhello
      · simp [hfailed]
    · rfl
    · exact hs'.tls_eq
    · exact hs'.authenticated_eq
  · intro hopen
    apply hQ s h _ rfl rfl
    have hmail : ¬ (s.state.phase = .mail ∨ s.state.phase = .recipients) :=
      fun hmail => hopen (h.coherent.opened.mpr hmail)
    simpa [not_or.mp hmail] using hphase

theorem conduct_acceptMail {params : MailParams} (h : s.facts.Steady cfg tls)
    (hphase : s.state.phase ∈ [.ready, .mail, .recipients])
    (htls : cfg.requireTLS = true → s.state.tls = true)
    (hauthenticated : cfg.requireAuth = true → s.state.authenticated = true) :
  Conducted cfg tls (handleMail.accept cfg env path params) s
  := by
  rw [Conducted, handleMail.accept, wp_bind]
  apply conduct_abandonTransaction h hphase
  intro s' hs' hready htls' hauthenticated'
  rw [wp_ite]
  refine ⟨fun _ => conduct_answer hs', fun _ => ?_⟩
  have hidle : s'.transactionOpen = false := hs'.idle hready
  have hadmits : (journal tls s'.log).Admits cfg := by
    apply hs'.admits (by simp [facts, hready])
    · exact fun hr => htls'.trans (htls hr)
    · exact fun hr => hauthenticated'.trans (hauthenticated hr)
  have hcall : ({ s' with log := s'.log ++ [.mailCall] } : Session φ ω).facts.Steady cfg tls :=
    hs'.note rfl ⟨hadmits, hs'.opened.trans hidle⟩
  rw [wp_bind, lifecycleMail, wp_bind, resetTransaction, wp_bind, wp_read,
    if_neg (by simp [hidle]), wp_pure, wp_bind, wp_record, wp_bind]
  refine wp_callback (fun r w => ?_) fun _ w => hcall.toSafe
  cases r with
  | error e =>
    have hne : ¬ (s'.state.phase = .mail ∨ s'.state.phase = .recipients) := by simp [hready]
    simp only [wp_bind, wp_pure, wp_read, if_neg hne, clearTransaction,
      wp_update]
    apply talk_steady.answer
    refine (Idle.refl hcall hidle).steady rfl rfl rfl rfl rfl rfl ?_ ?_ ?_ ?_ ?_
    · simp [hready]
    · exact fun _ => rfl
    · simp [hready]
    · exact fun _ => hcall.hello_valid (by simp [facts, hready])
    · intro hfailed
      exact hcall.failed hfailed
  | ok _ =>
    simp only [wp_bind, wp_pure, record, wp_update]
    refine (wp_transition_of_mem ?_).mpr ?_
    · simp [hready, phaseTransitions]
    · apply talk_steady.answer
      have hnone : s'.spool.isSome = false := (Idle.refl hs' hidle).spool
      exact hs'.begin hready hadmits rfl rfl rfl hnone rfl rfl

theorem conduct_handleMail (h : s.facts.Steady cfg tls)
    (hphase : s.state.phase ∈ [.ready, .mail, .recipients]) :
  Conducted cfg tls (handleMail cfg env c) s
  := by
  rw [Conducted, handleMail, wp_bind, wp_read, wp_ite]
  refine ⟨fun _ => conduct_answer h, fun htls => ?_⟩
  rw [wp_ite]
  refine ⟨fun _ => conduct_answer h, fun hauthenticated => ?_⟩
  split
  · exact conduct_answer h
  · split
    · exact conduct_answer h
    · split
      · exact conduct_answer h
      · rw [wp_ite]
        refine ⟨fun _ => conduct_answer h, fun _ => ?_⟩
        apply conduct_acceptMail h hphase
        · intro hr
          simpa [hr] using htls
        · intro hr
          simpa [hr] using hauthenticated

theorem conduct_acceptRcpt {lines : List Bytes} (h : s.facts.Steady cfg tls)
    (hphase : s.state.phase = .mail ∨ s.state.phase = .recipients) :
  Conducted cfg tls (handleRcpt.accept env path lines) s
  := by
  have hreply : Conducts cfg tls (do
      if lines.isEmpty then
        writeReply env { code := 250, enhanced := ⟨2, 1, 5, []⟩, text := ascii "Recipient OK" }
      else writeReply env { code := 250, lines := ascii "Recipient OK" :: lines }
      pure {} : Call φ ω CommandAction) := .ite (talk_steady.answer _ _ _) (talk_steady.answer _ _ _)
  rw [Conducted, handleRcpt.accept, wp_bind, wp_update, wp_bind, wp_record, wp_bind,
    wp_read, wp_ite]
  constructor
  · intro hmail
    rw [wp_bind]
    refine (wp_transition_of_mem ?_).mpr ?_
    · simp [show s.state.phase = .mail from hmail, phaseTransitions]
    · apply hreply
      exact h.accept hphase rfl rfl rfl rfl rfl rfl
  · intro hmail
    apply hreply
    have hrecipients : s.state.phase = .recipients := hphase.resolve_left hmail
    refine h.accept hphase rfl ?_ rfl rfl rfl rfl
    show s.state = { s.state with phase := .recipients }
    rw [← hrecipients]

theorem conduct_handleRcpt (h : s.facts.Steady cfg tls)
    (hphase : s.state.phase = .mail ∨ s.state.phase = .recipients) :
  Conducted cfg tls (handleRcpt cfg env c) s
  := by
  rw [Conducted, handleRcpt, wp_bind, wp_read]
  split
  · exact conduct_answer h
  · split
    · exact conduct_answer h
    · rw [wp_ite]
      refine ⟨fun _ => conduct_answer h, fun _ => ?_⟩
      split
      · exact conduct_answer h
      · have hcall : ({ s with log := s.log ++ [.rcptCall] } : Session φ ω).facts.Steady cfg tls :=
          h.note rfl (h.admits_open (h.coherent.opened.mpr hphase))
        rw [wp_bind, wp_record, wp_bind]
        refine wp_callback (fun r w => ?_) fun _ w => hcall.toSafe
        cases r with
        | error e => exact conduct_answer hcall
        | ok lines =>
          simp only [wp_ite]
          constructor
          · intro _
            have hw : ({ s with world := w, log := s.log ++ [.rcptCall] } :
                Session φ ω).facts.Steady cfg tls := hcall
            exact conduct_acceptRcpt hw hphase
          · exact fun _ => conduct_answer hcall

/-! ### Content -/

theorem talk_emits :
  Talk (fun s : Session φ ω => s.facts.Emits cfg tls completed)
    (fun s => s.facts.Emits cfg tls completed)
  := by
  constructor
  · exact fun _ h => h
  · exact fun r _ h => h.reply r
  · exact id

theorem conduct_emitted (h : s.facts.Emits cfg tls completed) :
  Conducted cfg tls (do
    lifecycleReset env (if completed then .completed else .failed)
    clearTransaction
    transition (if completed then .transactionComplete else .transactionFailed)) s
  := by
  let reason : ResetReason := if completed then .completed else .failed
  have hreason : reason = .completed ↔ (journal tls s.log).completing = true := by
    have hcompleting : (journal tls s.log).completing = completed := h.completing
    rw [hcompleting]
    cases completed <;> simp [reason]
  have hne : reason ≠ .startTLS := by cases completed <;> simp [reason]
  have hsafe : (s.facts.resetBy reason).Safe cfg tls :=
    h.toTraced.reset (by simp [h.isOpen, hne]) hreason
  have hidle (m : SpoolManager) (w : ω) : Idle cfg tls s
      { s with world := w, manager := m, spool := none, transactionOpen := false,
               log := s.log ++ s.spoolEvents ++ [.reset reason] } :=
    ⟨hsafe, h.toRecorded.reset reason, rfl, rfl, rfl, Facts.failed_resetBy (f := s.facts) reason⟩
  have hfailed : (journal tls s.log).failed = false := h.failed
  rw [Conducted, wp_bind]
  refine wp_lifecycleReset (fun m w => ?_) fun m w => hsafe
  rw [wp_bind, clearTransaction, wp_update]
  have hphase : s.state.phase = .recipients := h.phase
  refine (wp_transition_of_mem ?_).mpr ?_
  · cases completed <;> simp [hphase, phaseTransitions]
  · have hready : (phaseTransitions
        (if completed then .transactionComplete else .transactionFailed)).2 = .ready := by
      cases completed <;> rfl
    have happly (st : ProtocolState) : st.applyEvent
        (if completed then .transactionComplete else .transactionFailed) = st := by
      cases completed <;> rfl
    rw [hready, happly]
    refine (hidle m w).steady rfl rfl rfl rfl rfl rfl ?_ ?_ ?_ ?_ ?_
    · exact List.mem_of_elem_eq_true rfl
    · exact fun _ => rfl
    · simp
    · exact fun _ => h.hello
    · simp [hfailed]

theorem conduct_finishContent {evaluation : DataEvaluation φ} (h : s.facts.Steady cfg tls)
    (hphase : s.state.phase = .recipients)
    (hcompleted : evaluation.closeConnection = false → evaluation.completed
      = ((journal tls s.log).decided && !(journal tls s.log).oversize)) :
  Conducted cfg tls (finishContent env evaluation) s
  := by
  rw [Conducted, finishContent, wp_ite]
  constructor
  · intro _
    split
    · exact h.toSafe
    · exact h
  · intro hclose
    have hemits : ({ s with log := s.log ++ [.emit] } : Session φ ω).facts.Emits cfg tls
        evaluation.completed := by
      rw [hcompleted (by simpa using hclose)]
      exact h.emit hphase
    rw [Exec.wp_defer, wp_bind, wp_record, wp_bind]
    refine wp_mono (talk_emits.writeResults env evaluation.result _ hemits) ?_ ?_
    · intro _ s' hs'
      exact conduct_emitted hs'
    · intro e s' hs'
      exact wp_mono (conduct_emitted hs') (fun _ _ h => h.toSafe) fun _ _ => id

theorem conduct_evaluateContent {σ : Type} {command : Bytes} {r : Reader σ UInt8 (ContentError φ)}
    {source : Source} {content : σ} (h : s.facts.Steady cfg tls)
    (hphase : s.state.phase = .recipients) {Q : Option (DataEvaluation φ) × σ → Session φ ω → Prop}
    (hQ : ∀ evaluation x (s' : Session φ ω), s'.facts.Steady cfg tls →
      s'.state.phase = .recipients → (journal tls s'.log).oversize = false →
      (∀ e, evaluation = some e → e.closeConnection = false →
        e.completed = (journal tls s'.log).decided) →
      Q (evaluation, x) s') :
  wp (evaluateContent env command r source size content) Q
    (fun _ s' => s'.facts.Safe cfg tls) s
  := by
  have hopen : s.transactionOpen = true := h.coherent.opened.mpr (.inr hphase)
  have htraced := h.note (e := .traced s.state s.extended
    (env.received s.state s.extended s.recipients s.world).1) rfl trivial
  have hrecipients := (htraced.recipients hopen).trans_ne (h.coherent.accepted hphase)
  obtain ⟨hadmits, hopened⟩ := htraced.admits_open hopen
  rw [evaluateContent, wp_bind, wp_read, wp_bind, wp_outside, wp_bind, wp_record]
  split
  · exact htraced.toSafe
  · next header hheader =>
    have hcall := htraced.note (e := .dataCall source) rfl ⟨hadmits, hopened, hrecipients⟩
    simp only [wp_bind, wp_record, wp_read, wp_update, wp_pure]
    refine hQ _ _ _ (hcall.note rfl (by trivial)) hphase ?_ ?_
    · rw [journal_snoc, journal_snoc]
      rfl
    · intro e he hclose
      rw [journal_snoc]
      refine completed_evaluateDataCall (Prod.ext he rfl) hclose

theorem conduct_handleDATA (h : s.facts.Steady cfg tls) (hphase : s.state.phase = .recipients) :
  Conducted cfg tls (handleDATA cfg env c) s
  := by
  rw [Conducted, handleDATA, wp_bind, wp_read, wp_ite]
  refine ⟨fun _ => conduct_answer h, fun _ => ?_⟩
  rw [wp_ite]
  refine ⟨fun _ => conduct_answer h, fun _ => ?_⟩
  rw [wp_ite]
  refine ⟨fun _ => conduct_answer h, fun _ => ?_⟩
  let r : WireReply := { code := 354, text := ascii "End data with <CRLF>.<CRLF>" }
  rw [wp_bind]
  refine wp_writeReply (fun w => ?_) fun _ w => h.toSafe
  rw [wp_bind]
  refine wp_transport (fun w => ?_) fun _ w => (h.reply r).toSafe
  rw [wp_bind]
  refine wp_await (fun w => ?_) fun _ w => (h.reply r).toSafe
  have hr : ({ s with world := w, log := s.log ++ [.reply r] } : Session φ ω).facts.Steady cfg tls :=
    h.reply r
  rw [handleDATA.receive, wp_bind, wp_read, wp_bind]
  refine conduct_evaluateContent hr hphase ?_
  intro evaluation x s' hs' hphase' hoversize hcompleted
  simp only [wp_bind, wp_update]
  cases evaluation with
  | none => exact hs'.toSafe
  | some e =>
    rw [wp_ite]
    constructor
    · intro _
      have hover : ({ s' with feed := x.2.2, log := s'.log ++ [.oversize] } :
          Session φ ω).facts.Steady cfg tls := hs'.note rfl (by trivial)
      refine conduct_finishContent hover hphase' fun _ => ?_
      rw [journal_snoc]
      exact (Bool.and_false _).symm
    · intro _
      have hsame : ({ s' with feed := x.2.2 } : Session φ ω).facts.Steady cfg tls := hs'
      refine conduct_finishContent hsame hphase' fun hclose => ?_
      rw [hoversize, Bool.not_false, Bool.and_true]
      exact hcompleted e rfl hclose

/-! ### Chunks -/

section

variable (h : s.facts.Steady cfg tls)
include h

theorem conduct_failed (hphase : s.state.phase = .recipients) :
  Conducted cfg tls (do
    record .bdatFailed
    resetIfOpen env .failed
    transition .bdatFailed
    writeReply env r
    pure action) s
  := by
  have hopen : s.transactionOpen = true := h.coherent.opened.mpr (.inr hphase)
  have htraced : Facts.Traced cfg tls { s.facts with log := s.log ++ [.bdatFailed] } :=
    h.toTraced.note rfl (by trivial)
  have hsafe : Facts.Safe cfg tls
      (Facts.resetBy { s.facts with log := s.log ++ [.bdatFailed] } .failed) := by
    apply htraced.reset (by simp [facts, hopen])
    have hemitting : ((journal tls s.log).step .bdatFailed).emitting = false := h.emitting
    simp [Journal.completing, hemitting]
  have hrecorded : Facts.Recorded tls
      (Facts.resetBy { s.facts with log := s.log ++ [.bdatFailed] } .failed) :=
    Facts.Recorded.reset (h.toRecorded.note rfl) .failed
  rw [Conducted, wp_bind, wp_record, wp_bind, resetIfOpen, wp_bind, wp_read,
    if_neg (by simp [hopen])]
  refine wp_lifecycleReset (fun m w => ?_) fun m w => hsafe
  rw [wp_bind]
  refine (wp_transition_of_mem ?_).mpr ?_
  · simp [hphase, phaseTransitions]
  · apply talk_steady.answer
    apply Facts.Steady.of_idle
    · exact hsafe.transfer rfl rfl rfl rfl (by rintro ⟨⟩)
    · exact hrecorded.transfer rfl rfl rfl
    · rfl
    · constructor
      · simp [facts, phaseTransitions, ProtocolState.applyEvent]
      · intros; contradiction
      · intros; contradiction
      · intros; contradiction
      · intros; contradiction
      · exact fun _ => h.hello_valid (by simp [facts, hphase])
    · exact fun _ => rfl

theorem conduct_failBDAT {cause : SpoolError φ} (hphase : s.state.phase = .recipients) :
  Conducted cfg tls (failBDAT env cause) s
  := conduct_failed h hphase

theorem conduct_discardChunk (hQ : ∀ s' : Session φ ω, s'.facts.Steady cfg tls → s'.state = s.state → Q () s') :
  wp (discardChunk env size) Q (fun _ s' => s'.facts.Safe cfg tls) s
  := by
  rw [discardChunk, wp_bind]
  refine wp_takeChunk (fun x w feed => ?_) fun _ w => h.toSafe
  obtain ⟨octets, _ | e⟩ := x
  · exact hQ _ (h.note (e := .chunk octets) rfl (by trivial)) rfl
  · exact h.toSafe

theorem conduct_spoolChunk {spool : Spool} (hspool : s.spool = some spool) {Q : Except (SpoolError φ) Unit → Session φ ω → Prop}
    (hQ : ∀ r (s' : Session φ ω), s'.facts.Steady cfg tls → s'.state = s.state →
      s'.spool.isSome → Q r s') :
  wp (spoolChunk env size) Q (fun _ s' => s'.facts.Safe cfg tls) s
  := by
  have hsome (m : SpoolManager) (p : Spool) (w : ω) (feed : Feed UInt8 φ) :
      ({ s with manager := m, spool := some p, world := w, feed := feed } :
        Session φ ω).facts.Steady cfg tls := by
    simpa [facts, hspool] using h
  rw [spoolChunk, wp_bind]
  refine wp_takeChunk (fun x w feed => ?_) fun _ w => h.toSafe
  obtain ⟨octets, e⟩ := x
  rw [wp_bind, wp_outside, wp_bind]
  have hend (r : Except (SpoolError φ) Unit) (m : SpoolManager) (p : Spool) (w : ω) :
      wp (do record (.chunk octets); pure r) Q (fun _ s' => s'.facts.Safe cfg tls)
        { s with manager := m, spool := some p, world := w, feed := feed } :=
    hQ r _ ((hsome m p w feed).note (e := .chunk octets) rfl (by trivial)) rfl rfl
  refine wp_onSpool hspool ?_ fun _ m p w => (hsome m p w feed).toSafe
  cases e with
  | some e =>
    exact wp_of_forall (fun _ t => (hsome t.1 _ _ feed).toSafe) fun _ t _ _ =>
      (hsome t.1 _ _ feed).toSafe
  | none => exact wp_of_forall (fun a t => hend (.ok a) _ _ _) fun _ t r _ => hend (.error r) _ _ _

theorem conduct_finishBDAT {spool : Spool} (hphase : s.state.phase = .recipients) (hspool : s.spool = some spool) :
  Conducted cfg tls (finishBDAT env) s
  := by
  have hsome (m : SpoolManager) (p : Spool) (w : ω) :
      ({ s with manager := m, spool := some p, world := w } : Session φ ω).facts.Steady cfg tls := by
    simpa [facts, hspool] using h
  rw [Conducted, finishBDAT, wp_bind, wp_read, wp_bind]
  refine wp_onSpool hspool ?_ fun _ m p w => (hsome m p w).toSafe
  refine wp_of_forall (fun feed t => ?_) fun _ t r _ => ?_
  · rw [wp_bind]
    refine conduct_evaluateContent (hsome _ _ _) hphase ?_
    intro evaluation x s' hs' hphase' hoversize hcompleted
    cases evaluation with
    | none => exact hs'.toSafe
    | some e =>
      refine conduct_finishContent hs' hphase' fun hclose => ?_
      rw [hoversize, Bool.not_false, Bool.and_true]
      exact hcompleted e rfl hclose
  · exact conduct_failBDAT (hsome _ _ _) hphase

theorem conduct_append {framing : BDATCommand} {spool : Spool} (hphase : s.state.phase = .recipients) (hspool : s.spool = some spool) :
  Conducted cfg tls (handleBDAT.append env framing) s
  := by
  rw [Conducted, handleBDAT.append, wp_bind]
  apply conduct_spoolChunk h hspool
  intro r s' hs' hstate hsome
  have hphase' : s'.state.phase = .recipients := by rw [hstate, hphase]
  obtain ⟨spool', hspool'⟩ := Option.isSome_iff_exists.mp hsome
  cases r with
  | error e => exact conduct_failBDAT hs' hphase'
  | ok _ =>
    simp only [wp_ite]
    constructor
    · exact fun _ => conduct_finishBDAT hs' hphase' hspool'
    · exact fun _ => conduct_answer hs'

theorem conduct_handleBDAT (hphase : s.state.phase ∈ [.ready, .mail, .recipients, .failedBDAT]) :
  Conducted cfg tls (handleBDAT cfg env c) s
  := by
  have hdiscard (size : Nat) (r : WireReply) (action : CommandAction) :
      wp (do discardChunk env size; writeReply env r; pure action)
        (fun _ s' => s'.facts.Steady cfg tls) (fun _ s' => s'.facts.Safe cfg tls) s := by
    rw [wp_bind]
    exact conduct_discardChunk h fun s' hs' _ => talk_steady.answer env r action s' hs'
  rw [Conducted, handleBDAT, wp_bind, wp_read]
  split
  · exact conduct_answer h
  · exact conduct_answer h
  · next framing hframing =>
    rw [wp_ite]
    refine ⟨fun _ => conduct_answer h, fun _ => ?_⟩
    rw [wp_ite]
    refine ⟨fun _ => hdiscard _ _ _, fun hrecipients => ?_⟩
    rw [wp_ite]
    refine ⟨fun _ => hdiscard _ _ _, fun hfailed => ?_⟩
    -- There are recipients, so the phase is the one with recipients.
    have hmail : s.state.phase = .recipients := by
      by_contra hne
      have hempty : s.recipients = [] := by
        apply h.coherent.cleared
        have hcases : s.state.phase = .ready ∨ s.state.phase = .mail := by
          simpa [hne, hfailed] using hphase
        rcases hcases with heq | heq <;> simp [facts, heq]
      exact hrecipients ⟨by simp [hempty], hfailed⟩
    rw [wp_ite]
    constructor
    · intro hsome
      obtain ⟨spool, hspool⟩ := Option.isSome_iff_exists.mp hsome
      exact conduct_append h hmail hspool
    · intro _
      rw [wp_bind]
      apply wp_attachSpool
      · intro m w
        rw [if_neg Bool.false_ne_true, wp_bind]
        have hs : ({ s with manager := m, world := w } : Session φ ω).facts.Steady cfg tls := h
        refine conduct_discardChunk hs fun s' hs' hstate => ?_
        exact conduct_failBDAT hs' (by rw [hstate]; exact hmail)
      · intro m w
        rw [if_pos rfl]
        exact conduct_append (h.attach hmail) hmail rfl

end

/-! ### Malformed commands -/

theorem conduct_handleCommandReadError {e : CommandError φ} (h : s.facts.Steady cfg tls) :
  Conducted cfg tls (handleCommandReadError env e) s
  := by
  rw [Conducted, handleCommandReadError, wp_bind, wp_read, wp_ite]
  refine ⟨fun _ => h.toSafe, fun hspool => ?_⟩
  apply conduct_failed h
  apply h.coherent.spool
  simp only [Bool.or_eq_true, not_or] at hspool
  simpa [facts, Option.isSome_iff_ne_none] using hspool.1

/-! ### AUTH -/

/-- The session is in an exchange whose last verification had the result. -/
structure Exchanges (cfg : Config) (tls : Bool) (last : Option AuthResult) (s : Session φ ω) :
    Prop where
  steady : s.facts.Steady cfg tls
  phase : s.state.phase = .ready
  unauthenticated : s.state.authenticated = false
  exchange : (journal tls s.log).exchange = .started last

theorem Exchanges.challenge (h : s.Exchanges cfg tls last)
    (hcode : r.code = 334) (w : ω) (feed : Feed UInt8 φ) :
  Exchanges cfg tls last { s with world := w, feed := feed, log := s.log ++ [.reply r] }
  := by
  refine ⟨h.steady.reply r, h.phase, h.unauthenticated, ?_⟩
  rw [journal_snoc, Journal.exchange_step, h.exchange, Exchange.step, if_pos hcode]

theorem Exchanges.verify (h : s.Exchanges cfg tls last) (result : Option AuthResult) (w : ω) :
  Exchanges cfg tls result { s with world := w, log := s.log ++ [.auth (.verify result)] }
  := by
  refine ⟨h.steady.note rfl (by trivial), h.phase, h.unauthenticated, ?_⟩
  rw [journal_snoc, Journal.exchange_step, h.exchange, Exchange.step]

theorem conduct_runDialog {dialog : AuthDialog ω}
    (hdialog : dialog.Honest last) (h : s.Exchanges cfg tls last) :
  Conducted cfg tls (runDialog env dialog) s
  := by
  induction hdialog generalizing s with
  | @challenge last text w k hk ih =>
    let r : WireReply := { code := 334, text := text }
    have hr := h.steady.reply r
    rw [Conducted, runDialog, wp_bind, wp_update, wp_bind]
    refine wp_writeReply (fun w => ?_) fun _ w => h.steady.toSafe
    rw [wp_bind]
    refine wp_transport (fun w => ?_) fun _ w => hr.toSafe
    rw [wp_bind]
    refine wp_await (fun w => ?_) fun _ w => hr.toSafe
    rw [wp_bind, wp_read, wp_bind, wp_update]
    split
    · exact conduct_answer hr
    · exact hr.toSafe
    · rw [wp_bind, wp_read]
      exact ih _ _ (h.challenge rfl w _)
  | @verify last result w k hk ih =>
    rw [Conducted, runDialog, wp_bind, wp_update, wp_bind, wp_record]
    exact ih (h.verify result w)
  | @commit result w w' hresult =>
    have hcommit := h.steady.commit hresult h.unauthenticated h.exchange
    have hset := hcommit.note (e := .authenticated) rfl (by simp) (by trivial)
    rw [Conducted, runDialog, wp_bind, wp_update, wp_bind, wp_record, runDialog, wp_bind,
      wp_update, wp_bind]
    refine (wp_transition_of_mem ?_).mpr ?_
    · simp [h.phase, phaseTransitions]
    · have hsame : { s.state with phase := (phaseTransitions .authenticated).2 } = s.state := by
        rw [show (phaseTransitions .authenticated).2 = s.state.phase from h.phase.symm]
      rw [hsame, wp_bind, wp_record, wp_bind]
      refine wp_writeReply (fun w => ?_) fun _ w => ?_
      · exact h.steady.authenticate hresult h.phase h.unauthenticated h.exchange rfl
      · exact hset.transfer rfl rfl rfl rfl h.steady.alive
  | @cut result w w' hresult => exact h.steady.commit hresult h.unauthenticated h.exchange
  | @refused last r w => exact conduct_answer h.steady
  | failed => exact h.steady.toSafe
  | panic => exact h.steady.toSafe

theorem conduct_handleAUTH (hauth : ∀ mechanism initial w, (env.auth mechanism initial w).Honest none)
    (h : s.Exchanges cfg tls none) :
  Conducted cfg tls (handleAUTH cfg env c) s
  := by
  have hexchange (supported : Bytes → Bool) (mechanism : Bytes) (initial : Option Bytes) :
      wp (handleAUTH.exchange env supported mechanism initial)
        (fun _ s' => s'.facts.Steady cfg tls) (fun _ s' => s'.facts.Safe cfg tls) s := by
    rw [handleAUTH.exchange, wp_bind, wp_read, wp_ite]
    constructor
    · exact fun _ => conduct_answer h.steady
    · exact fun _ => conduct_runDialog (hauth _ _ _) h
  rw [Conducted, handleAUTH, wp_bind, wp_read]
  split
  · exact hexchange _ _ _
  · exact hexchange _ _ _
  · exact conduct_answer h.steady

/-! ### Commands -/

/-- The log after a command was decoded. -/
structure Decoded (tls : Bool) (c : Command) (s : Session φ ω) : Prop where
  auth : Verb.ofSpelling c.verb = .auth → (journal tls s.log).exchange = .started none
  rset : Journal.isRSET c = true → (journal tls s.log).failed = false

variable (hauth : ∀ mechanism initial w, (env.auth mechanism initial w).Honest none)
include hauth

theorem conduct_handle (h : s.facts.Steady cfg tls) (hdecoded : s.Decoded tls c)
    (hlegal : s.state.legality (.ofSpelling c.verb) = .allowed) :
  Conducted cfg tls (handle cfg env (.ofSpelling c.verb) c) s
  := by
  obtain ⟨rule, hrule, hphase, hunauthenticated⟩ := ProtocolState.legality_allowed hlegal
  rw [Conducted, handle.eq_def]
  cases hverb : Verb.ofSpelling c.verb <;> rw [hverb] at hrule <;> cases hrule
  case helo | ehlo | lhlo => exact conduct_handleHello h hphase
  case mail => exact conduct_handleMail h hphase
  case rcpt => exact conduct_handleRcpt h (by simpa using hphase)
  case data => exact conduct_handleDATA h (by simpa using hphase)
  case bdat => exact conduct_handleBDAT h hphase
  case rset =>
      apply conduct_handleRSET h hphase
      exact fun hargument => hdecoded.rset (by simp [Journal.isRSET, hverb, hargument])
  case noop => exact conduct_answer h
  case quit => exact talk_steady.handleQUIT cfg env c s h
  case vrfy => exact talk_steady.chats (·.handleVRFY c) s h
  case expn => exact talk_steady.chats (·.handleEXPN c) s h
  case help => exact talk_steady.chats (·.handleHELP c) s h
  case etrn => exact talk_steady.chats (·.handleETRN c) s h
  case startTLS => exact conduct_handleSTARTTLS h (by simpa using hphase)
  case auth =>
      apply conduct_handleAUTH hauth
      exact ⟨h, by simpa using hphase, hunauthenticated rfl, hdecoded.auth hverb⟩
  case atrn => exact talk_steady.chats (·.handleATRN c) s h

theorem conduct_dispatch (h : s.facts.Steady cfg tls) (hdecoded : s.Decoded tls c) :
  Conducted cfg tls (dispatch cfg env (.ofSpelling c.verb) c) s
  := by
  rw [Conducted, dispatch, wp_bind, wp_read]
  split
  · exact conduct_answer h
  · exact conduct_answer h
  · exact conduct_answer h
  · next hlegal => exact conduct_handle hauth h hdecoded hlegal

theorem conduct_execute (h : s.facts.Steady cfg tls) (hdecoded : s.Decoded tls c) :
  Conducted cfg tls (execute cfg env c) s
  := by
  have hcount : ({ s with mailAttempts := s.mailAttempts + 1 } : Session φ ω).facts.Steady cfg tls :=
    h
  have hdecoded' : ({ s with mailAttempts := s.mailAttempts + 1 } : Session φ ω).Decoded tls c :=
    ⟨hdecoded.auth, hdecoded.rset⟩
  unfold execute
  rw [Conducted, wp_ite]
  refine ⟨fun _ => ?_, fun _ => conduct_dispatch hauth h hdecoded⟩
  rw [wp_bind, wp_update, wp_bind, wp_read, wp_ite]
  constructor
  · exact fun _ => conduct_answer hcount
  · exact fun _ => conduct_dispatch hauth hcount hdecoded'

omit hauth in
theorem conduct_finishTurn (env : Env φ ω) (action : CommandAction) :
  Conducts cfg tls (finishTurn env action)
  := by
  refine .ite ?_ (.pure _)
  exact (talk_steady.transport _).bind fun _ => .pure _

theorem conduct_turn (h : s.facts.Steady cfg tls) :
  Conducted cfg tls (turn cfg env) s
  := by
  rw [Conducted, turn, wp_bind, wp_outside, wp_ite]
  refine ⟨fun _ => h.toSafe, fun _ => ?_⟩
  rw [wp_bind]
  refine wp_flushBeforeRead (fun w => ?_) fun _ _ => h.toSafe
  rw [wp_bind]
  refine wp_await (fun w => ?_) fun _ _ => h.toSafe
  rw [wp_bind, wp_read, wp_bind, wp_update]
  have hread : ({ s with world := w, feed := (readCommand s.feed).2 } :
      Session φ ω).facts.Steady cfg tls := h
  split
  · exact h
  · rw [wp_bind]
    refine wp_mono (conduct_handleCommandReadError hread) ?_ fun _ _ => id
    exact fun action s' hs' => conduct_finishTurn env action s' hs'
  · next c hc =>
    rw [wp_bind, wp_record, wp_bind]
    refine wp_mono (conduct_execute hauth (h.decoded c) ?_) ?_ fun _ _ => id
    · constructor
      · intro hverb
        rw [journal_snoc, Journal.exchange_step, Exchange.step, if_pos hverb]
      · intro hreset
        rw [journal_snoc]
        simp [Journal.step, hreset]
    · exact fun action s' hs' => conduct_finishTurn env action s' hs'

end Handlers

/-! ### Runs -/

/-- `Session.Close` was called, and nothing after it. -/
def Closed (cfg : Config) (tls : Bool) (s : Session φ ω) : Prop :=
  ∃ before, s.log = before ++ [.close] ∧ (monitor cfg tls).Accepts s.log

/-- The end was interrupted by a panic, maybe before the call of `Session.Close`. -/
def Interrupted (cfg : Config) (tls : Bool) (e : Option (SessionError φ)) (s : Session φ ω) : Prop :=
  e = none ∧ (Closed cfg tls s ∨
    (monitor cfg tls).Accepts s.log ∧ (journal tls s.log).closed = false)

theorem conduct_end (env : Env φ ω) (h : s.facts.Safe cfg tls) (hopen : s.transactionOpen = false)
    (s' : Session φ ω) (hlog : s'.log = s.log) (hstate : s'.state = s.state) :
  wp (do
    (do
      record .close
      notify env.close)
    let _ ← Exec.attempt (transition .close))
    (fun _ => Closed cfg tls) (Interrupted cfg tls) s'
  := by
  have hspool : (journal tls s.log).spool = false := by
    rw [show (journal tls s.log).spool = s.spool.isSome from h.spool, ← Bool.not_eq_true]
    intro hsome
    simp [show s.transactionOpen = true from h.held hsome] at hopen
  have haccepts : (monitor cfg tls).Accepts (s'.log ++ [.close]) := by
    rw [hlog]
    exact h.accepts.snoc ⟨h.opened.trans hopen, hspool, h.unclosed.1⟩
  rw [wp_bind, wp_bind, wp_record]
  refine wp_notify (fun w => ?_) fun w => ⟨rfl, .inl ⟨_, rfl, haccepts⟩⟩
  rw [wp_bind, wp_attempt]
  refine (wp_transition_of_mem ?_).mpr ?_
  · have halive : s.state.phase ≠ .closed := h.alive
    rw [hstate]
    cases hphase : s.state.phase <;> simp [phaseTransitions]
    exact halive hphase
  · exact ⟨_, rfl, haccepts⟩

/-- The end of a session.  Only a panic of the last reset keeps `Session.Close` from being
called. -/
theorem conduct_close (env : Env φ ω) (h : s.facts.Safe cfg tls) :
  wp (close env) (fun _ => Closed cfg tls) (Interrupted cfg tls) s
  := by
  rw [close, wp_bind, lifecycleClose, wp_bind, wp_read,
    if_neg (by simp [show s.closed = false from h.unclosed.2]), wp_bind, wp_update,
    wp_bind, resetIfOpen, wp_bind, wp_read, wp_ite]
  constructor
  · intro hidle
    simp only [Bool.and_eq_true, Bool.not_eq_true'] at hidle
    have hend := conduct_end env h hidle.1 { s with closed := true } rfl rfl
    rwa [wp_bind] at hend
  · intro hidle
    have hopen := isOpen_of_not_idle h.toTraced hidle
    have hreset : (s.facts.resetBy .sessionEnd).Safe cfg tls := by
      apply h.toTraced.reset (by simp [facts, hopen])
      simp [Journal.completing, h.emitting]
    refine wp_lifecycleReset (fun m w => ?_) fun m w =>
      ⟨rfl, .inr ⟨hreset.accepts, hreset.unclosed.1⟩⟩
    have hclosed : ({ s with world := w, manager := m, spool := none, transactionOpen := false,
                             log := s.log ++ s.spoolEvents ++ [.reset .sessionEnd] } :
        Session φ ω).facts.Safe cfg tls := hreset
    have hend := conduct_end env hclosed rfl
      { s with world := w, manager := m, spool := none, transactionOpen := false, closed := true,
               log := s.log ++ s.spoolEvents ++ [.reset .sessionEnd] } rfl rfl
    rwa [wp_bind] at hend

theorem steady_new (manager : SpoolManager) (feed : Feed UInt8 φ) (world : ω) :
  (Session.new cfg manager tls feed world).facts.Steady cfg tls
  := by
  apply Facts.Steady.of_idle
  · exact ⟨⟨(monitor cfg tls).accepts_nil, rfl, rfl, ⟨rfl, rfl⟩, by intros; contradiction, by rintro ⟨⟩⟩, rfl⟩
  · exact ⟨rfl, rfl, rfl, by rintro ⟨⟩⟩
  · rfl
  · constructor
    · simp [facts, new, ProtocolState.new]
    · intros; contradiction
    · intros; contradiction
    · exact fun _ => rfl
    · exact fun _ => rfl
    · exact fun hmem => absurd List.mem_cons_self hmem
  · intros; contradiction

theorem conduct_runLoop (hauth : ∀ mechanism initial w, (env.auth mechanism initial w).Honest none)
    (n : Nat) (h : s.facts.Steady cfg tls) :
  Conducted cfg tls (runLoop cfg env n) s
  := by
  induction n generalizing s with
  | zero => exact h
  | succ n ih =>
    rw [Conducted, runLoop, wp_bind]
    refine wp_mono (conduct_turn hauth h) ?_ fun _ _ => id
    intro on s' hs'
    rw [wp_ite]
    exact ⟨fun _ => ih hs', fun _ => hs'⟩

end Session

end GoSmtp.Server
