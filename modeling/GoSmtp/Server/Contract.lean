import GoSmtp.Server.Conduct
import GoSmtp.Server.History

/-!
# The contract of the server

What the backend can rely on in every run of a session, whatever the client sends, the backend
answers and the transport does: when it is called, in which order, and what state the session is
in.
-/

namespace GoSmtp.Server.Session

variable {φ ω : Type}

/-! ### Runs -/

section Runs

variable {cfg : Config} {env : Env φ ω} {tls : Bool} {s : Session φ ω}
  (hauth : ∀ mechanism initial w, (env.auth mechanism initial w).Honest none)
include hauth

theorem steady_serve (h : s.facts.Steady cfg tls) {n : Nat} (hon : (serve cfg env n s).2 = true) :
  (serve cfg env n s).1.facts.Steady cfg tls
  := by
  have hloop := conduct_runLoop hauth n h
  rw [serve_eq_runLoop] at hon ⊢
  simp only [wp] at hloop
  rcases hx : runLoop cfg env n s with ⟨(_ | _) | e | _, s'⟩ <;> rw [hx] at hloop hon
  · cases hon
  · exact hloop
  · cases hon
  · cases hon

theorem closed_serve (h : s.facts.Steady cfg tls) {n : Nat} (hoff : (serve cfg env n s).2 = false) :
  Closed cfg tls (serve cfg env n s).1 ∨
    (close env (runLoop cfg env n s).2).1 = .panic ∧
    (monitor cfg tls).Accepts (serve cfg env n s).1.log ∧
    (journal tls (serve cfg env n s).1.log).closed = false
  := by
  have hclose {s' : Session φ ω} (h : s'.facts.Safe cfg tls) :
      Closed cfg tls (close env s').2 ∨ (close env s').1 = .panic ∧
        (monitor cfg tls).Accepts (close env s').2.log ∧
        (journal tls (close env s').2.log).closed = false := by
    have hend := conduct_close env h
    simp only [wp] at hend
    rcases hx : close env s' with ⟨_ | e | _, s''⟩ <;> rw [hx] at hend
    · exact .inl hend
    · exact absurd hend.1 (by simp)
    · exact hend.2.imp_right fun haccepts => ⟨rfl, haccepts⟩
  have hloop := conduct_runLoop hauth n h
  rw [serve_eq_runLoop] at hoff ⊢
  simp only [wp] at hloop
  rcases hx : runLoop cfg env n s with ⟨(_ | _) | e | _, s'⟩ <;> rw [hx] at hloop hoff
  · exact hclose hloop.toSafe
  · cases hoff
  · exact hclose hloop
  · exact hclose hloop

theorem accepts_serve (h : s.facts.Steady cfg tls) (n : Nat) :
  (monitor cfg tls).Accepts (serve cfg env n s).1.log
  := by
  cases hon : (serve cfg env n s).2 with
  | true => exact (steady_serve hauth h hon).accepts
  | false =>
    rcases closed_serve hauth h hon with ⟨_, _, haccepts⟩ | ⟨-, haccepts, -⟩
    · exact haccepts
    · exact haccepts

end Runs

variable (cfg : Config) (env : Env φ ω) (b : AuthBackend ω) (manager : SpoolManager) (tls : Bool)
  (feed : Feed UInt8 φ) (world : ω) (n : Nat)

/-- The session of a connection after at most `n` turns, and whether it goes on. -/
abbrev after : Session φ ω × Bool :=
  serve cfg (env.withAuth b) n (Session.new cfg manager tls feed world)

variable {cfg env b manager tls feed world n} in
theorem steady_after (hon : (after cfg env b manager tls feed world n).2 = true) :
  (after cfg env b manager tls feed world n).1.facts.Steady cfg tls
  := steady_serve b.honest_dialog (steady_new manager feed world) hon

theorem accepts_after :
  (monitor cfg tls).Accepts (after cfg env b manager tls feed world n).1.log
  := accepts_serve b.honest_dialog (steady_new manager feed world) n

/-! ### Authentication -/

/-- A session is authenticated exactly if `CommitAuth` was called since the last handshake.  Such
a call is the only one since the handshake; it has a result without failure, which is the one of
the last verification of an exchange that was not decided before; and the reply after it is
235. -/
theorem authentication_after :
  (let r := after cfg env b manager tls feed world n
   (r.2 = true →
     (r.1.state.authenticated = true ↔ Since LogEvent.isCommit LogEvent.isHandshake r.1.log)) ∧
   ∀ before result rest, r.1.log = before ++ .auth (.commit result) :: rest →
     ¬ Since LogEvent.isCommit LogEvent.isHandshake before ∧ result.failure = none ∧
     Concludes result before ∧ Announces rest ∧ (r.2 = true → ∃ e ∈ rest, e.isReply = true))
  := by
  intro r
  have haccepts : (monitor cfg tls).Accepts r.1.log :=
    accepts_after cfg env b manager tls feed world n
  constructor
  · intro hon
    have h : r.1.facts.Steady cfg tls := steady_after hon
    have hcommits : (journal tls r.1.log).commits = if r.1.state.authenticated then 1 else 0 :=
      h.commits
    rw [← commits_journal, hcommits]
    cases r.1.state.authenticated <;> simp
  · intro before result rest hlog
    rw [hlog] at haccepts
    obtain ⟨hexchange, hfailure, hcommits⟩ := haccepts before _ rest rfl
    obtain ⟨start, c, during, hbefore, hverb, hduring, hlast⟩ := started_journal hexchange
    refine ⟨?_, hfailure, ⟨start, c, during, hbefore, hverb, hduring, hlast _ rfl⟩, ?_, ?_⟩
    · rw [← commits_journal]
      exact not_not.mpr hcommits
    · intro mid a post hrest hmid
      rw [hrest, ← List.cons_append, ← List.append_assoc] at haccepts
      have hcommitted := committed_journal (haccepts.of_append) hmid
      exact haccepts _ _ post rfl hcommitted
    · intro hon
      by_contra hnone
      have h : r.1.facts.Steady cfg tls := steady_after hon
      have hsettled : (journal tls r.1.log).exchange ≠ .committed := h.settled
      rw [hlog] at hsettled
      refine hsettled (committed_journal haccepts fun e he => ?_)
      rw [← Bool.not_eq_true]
      exact fun hreply => hnone ⟨e, he, hreply⟩

/-! ### Policy -/

/-- `Session.Mail`, `Session.Rcpt` and `Session.Data` are called under the policy of the server,
and never between a failed chunk and the next RSET; the last two are called inside of a
transaction, and `Session.Data` with recipients. -/
theorem policy_after :
  (let r := after cfg env b manager tls feed world n
   (r.2 = true →
     (r.1.state.tls = true ↔ tls = true ∨ .handshake ∈ r.1.log) ∧
     (r.1.state.authenticated = true
       ↔ Since LogEvent.isAuthenticated LogEvent.isHandshake r.1.log)) ∧
   ∀ before e rest, r.1.log = before ++ e :: rest →
     (e.isTransactionCall = true →
       (cfg.requireTLS = true → tls = true ∨ .handshake ∈ before) ∧
       (cfg.requireAuth = true → Since LogEvent.isAuthenticated LogEvent.isHandshake before) ∧
       ¬ Since LogEvent.isBdatFailed LogEvent.isRSET before) ∧
     (e = .rcptCall → Since LogEvent.isMail LogEvent.isReset before) ∧
     (e.isDataCall = true →
       Since LogEvent.isMail LogEvent.isReset before ∧ Since LogEvent.isRcpt LogEvent.isMail before))
  := by
  intro r
  have haccepts : (monitor cfg tls).Accepts r.1.log :=
    accepts_after cfg env b manager tls feed world n
  refine ⟨fun hon => ?_, fun before e rest hlog => ⟨fun hcall => ?_, ?_, fun hdata => ?_⟩⟩
  · have h : r.1.facts.Steady cfg tls := steady_after hon
    have htls : (journal tls r.1.log).tls = r.1.state.tls := h.secured
    have hauthenticated : (journal tls r.1.log).authenticated = r.1.state.authenticated :=
      h.authenticated
    rw [← htls, ← hauthenticated]
    exact ⟨tls_journal, authenticated_journal⟩
  · have hadmits : (journal tls before).Admits cfg := by
      have hlegal := haccepts before e rest hlog
      cases e with
      | mailCall | rcptCall | dataCall => exact hlegal.1
      | _ => cases hcall
    refine ⟨fun hr => tls_journal.mp (hadmits.tls hr),
      fun hr => authenticated_journal.mp (hadmits.authenticated hr), fun hsince => ?_⟩
    exact Bool.false_ne_true (hadmits.failed.symm.trans (failed_journal.mpr hsince))
  · rintro rfl
    exact opened_journal.mp (haccepts before _ rest hlog).2
  · have hlegal := haccepts before e rest hlog
    cases e with
    | dataCall source => exact ⟨opened_journal.mp hlegal.2.1, recipients_journal.mp hlegal.2.2⟩
    | _ => cases hdata

/-! ### The state -/

/-- Between two commands the phase, the lifecycle, the recipients and the greeting fit together,
and no handler ever asks for a transition that is refused. -/
theorem coherent_after :
  (let r := after cfg env b manager tls feed world n
   (r.2 = true → r.1.facts.Coherent cfg) ∧ ∀ event, .refused event ∉ r.1.log)
  := by
  intro r
  refine ⟨fun hon => (steady_after hon).coherent, fun event hmem => ?_⟩
  obtain ⟨before, rest, hlog⟩ := List.append_of_mem hmem
  exact accepts_after cfg env b manager tls feed world n before _ rest hlog

/-! ### The lifecycle -/

variable {cfg tls} in
theorem Closed.last {s : Session φ ω} (h : Closed cfg tls s) {before rest : List LogEvent}
    (hlog : s.log = before ++ .close :: rest) :
  rest = []
  := by
  obtain ⟨before', hlog', haccepts⟩ := h
  rcases List.eq_nil_or_concat rest with hrest | ⟨rest', e, hrest⟩
  · exact hrest
  · -- Otherwise there is a call of `Session.Close` before the last one.
    rw [hlog', hrest, List.concat_eq_append, ← List.cons_append, ← List.append_assoc] at hlog
    obtain ⟨hbefore, -⟩ := List.append_inj' hlog rfl
    rw [hlog'] at haccepts
    have hclosed : (journal tls before').closed = false := haccepts.last.2.2
    have hmem : .close ∈ before' := by simp [hbefore]
    exact absurd (hclosed.symm.trans (closed_journal.mpr hmem)) Bool.false_ne_true

/-- The calls of `Session.Mail`, `Session.Reset` and `Session.Close` are in order. -/
structure OrderlyCalls (log : List LogEvent) : Prop where
  /-- A MAIL that succeeds is followed by one reset before the next call of `Session.Mail` or of
  `Session.Close`.  The resets of STARTTLS do not count. -/
  once : ∀ before mailbox mid e rest, log = before ++ .mail mailbox :: (mid ++ e :: rest) →
    e = .mailCall ∨ e = .close → .mailCall ∉ mid → mid.countP LogEvent.endsTransaction = 1
  /-- The resets of STARTTLS are the only ones outside of a transaction. -/
  paired : ∀ before reason rest, log = before ++ .reset reason :: rest →
    (Since LogEvent.isMail LogEvent.isReset before ↔ reason ≠ .startTLS)
  /-- Spools are closed before a reset. -/
  spool : ∀ before reason rest, log = before ++ .reset reason :: rest →
    ¬ Since LogEvent.isSpoolOpened LogEvent.isSpoolClosed before
  completed : ∀ before reason rest, log = before ++ .reset reason :: rest →
    (reason = .completed ↔ Completing before)
  /-- `Session.Close` is called once, and is the last call. -/
  last : ∀ before rest, log = before ++ .close :: rest → .close ∉ before ∧ rest = []

theorem orderlyCalls_of_accepts {log : List LogEvent} (h : (monitor cfg tls).Accepts log)
    (hlast : ∀ before rest, log = before ++ .close :: rest → rest = []) :
  OrderlyCalls log
  := by
  constructor
  · intro before mailbox mid e rest hlog he hmid
    have hsplit : log = (before ++ .mail mailbox :: mid) ++ e :: rest := by simp [hlog]
    have hpre : (monitor cfg tls).Accepts (before ++ .mail mailbox :: mid) :=
      (hsplit ▸ h).of_append
    have hidle : (journal tls (before ++ .mail mailbox :: mid)).opened = false := by
      have hlegal := h _ _ _ hsplit
      rcases he with rfl | rfl
      · exact hlegal.2
      · exact hlegal.1
    rw [(reset_once hpre hmid).2, hidle]
    rfl
  · intro before reason rest hlog
    exact opened_journal.symm.trans (h before _ rest hlog).1
  · intro before reason rest hlog hsince
    have hspool := (h before _ rest hlog).2.1
    rw [run_monitor] at hspool
    exact Bool.false_ne_true (hspool.symm.trans (spool_journal.mpr hsince))
  · intro before reason rest hlog
    exact (h before _ rest hlog).2.2.2.trans completing_journal
  · intro before rest hlog
    refine ⟨fun hmem => ?_, hlast before rest hlog⟩
    have hclosed := (h before _ rest hlog).2.2
    rw [run_monitor] at hclosed
    exact Bool.false_ne_true (hclosed.symm.trans (closed_journal.mpr hmem))

/-- The calls of the lifecycle are in order in every run.  A session that is over has called
`Session.Close`, unless a callback panicked while it was closed. -/
theorem lifecycle_after :
  (let r := after cfg env b manager tls feed world n
   OrderlyCalls r.1.log ∧ (r.2 = true → .close ∉ r.1.log) ∧
   (r.2 = false →
     (close (env.withAuth b)
       (runLoop cfg (env.withAuth b) n (Session.new cfg manager tls feed world)).2).1 ≠ .panic →
     .close ∈ r.1.log))
  := by
  intro r
  have haccepts : (monitor cfg tls).Accepts r.1.log :=
    accepts_after cfg env b manager tls feed world n
  have hon (hon : r.2 = true) : .close ∉ r.1.log := by
    have h : r.1.facts.Steady cfg tls := steady_after hon
    have hunclosed : (journal tls r.1.log).closed = false := h.unclosed.1
    rw [← closed_journal, hunclosed]
    exact Bool.false_ne_true
  have hoff (hoff : r.2 = false) : Closed cfg tls r.1 ∨
      (close (env.withAuth b)
        (runLoop cfg (env.withAuth b) n (Session.new cfg manager tls feed world)).2).1 = .panic ∧
      (monitor cfg tls).Accepts r.1.log ∧ (journal tls r.1.log).closed = false :=
    closed_serve b.honest_dialog (steady_new manager feed world) hoff
  refine ⟨orderlyCalls_of_accepts cfg tls haccepts fun before rest hlog => ?_, hon, ?_⟩
  · have hmem : .close ∈ r.1.log := by simp [hlog]
    cases hgoes : r.2 with
    | true => exact absurd hmem (hon hgoes)
    | false =>
      rcases hoff hgoes with hclosed | ⟨-, -, hunclosed⟩
      · exact hclosed.last hlog
      · exact absurd (hunclosed.symm.trans (closed_journal.mpr hmem)) Bool.false_ne_true
  · intro hover hcalm
    rcases hoff hover with ⟨before, hlog, -⟩ | ⟨hpanic, -⟩
    · rw [hlog]
      exact List.mem_append_right _ (List.mem_singleton_self _)
    · exact absurd hpanic hcalm

end GoSmtp.Server.Session
