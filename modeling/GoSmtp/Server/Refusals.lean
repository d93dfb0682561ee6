import GoSmtp.Server.Encodable

/-!
# Refused envelopes

A backend that refuses an envelope returns an error of its own, which becomes the reply.  Not every
error makes a reply that can be encoded, and not every one makes a refusal.
-/

namespace GoSmtp.Server

variable {φ ω : Type}
variable {e : BackendError} {action : CommandAction} {path : Path} {lines : List Bytes}
variable {cfg : Config} {c : Command} {r : WireReply}

/-! ### Errors of the backend -/

/-- An error that can be told to the peer as a refusal: it has no reply code at all, or a code of
a refusal, a text in one line, and an enhanced code that is none, is repaired, or is valid. -/
def BackendError.Presentable : BackendError → Prop
  | .other => True
  | .protocol e =>
    e.code < 200 ∨
      400 ≤ e.code ∧ validReplyCode e.code = true ∧ (∀ b ∈ e.text, breaksLine b = false) ∧
      (e.enhanced.isZero = true ∨ e.enhanced.cls ≠ e.code.tdiv 100 ∨
        0 ≤ e.enhanced.subject ∧ e.enhanced.subject ≤ 999 ∧
        0 ≤ e.enhanced.detail ∧ e.enhanced.detail ≤ 999)

instance : DecidablePred BackendError.Presentable
  | .other => inferInstanceAs (Decidable True)
  | .protocol _ => inferInstanceAs (Decidable (_ ∨ _))

/-- The reply to an envelope that the backend refuses. -/
def envelopeReply (e : BackendError) : WireReply :=
  Session.errorReply e 451 (ascii "Temporary server failure")

theorem presentable_iff :
  e.Presentable ↔ (envelopeReply e).encodable = true ∧
    400 ≤ (envelopeReply e).code ∧ (envelopeReply e).code < 600
  := by
  have hfallback : ∀ b ∈ ascii "Temporary server failure", breaksLine b = false := by decide
  cases e with
  | other => decide
  | protocol e =>
    by_cases hcode : e.code < 200
    · have hreply : envelopeReply (.protocol e) = envelopeReply .other := by
        simp [envelopeReply, Session.errorReply, Int.not_le.mpr hcode]
      rw [hreply]
      simp only [BackendError.Presentable, hcode, true_or, true_iff]
      decide
    · have hreply : envelopeReply (.protocol e) =
          { code := e.code, enhanced := (e.enhanced.normalize e.code).1,
            text := if e.text.isEmpty then ascii "Temporary server failure" else e.text } := by
        rw [envelopeReply, Session.errorReply, if_pos (Int.not_lt.mp hcode)]
      have htext : (∀ b ∈ if e.text.isEmpty then ascii "Temporary server failure" else e.text,
          breaksLine b = false) ↔ ∀ b ∈ e.text, breaksLine b = false := by
        split
        · next hempty =>
          rw [List.isEmpty_iff.mp hempty]
          exact iff_of_true hfallback (List.forall_mem_nil _)
        · rfl
      rw [hreply, WireReply.encodable_iff rfl]
      simp only [List.isEmpty_nil, if_true, List.mem_singleton, forall_eq, htext,
        BackendError.Presentable, hcode, false_or]
      by_cases hrefuses : 400 ≤ e.code ∧ validReplyCode e.code = true
      · obtain ⟨hlow, hvalid⟩ := hrefuses
        obtain ⟨hclass, hhigh⟩ : e.code.tdiv 100 ∈ [4, 5] ∧ e.code < 600 := by
          rw [Int.tdiv_eq_ediv_of_nonneg (by omega)]
          simp only [validReplyCode, Bool.and_eq_true, decide_eq_true_eq] at hvalid
          simp only [List.mem_cons, List.not_mem_nil, or_false]
          omega
        rw [normalize_valid (List.mem_cons_of_mem 2 hclass)]
        simp [hlow, hvalid, hhigh]
      · constructor
        · exact fun h => absurd ⟨h.1, h.2.1⟩ hrefuses
        · exact fun h => absurd ⟨h.2.1, h.1.1⟩ hrefuses

/-! ### Decisions -/

/-- The backend decides about an envelope: it accepts it, and may add lines to the reply to RCPT, or
returns an error. -/
abbrev Decision := Except BackendError (List Bytes)

def Decision.mail : Decision → Outcome BackendError Unit
  | .ok _ => .ok ()
  | .error e => .err e

def Decision.rcpt : Decision → Outcome BackendError (List Bytes)
  | .ok lines => .ok lines
  | .error e => .err e

/-- The world in which the next envelope is decided as given. -/
def Env.deciding (env : Env φ ω) (d : Decision) : Env φ ω :=
  { env with
    mail := fun mailbox params w => (Decision.mail d, (env.mail mailbox params w).2)
    rcpt := fun mailbox w => (Decision.rcpt d, (env.rcpt mailbox w).2) }

/-! ### What is known of an envelope -/

/-- A call of `Session.Mail` or `Session.Rcpt`. -/
def LogEvent.asks : LogEvent → Bool
  | .mailCall | .rcptCall => true
  | _ => false

/-- A transaction that was opened. -/
def LogEvent.opens : LogEvent → Bool
  | .mail _ => true
  | _ => false

/-- An event that says nothing about an envelope. -/
def LogEvent.aside : LogEvent → Bool
  | .reply _ | .mailCall | .rcptCall | .mail _ => false
  | _ => true

/-- The commands about an envelope. -/
inductive Envelope where
  | mail
  | rcpt
  deriving DecidableEq, Repr

def Envelope.verb : Envelope → Verb
  | .mail => .mail
  | .rcpt => .rcpt

namespace Session

/-- How often the backend was asked about an envelope. -/
def asked (s : Session φ ω) : Nat := s.log.countP LogEvent.asks

/-- How many transactions were opened. -/
def opened (s : Session φ ω) : Nat := s.log.countP LogEvent.opens

/-- What the replies have told, and how often the backend was asked. -/
def report (s : Session φ ω) : List WireReply × Nat := (s.said, s.asked)

/-- The command has recorded a transaction, or a recipient. -/
def Records (kind : Envelope) (s s' : Session φ ω) : Prop :=
  match kind with
  | .mail => s'.transactionOpen = true ∧ s.opened < s'.opened
  | .rcpt => s'.recipients ≠ s.recipients

/-- The command leaves no transaction, or the recipients as they were. -/
def Discards (kind : Envelope) (s s' : Session φ ω) : Prop :=
  match kind with
  | .mail => s'.transactionOpen = false
  | .rcpt => s'.recipients = s.recipients

/-- Among the replies since `s` is one with a 2yz code. -/
def Affirms (s s' : Session φ ω) : Prop :=
  ∃ rs, s'.said = s.said ++ rs ∧ ∃ r ∈ rs, 200 ≤ r.code ∧ r.code < 300

/-- What becomes of a command about an envelope, if the backend decides as given.  `on` says that
the session goes on. -/
structure Treated (kind : Envelope) (d : Decision) (s : Session φ ω) (on : Prop) (s' : Session φ ω) :
    Prop where
  refused : ∀ e, d = .error e → s.asked < s'.asked → Discards kind s s' ∧
    ((envelopeReply e).encodable = true → on ∧ s'.said = s.said ++ [envelopeReply e]) ∧
    ((envelopeReply e).encodable = false → s'.said = s.said)
  told : (∀ e, d = .error e → s.asked < s'.asked → e.Presentable) →
    (Affirms s s' ↔ Records kind s s')

/-- However the call ends, the command is treated. -/
def Treats (kind : Envelope) (d : Decision) (s : Session φ ω) (m : Call φ ω CommandAction)
    (s₁ : Session φ ω) : Prop :=
  wp m
    (fun a s' => Treated kind d s (a.synchronizationPoint = false ∧ a.closeConnection = false) s')
    (fun _ s' => Treated kind d s False s') s₁

/-- The world in which every envelope is decided as given. -/
structure Decides (env : Env φ ω) (d : Decision) : Prop where
  mail : ∀ mailbox params w, (env.mail mailbox params w).1 = Decision.mail d
  rcpt : ∀ mailbox w, (env.rcpt mailbox w).1 = Decision.rcpt d

/-- Nothing was said about the command yet, and the backend has not refused it. -/
structure Pending (kind : Envelope) (d : Decision) (s s' : Session φ ω) : Prop where
  said : s'.said = s.said
  asked : ∀ e, d = .error e → s'.asked = s.asked
  unmarked : match kind with
    | .mail => s'.opened = s.opened
    | .rcpt => s'.recipients = s.recipients

variable {kind : Envelope} {d : Decision} {env : Env φ ω} {s s₁ s' : Session φ ω} {on : Prop}

theorem asked_reply (s : Session φ ω) (r : WireReply) (w : ω) :
  asked { s with world := w, log := s.log ++ [.reply r] } = s.asked
  := by
  simp [asked, LogEvent.asks]

theorem opened_reply (s : Session φ ω) (r : WireReply) (w : ω) :
  opened { s with world := w, log := s.log ++ [.reply r] } = s.opened
  := by
  simp [opened, LogEvent.opens]

theorem not_affirms (h : s'.said = s.said) :
  ¬ Affirms s s'
  := by
  rintro ⟨rs, hrs, r, hr, -⟩
  rw [h] at hrs
  rw [List.self_eq_append_right.mp hrs] at hr
  exact List.not_mem_nil hr

theorem affirms_iff (h : s'.said = s.said ++ [r]) :
  Affirms s s' ↔ 200 ≤ r.code ∧ r.code < 300
  := by
  constructor
  · rintro ⟨rs, hrs, r', hr', hcode⟩
    rw [h] at hrs
    rw [← List.append_cancel_left hrs] at hr'
    obtain rfl := List.mem_singleton.mp hr'
    exact hcode
  · exact fun hcode => ⟨[r], h, r, List.mem_singleton_self r, hcode⟩

theorem Pending.not_records (h : Pending kind d s s') :
  ¬ Records kind s s'
  := by
  have hmark := h.unmarked
  cases kind with
  | mail => exact fun hrecords => Nat.ne_of_gt hrecords.2 hmark
  | rcpt => exact fun hrecords => hrecords hmark

theorem Pending.extend (h : Pending kind d s s₁) {news : List LogEvent}
    (hlog : s'.log = s₁.log ++ news) (hquiet : ∀ e ∈ news, e.aside = true)
    (hrecipients : kind = .mail ∨ s'.recipients = s₁.recipients) :
  Pending kind d s s'
  := by
  have hreplies : replies news = [] := by
    apply List.filterMap_eq_nil_iff.mpr
    intro e he
    have hq := hquiet e he
    cases e <;> first | rfl | cases hq
  have hcount {p : LogEvent → Bool} (hp : ∀ e, e.aside = true → p e = false) :
      s'.log.countP p = s₁.log.countP p := by
    have hzero : news.countP p = 0 := by
      rw [List.countP_eq_zero]
      exact fun e he => by simp [hp e (hquiet e he)]
    rw [hlog, List.countP_append, hzero, Nat.add_zero]
  constructor
  · rw [← h.said, Session.said, hlog, replies_append, hreplies, List.append_nil]
    rfl
  · intro e hd
    refine Eq.trans (hcount fun e he => ?_) (h.asked e hd)
    cases e <;> first | rfl | cases he
  · have hmark := h.unmarked
    rcases hrecipients with rfl | hrecipients
    · refine Eq.trans (hcount fun e he => ?_) hmark
      cases e <;> first | rfl | cases he
    · cases kind with
      | mail =>
        refine Eq.trans (hcount fun e he => ?_) hmark
        cases e <;> first | rfl | cases he
      | rcpt => exact hrecipients.trans hmark

theorem Pending.of_eq (h : Pending kind d s s₁) (hlog : s'.log = s₁.log)
    (hrecipients : s'.recipients = s₁.recipients) :
  Pending kind d s s'
  := h.extend (hlog.trans (List.append_nil _).symm) (List.forall_mem_nil _) (.inr hrecipients)

theorem Pending.treated (h : Pending kind d s s') :
  Treated kind d s on s'
  where
  refused e hd hasked := absurd hasked (by rw [h.asked e hd]; exact Nat.lt_irrefl _)
  told _ := iff_of_false (not_affirms h.said) h.not_records

theorem Pending.reply (h : Pending kind d s s₁) (hr : 400 ≤ r.code) (w : ω) :
  Treated kind d s on { s₁ with world := w, log := s₁.log ++ [.reply r] }
  := by
  have hsaid := said_reply s₁ r w
  rw [h.said] at hsaid
  constructor
  · intro e hd hlt
    rw [asked_reply, h.asked e hd] at hlt
    exact absurd hlt (Nat.lt_irrefl _)
  · intro _
    rw [affirms_iff hsaid]
    refine iff_of_false (by omega) fun hrecords => h.not_records ?_
    cases kind with
    | mail => exact ⟨hrecords.1, opened_reply s₁ r w ▸ hrecords.2⟩
    | rcpt => exact hrecords

theorem wp_refuse (h : Pending kind d s s₁) (hr : 400 ≤ r.code) :
  Treats kind d s (do writeReply env r; pure action) s₁
  := by
  rw [Treats, wp_bind]
  cases htakes : env.takes r s₁.world with
  | true =>
    simp only [wp, writeReply_takes htakes]
    exact h.reply hr _
  | false =>
    obtain ⟨e, w, hfails⟩ := writeReply_fails htakes
    simp only [wp, hfails]
    exact Pending.treated (h.of_eq rfl rfl)

theorem Discards.not_records (h : Discards kind s s') :
  ¬ Records kind s s'
  := by
  cases kind with
  | mail => exact fun hrecords => Bool.false_ne_true (h.symm.trans hrecords.1)
  | rcpt => exact fun hrecords => hrecords h

theorem Discards.of_eq (h : Discards kind s s₁) (hopen : s'.transactionOpen = s₁.transactionOpen)
    (hrecipients : s'.recipients = s₁.recipients) :
  Discards kind s s'
  := by
  cases kind with
  | mail => exact hopen.trans h
  | rcpt => exact hrecipients.trans h

theorem wp_declined (kind : Envelope) (henv : env.Encodes) (hd : d = .error e)
    (hsaid : s₁.said = s.said) (hasked : s.asked < s₁.asked) (hdiscards : Discards kind s s₁) :
  Treats kind d s (backendReply env kind.verb e) s₁
  := by
  have hsync : synchronizationPoint kind.verb = false := by cases kind <;> rfl
  have htakes := henv (envelopeReply e) s₁.world
  rw [Treats, backendReply, wp_bind]
  change wp (writeReply env (envelopeReply e)) _ _ s₁
  subst hd
  cases hencodes : (envelopeReply e).encodable with
  | true =>
    rw [hencodes] at htakes
    simp only [wp, writeReply_takes htakes]
    have hreply := said_reply s₁ (envelopeReply e) (env.written (envelopeReply e) s₁.world)
    rw [hsaid] at hreply
    constructor
    · rintro _ ⟨⟩ _
      refine ⟨hdiscards.of_eq rfl rfl, fun _ => ⟨⟨hsync, rfl⟩, hreply⟩, ?_⟩
      simp [hencodes]
    · intro hpresentable
      obtain ⟨-, hcode, -⟩ := presentable_iff.mp (hpresentable e rfl (by rwa [asked_reply]))
      rw [affirms_iff hreply]
      exact iff_of_false (by omega) (Discards.not_records (by exact hdiscards.of_eq rfl rfl))
  | false =>
    rw [hencodes] at htakes
    obtain ⟨e', w, hfails⟩ := writeReply_fails htakes
    simp only [wp, hfails]
    constructor
    · rintro _ ⟨⟩ _
      refine ⟨hdiscards.of_eq rfl rfl, ?_, fun _ => hsaid⟩
      simp [hencodes]
    · exact fun _ => iff_of_false (not_affirms hsaid)
        (Discards.not_records (by exact hdiscards.of_eq rfl rfl))

theorem wp_abandon (h : Pending .mail d s s₁)
    (hopen : s₁.transactionOpen = true ↔ s₁.state.phase = .mail ∨ s₁.state.phase = .recipients)
    (hphase : s₁.state.phase ∈ [.ready, .mail, .recipients]) {Q : Unit → Session φ ω → Prop}
    (hQ : ∀ s', Pending .mail d s s' → s'.transactionOpen = false → s'.state.phase = .ready →
      Q () s') :
  wp (abandonTransaction env) Q (fun _ s' => Treated .mail d s False s') s₁
  := by
  rw [abandonTransaction, wp_bind, wp_read, wp_ite]
  constructor
  · intro hon
    have hmail := hopen.mp hon
    have hreset {s' : Session φ ω} (hlog : s'.log = (s₁.afterReset .newMail).log) :
        Pending .mail d s s' := by
      refine h.extend (hlog.trans (List.append_assoc _ _ _)) (fun e he => ?_) (.inl rfl)
      rcases List.mem_append.mp he with hspool | hreset
      · rw [spoolEvents] at hspool
        split at hspool <;> simp_all [LogEvent.aside]
      · rw [List.mem_singleton.mp hreset]
        rfl
    rw [wp_bind, wp_lifecycleReset_iff]
    refine ⟨fun _ => ?_, fun _ => Pending.treated (by exact hreset rfl)⟩
    rw [wp_bind]
    refine (wp_transition_of_mem ?_).mpr ?_
    · rcases hmail with heq | heq <;> simp [afterReset, heq, phaseTransitions]
    · exact hQ _ (hreset rfl) rfl rfl
  · intro hoff
    have hnot := mt hopen.mpr hoff
    apply hQ _ h (by simpa using hoff)
    simpa [not_or.mp hnot] using hphase

theorem wp_granted (henv : env.Encodes) (hd : ∀ e, d ≠ .error e) (hsaid : s₁.said = s.said)
    (hrecords : ∀ s', s'.transactionOpen = s₁.transactionOpen → s₁.opened = s'.opened →
      s'.recipients = s₁.recipients → Records kind s s')
    (hencodes : r.encodable = true) (hcode : r.code = 250) :
  Treats kind d s (do writeReply env r; pure action) s₁
  := by
  have htakes := henv r s₁.world
  rw [hencodes] at htakes
  have hreply := said_reply s₁ r (env.written r s₁.world)
  rw [hsaid] at hreply
  rw [Treats, wp_bind]
  simp only [wp, writeReply_takes htakes]
  constructor
  · exact fun e he => absurd he (hd e)
  · intro _
    rw [affirms_iff hreply]
    exact iff_of_true (by omega) (hrecords _ rfl (opened_reply s₁ r _).symm rfl)

theorem wp_acceptMail_treated {params : MailParams}
    (henv : env.Encodes) (hdecides : Decides env d) (h : Pending .mail d s s₁)
    (hopen : s₁.transactionOpen = true ↔ s₁.state.phase = .mail ∨ s₁.state.phase = .recipients)
    (hphase : s₁.state.phase ∈ [.ready, .mail, .recipients]) :
  Treats .mail d s (handleMail.accept cfg env path params) s₁
  := by
  rw [Treats, handleMail.accept, wp_bind]
  apply wp_abandon h hopen hphase
  intro s₂ h₂ hoff hready
  rw [wp_ite]
  refine ⟨fun _ => wp_refuse h₂ (by decide), fun _ => ?_⟩
  rw [wp_bind, lifecycleMail, wp_bind, resetTransaction, wp_bind, wp_read,
    if_neg (by simp [hoff]), wp_pure, wp_bind, wp_record, wp_bind]
  cases d with
  | error e =>
    refine (wp_callback_err (hdecides.mail _ _ _)).mpr ?_
    have hne : ¬ (s₂.state.phase = .mail ∨ s₂.state.phase = .recipients) := by simp [hready]
    simp only [wp_bind, wp_pure, wp_read, if_neg hne, clearTransaction,
      wp_update]
    apply wp_declined .mail henv rfl
    · simpa [said, replies] using h₂.said
    · rw [← h₂.asked e rfl]
      simp [asked, LogEvent.asks]
    · exact hoff
  | ok lines =>
    refine (wp_callback_ok (hdecides.mail _ _ _)).mpr ?_
    simp only [wp_bind, wp_pure, record, wp_update]
    refine (wp_transition_of_mem ?_).mpr ?_
    · simp [hready, phaseTransitions]
    · refine wp_granted henv (fun _ => by simp) ?_ ?_ (by decide) rfl
      · simpa [said, replies] using h₂.said
      · intro s' hopened hcount _
        refine ⟨hopened, ?_⟩
        have hmark : s₂.opened = s.opened := h₂.unmarked
        rw [← hcount, ← hmark]
        simp [opened, LogEvent.opens]

theorem wp_handleMail_treated (henv : env.Encodes)
    (hdecides : Decides env d) (h : Pending .mail d s s₁)
    (hopen : s₁.transactionOpen = true ↔ s₁.state.phase = .mail ∨ s₁.state.phase = .recipients)
    (hphase : s₁.state.phase ∈ [.ready, .mail, .recipients]) :
  Treats .mail d s (handleMail cfg env c) s₁
  := by
  rw [Treats, handleMail, wp_bind, wp_read, wp_ite]
  refine ⟨fun _ => wp_refuse h (by simp), fun _ => ?_⟩
  rw [wp_ite]
  refine ⟨fun _ => wp_refuse h (by simp), fun _ => ?_⟩
  split
  · exact wp_refuse h (by simp)
  · split
    · exact wp_refuse h (by simp)
    · split
      · exact wp_refuse h (by simp)
      · rw [wp_ite]
        refine ⟨fun _ => wp_refuse h (by simp), fun _ => ?_⟩
        exact wp_acceptMail_treated henv hdecides h hopen hphase

theorem encodable_successLines (h : validSuccessLines lines = true) :
  ({ code := 250, lines := ascii "Recipient OK" :: lines } : WireReply).encodable = true
  := by
  rw [WireReply.encodable_iff rfl]
  refine ⟨rfl, ?_, .inl rfl⟩
  intro line hline b hb
  rcases List.mem_cons.mp hline with rfl | hline
  · revert b
    decide
  · have hall := List.all_eq_true.mp h line hline
    simp only [Bool.and_eq_true, Bool.not_eq_true', List.any_eq_false] at hall
    simpa [breaksLine] using hall.2 b hb

theorem wp_acceptRcpt_treated (henv : env.Encodes) (hvalid : validSuccessLines lines = true)
    (hsaid : s₁.said = s.said) (hrecipients : s₁.recipients = s.recipients)
    (hphase : s₁.state.phase ∈ [.mail, .recipients]) :
  Treats .rcpt (.ok lines) s (handleRcpt.accept env path lines) s₁
  := by
  have hreply {s₂ : Session φ ω} (hsaid₂ : s₂.said = s.said)
      (hrecipients₂ : s₂.recipients = s.recipients ++ [path.mailbox]) :
      Treats .rcpt (.ok lines) s (do
        if lines.isEmpty then
          writeReply env { code := 250, enhanced := ⟨2, 1, 5, []⟩, text := ascii "Recipient OK" }
        else writeReply env { code := 250, lines := ascii "Recipient OK" :: lines }
        pure {}) s₂ := by
    have hrecords (s' : Session φ ω) (h' : s'.recipients = s₂.recipients) :
        Records .rcpt s s' := by
      change s'.recipients ≠ s.recipients
      rw [h', hrecipients₂]
      simp
    rw [Treats, wp_ite]
    constructor
    · intro _
      exact wp_granted henv (fun _ => by simp) hsaid₂ (fun s' _ _ => hrecords s') (by decide) rfl
    · intro _
      exact wp_granted henv (fun _ => by simp) hsaid₂ (fun s' _ _ => hrecords s')
        (encodable_successLines hvalid) rfl
  rw [Treats, handleRcpt.accept, wp_bind, wp_update, wp_bind, wp_record, wp_bind,
    wp_read, wp_ite]
  constructor
  · intro _
    rw [wp_bind]
    refine (wp_transition_of_mem (by exact hphase)).mpr ?_
    apply hreply
    · simpa [said, replies] using hsaid
    · exact congrArg (· ++ [path.mailbox]) hrecipients
  · intro _
    apply hreply
    · simpa [said, replies] using hsaid
    · exact congrArg (· ++ [path.mailbox]) hrecipients

theorem wp_handleRcpt_treated (henv : env.Encodes) (hdecides : Decides env d)
    (h : Pending .rcpt d s s₁) (hphase : s₁.state.phase ∈ [.mail, .recipients]) :
  Treats .rcpt d s (handleRcpt cfg env c) s₁
  := by
  rw [Treats, handleRcpt, wp_bind, wp_read]
  split
  · exact wp_refuse h (by simp)
  · split
    · exact wp_refuse h (by simp)
    · rw [wp_ite]
      refine ⟨fun _ => wp_refuse h (by simp), fun _ => ?_⟩
      split
      · exact wp_refuse h (by simp)
      · rw [wp_bind, wp_record, wp_bind]
        cases d with
        | error e =>
          refine (wp_callback_err (hdecides.rcpt _ _)).mpr ?_
          apply wp_declined .rcpt henv rfl
          · simpa [said, replies] using h.said
          · rw [← h.asked e rfl]
            simp [asked, LogEvent.asks]
          · exact h.unmarked
        | ok lines =>
          refine (wp_callback_ok (hdecides.rcpt _ _)).mpr ?_
          simp only [wp_ite]
          constructor
          · intro hvalid
            apply wp_acceptRcpt_treated henv hvalid
            · simpa [said, replies] using h.said
            · exact h.unmarked
            · exact hphase
          · intro _
            refine wp_refuse (d := .ok lines) ⟨?_, (by rintro _ ⟨⟩), h.unmarked⟩ (by decide)
            simpa [said, replies] using h.said

/-! ### Turns -/

theorem Treated.of_eq (h : Treated kind d s on s₁) {on' : Prop} (hon : on → on')
    (hlog : s'.log = s₁.log) (hopen : s'.transactionOpen = s₁.transactionOpen)
    (hrecipients : s'.recipients = s₁.recipients) :
  Treated kind d s on' s'
  := by
  have hsaid : s'.said = s₁.said := congrArg replies hlog
  have hasked : s'.asked = s₁.asked := congrArg (List.countP LogEvent.asks) hlog
  have hopened : s'.opened = s₁.opened := congrArg (List.countP LogEvent.opens) hlog
  constructor
  · intro e hd hlt
    obtain ⟨hdiscards, hok, hno⟩ := h.refused e hd (hasked ▸ hlt)
    rw [hsaid]
    exact ⟨hdiscards.of_eq hopen hrecipients, fun he => ⟨hon (hok he).1, (hok he).2⟩, hno⟩
  · intro hpresentable
    have htold := h.told (hasked ▸ hpresentable)
    rw [Affirms, hsaid]
    refine htold.trans ?_
    cases kind with
    | mail => rw [Records, Records, hopen, hopened]
    | rcpt => rw [Records, Records, hrecipients]

theorem Treats.obey (h : Treats kind d s (execute cfg env c) s₁) :
  wp (obey cfg env c) (fun goes s' => Treated kind d s (goes = true) s')
    (fun _ s' => Treated kind d s False s') s₁
  := by
  rw [Session.obey, wp_bind]
  refine wp_mono h (fun a s₂ h₂ => ?_) fun _ _ => id
  rw [finishTurn, wp_ite]
  constructor
  · intro hsync
    rw [wp_bind]
    have hnot : ¬ (a.synchronizationPoint = false ∧ a.closeConnection = false) := by
      rintro ⟨hs, hc⟩
      simp [hs, hc] at hsync
    exact wp_transport (fun _ => h₂.of_eq (fun hon => absurd hon hnot) rfl rfl rfl)
      fun _ _ => h₂.of_eq hnot rfl rfl rfl
  · intro _
    refine h₂.of_eq (fun hon => ?_) rfl rfl rfl
    rw [hon.2]
    rfl

theorem treats_dispatch (henv : env.Encodes) (hdecides : Decides env d) (h : Pending kind d s s₁)
    (hopen : s₁.transactionOpen = true ↔ s₁.state.phase = .mail ∨ s₁.state.phase = .recipients) :
  Treats kind d s (dispatch cfg env kind.verb c) s₁
  := by
  rw [Treats, dispatch, wp_bind, wp_read]
  split
  · exact wp_refuse h (by simp)
  · exact wp_refuse h (by simp)
  · exact wp_refuse h (by simp)
  · next hlegal =>
    obtain ⟨rule, hrule, hphase, -⟩ := ProtocolState.legality_allowed hlegal
    cases kind with
    | mail =>
      cases hrule
      exact wp_handleMail_treated henv hdecides h hopen hphase
    | rcpt =>
      cases hrule
      exact wp_handleRcpt_treated henv hdecides h hphase

theorem treats_execute (henv : env.Encodes) (hdecides : Decides env d)
    (hverb : Verb.ofSpelling c.verb = kind.verb) (h : Pending kind d s s₁)
    (hopen : s₁.transactionOpen = true ↔ s₁.state.phase = .mail ∨ s₁.state.phase = .recipients) :
  Treats kind d s (execute cfg env c) s₁
  := by
  have hcounted : Pending kind d s { s₁ with mailAttempts := s₁.mailAttempts + 1 } :=
    h.of_eq rfl rfl
  simp only [Treats, execute, hverb]
  rw [wp_ite]
  refine ⟨fun _ => ?_, fun _ => treats_dispatch henv hdecides h hopen⟩
  rw [wp_bind, wp_update, wp_bind, wp_read, wp_ite]
  refine ⟨fun _ => wp_refuse hcounted (by simp), fun _ => ?_⟩
  exact treats_dispatch henv hdecides hcounted hopen

theorem treated_turn {rest : Feed UInt8 φ} (henv : env.Encodes) (hdecides : Decides env d)
    (hread : readCommand s.feed = (.ok c, rest)) (hverb : Verb.ofSpelling c.verb = kind.verb)
    (hopen : s.transactionOpen = true ↔ s.state.phase = .mail ∨ s.state.phase = .recipients) :
  Treated kind d s ((turn cfg env s).1 = .ok true) (turn cfg env s).2
  := by
  have hself : Pending kind d s s := ⟨rfl, fun _ _ => rfl, by cases kind <;> rfl⟩
  have hreceiving : Pending kind d s (s.receiving env c rest) :=
    hself.extend rfl (by simp [LogEvent.aside]) (.inr rfl)
  have hturn : wp (turn cfg env) (fun goes s' => Treated kind d s (goes = true) s')
      (fun _ s' => Treated kind d s False s') s := by
    refine wp_turn_command hread (fun _ _ => Pending.treated (by exact hself.of_eq rfl rfl)) ?_
    exact (treats_execute henv hdecides hverb hreceiving hopen).obey
  rcases hx : turn cfg env s with ⟨goes | e | _, s'⟩ <;> simp only [wp, hx] at hturn
  · exact hturn.of_eq (fun h => by rw [h]) rfl rfl rfl
  · exact hturn.of_eq False.elim rfl rfl rfl
  · exact hturn.of_eq False.elim rfl rfl rfl

/-- An envelope that the backend refuses is answered with one reply, a refusal, and leaves no
trace, and MAIL and RCPT are answered with a 2yz code exactly if they are recorded, if and only if
the error that the backend returns can be presented. -/
theorem declined_iff_presentable (cfg : Config) (env : Env φ ω) (b : AuthBackend ω)
    (manager : SpoolManager) (tls : Bool) (feed : Feed UInt8 φ) (world : ω) (k : Nat)
    (henv : env.Encodes) (hon : (after cfg env b manager tls feed world k).2 = true)
    (kind : Envelope) (c : Command) (rest : Feed UInt8 φ)
    (hread : readCommand (after cfg env b manager tls feed world k).1.feed = (.ok c, rest))
    (hverb : Verb.ofSpelling c.verb = kind.verb) (d : Decision) :
  let s := (after cfg env b manager tls feed world k).1
  let x := turn cfg ((env.deciding d).withAuth b) s
  (∀ e, d = .error e → s.asked < x.2.asked →
      (∃ r, x.2.said = s.said ++ [r] ∧ 400 ≤ r.code ∧ r.code < 600) ∧
      x.1 = .ok true ∧ Discards kind s x.2) ∧
    (Affirms s x.2 ↔ Records kind s x.2)
  ↔ ∀ e, d = .error e → s.asked < x.2.asked → e.Presentable
  := by
  intro s x
  have hdecides : Decides ((env.deciding d).withAuth b) d := ⟨fun _ _ _ => rfl, fun _ _ => rfl⟩
  have hencodes : ((env.deciding d).withAuth b).Encodes := henv
  have hopen := (steady_after hon).coherent.opened
  have htreated : Treated kind d s (x.1 = .ok true) x.2 :=
    treated_turn hencodes hdecides hread hverb hopen
  constructor
  · rintro ⟨hdeclined, -⟩ e hd hasked
    obtain ⟨⟨r, hr, hcode⟩, -⟩ := hdeclined e hd hasked
    obtain ⟨-, hok, hno⟩ := htreated.refused e hd hasked
    rw [presentable_iff]
    cases hencodable : (envelopeReply e).encodable with
    | true =>
      have hsaid := (hok hencodable).2
      rw [hr] at hsaid
      obtain rfl := List.singleton_inj.mp (List.append_cancel_left hsaid)
      exact ⟨rfl, hcode⟩
    | false => simp [hno hencodable] at hr
  · intro hpresentable
    refine ⟨fun e hd hasked => ?_, htreated.told hpresentable⟩
    obtain ⟨hencodable, hcode⟩ := presentable_iff.mp (hpresentable e hd hasked)
    obtain ⟨hdiscards, hok, -⟩ := htreated.refused e hd hasked
    obtain ⟨hgoes, hsaid⟩ := hok hencodable
    exact ⟨⟨_, hsaid, hcode⟩, hgoes, hdiscards⟩

/-- What a peer sends up to its first recipient. -/
def opening : Feed UInt8 Unit :=
  Feed.items (ascii "EHLO a" ++ crlf ++ ascii "MAIL FROM:<>" ++ crlf ++ ascii "RCPT TO:<c>" ++ crlf)

/-- The session before RCPT. -/
def enveloped : Session Unit Unit × Bool :=
  after (.small 7 seven_lt) encoding .plain SpoolManager.small false opening () 2

/-- A mailbox that is refused for good. -/
def unknown : SmtpError := ⟨550, ⟨5, 1, 1, []⟩, ascii "No such user"⟩

/-- It is refused once, and the session goes on. -/
theorem declined_iff_presentable_unknown :
  let s := enveloped.1
  let x := turn (.small 7 (by decide))
    ((encoding.deciding (.error (.protocol unknown))).withAuth .plain) s
  s.asked < x.2.asked ∧ (∃ r, x.2.said = s.said ++ [r] ∧ 400 ≤ r.code ∧ r.code < 600) ∧
    x.1 = .ok true ∧ Discards .rcpt s x.2
  := by
  have hasked : enveloped.1.asked < (turn (.small 7 (by decide))
      ((encoding.deciding (.error (.protocol unknown))).withAuth .plain) enveloped.1).2.asked := by
    decide +kernel
  have hiff := declined_iff_presentable (.small 7 (by decide)) encoding .plain
    SpoolManager.small false opening () 2 encodes_encoding (by decide +kernel) .rcpt
    ⟨ascii "RCPT", ascii "TO:<c>"⟩ [] (by decide +kernel) (by decide +kernel)
    (.error (.protocol unknown))
  refine ⟨hasked, (hiff.mpr fun e hd _ => ?_).1 _ rfl hasked⟩
  obtain rfl := Except.error.inj hd
  decide

/-- A mailbox that is refused with a text in two lines: the session ends, and nothing is said. -/
theorem not_declined_two_lines :
  let d : Decision := .error (.protocol ⟨550, ⟨5, 1, 1, []⟩, ascii "No such user\nhere"⟩)
  let s := enveloped.1
  let x := turn (.small 7 (by decide)) ((encoding.deciding d).withAuth .plain) s
  enveloped.2 = true ∧ s.asked < x.2.asked ∧ x.1 ≠ .ok true ∧ x.2.said = s.said
  := by
  decide +kernel

end Session

end GoSmtp.Server
