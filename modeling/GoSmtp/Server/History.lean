import GoSmtp.Server.Journal

/-!
# What the journal tells

Every flag of the journal says that some event has occurred, and none of some others since.  So
what the monitor accepts can be said about the log alone.
-/

namespace GoSmtp.Server

/-! ### Events -/

namespace LogEvent

/-- `Session.Mail` has succeeded. -/
def isMail : LogEvent → Bool
  | .mail _ => true
  | _ => false

/-- `Session.Rcpt` has succeeded. -/
def isRcpt : LogEvent → Bool
  | .rcpt _ => true
  | _ => false

/-- A call of `Session.Reset`. -/
def isReset : LogEvent → Bool
  | .reset _ => true
  | _ => false

/-- A call of `Session.Reset` that ends a transaction. -/
def endsTransaction : LogEvent → Bool
  | .reset reason => reason ≠ .startTLS
  | _ => false

/-- A call of `Session.Data`. -/
def isDataCall : LogEvent → Bool
  | .dataCall _ => true
  | _ => false

/-- The calls of the backend that belong to a transaction. -/
def isTransactionCall : LogEvent → Bool
  | .mailCall | .rcptCall | .dataCall _ => true
  | _ => false

/-- An outcome of `Session.Data` that the backend decided on. -/
def isAuthoritative : LogEvent → Bool
  | .outcome authoritative => authoritative
  | _ => false

/-- Another call of `Session.Data`, or an outcome that the backend did not decide on. -/
def isUndecided : LogEvent → Bool
  | .dataCall _ => true
  | .outcome authoritative => !authoritative
  | _ => false

/-- A call of `CommitAuth`. -/
def isCommit : LogEvent → Bool
  | .auth (.commit _) => true
  | _ => false

/-- The command RSET. -/
def isRSET : LogEvent → Bool
  | .decoded c => Journal.isRSET c
  | _ => false

/-- A verification of credentials. -/
def isVerify : LogEvent → Bool
  | .auth (.verify _) => true
  | _ => false

/-- What happens in an AUTH exchange that is still undecided. -/
def isExchange : LogEvent → Bool
  | .reply r => r.code = 334
  | .auth (.verify _) => true
  | _ => false

def isReply : LogEvent → Bool
  | .reply _ => true
  | _ => false

def isOversize : LogEvent → Bool
  | .oversize => true
  | _ => false

def isEmit : LogEvent → Bool
  | .emit => true
  | _ => false

def isBdatFailed : LogEvent → Bool
  | .bdatFailed => true
  | _ => false

def isSpoolOpened : LogEvent → Bool
  | .spoolOpened => true
  | _ => false

def isSpoolClosed : LogEvent → Bool
  | .spoolClosed => true
  | _ => false

def isAuthenticated : LogEvent → Bool
  | .authenticated => true
  | _ => false

def isHandshake : LogEvent → Bool
  | .handshake => true
  | _ => false

end LogEvent

/-! ### Flags -/

section Flags

variable {tls : Bool} {log : List LogEvent}

theorem journal_since {f : Journal → Bool} {p q : LogEvent → Bool} (hnew : f (.new tls) = false)
    (hstep : ∀ j e, f (j.step e) = (p e || !q e && f j)) :
  f (journal tls log) = true ↔ Since p q log
  := by
  induction log using List.reverseRecOn with
  | nil => simp [journal, hnew]
  | append_singleton log e ih => simp [hstep, ih]

theorem tls_journal :
  (journal tls log).tls = true ↔ tls = true ∨ .handshake ∈ log
  := by
  induction log using List.reverseRecOn with
  | nil => simp [journal, Journal.new]
  | append_singleton log e ih =>
    rw [journal_snoc, List.mem_append, ← or_assoc, ← ih]
    cases e with
    | auth c => cases c <;> simp [Journal.step]
    | _ => simp [Journal.step]

theorem authenticated_journal :
  (journal tls log).authenticated = true ↔ Since LogEvent.isAuthenticated LogEvent.isHandshake log
  := by
  apply journal_since rfl
  intro j e
  cases e with
  | auth c => cases c <;> rfl
  | _ => rfl

theorem commits_journal :
  (journal tls log).commits ≠ 0 ↔ Since LogEvent.isCommit LogEvent.isHandshake log
  := by
  rw [← bne_iff_ne]
  apply journal_since (f := fun j => j.commits != 0) rfl
  intro j e
  cases e with
  | auth c => cases c <;> rfl
  | _ => rfl

theorem opened_journal :
  (journal tls log).opened = true ↔ Since LogEvent.isMail LogEvent.isReset log
  := by
  apply journal_since rfl
  intro j e
  cases e with
  | auth c => cases c <;> rfl
  | _ => rfl

theorem recipients_journal :
  (journal tls log).recipients ≠ [] ↔ Since LogEvent.isRcpt LogEvent.isMail log
  := by
  have hsince : (!(journal tls log).recipients.isEmpty) = true
      ↔ Since LogEvent.isRcpt LogEvent.isMail log := by
    apply journal_since (f := fun j => !j.recipients.isEmpty) rfl
    intro j e
    cases e with
    | auth c => cases c <;> rfl
    | rcpt mailbox => simp [Journal.step, LogEvent.isRcpt]
    | _ => rfl
  simpa using hsince

theorem failed_journal :
  (journal tls log).failed = true ↔ Since LogEvent.isBdatFailed LogEvent.isRSET log
  := by
  apply journal_since rfl
  intro j e
  cases e with
  | auth c => cases c <;> rfl
  | decoded c => exact Bool.and_comm _ _
  | _ => rfl

theorem spool_journal :
  (journal tls log).spool = true ↔ Since LogEvent.isSpoolOpened LogEvent.isSpoolClosed log
  := by
  apply journal_since rfl
  intro j e
  cases e with
  | auth c => cases c <;> rfl
  | _ => rfl

/-- The outcome that the backend decided on is being emitted. -/
def Completing (log : List LogEvent) : Prop :=
  Since LogEvent.isEmit LogEvent.isReset log ∧
  Since LogEvent.isAuthoritative LogEvent.isUndecided log ∧
  ¬ Since LogEvent.isOversize LogEvent.isDataCall log

theorem completing_journal :
  (journal tls log).completing = true ↔ Completing log
  := by
  have hemitting : (journal tls log).emitting = true ↔ Since LogEvent.isEmit LogEvent.isReset log := by
    apply journal_since rfl
    intro j e
    cases e with
    | auth c => cases c <;> rfl
    | _ => rfl
  have hdecided : (journal tls log).decided = true
      ↔ Since LogEvent.isAuthoritative LogEvent.isUndecided log := by
    apply journal_since rfl
    intro j e
    cases e with
    | auth c => cases c <;> rfl
    | outcome authoritative => cases authoritative <;> rfl
    | _ => rfl
  have hoversize : (journal tls log).oversize = true
      ↔ Since LogEvent.isOversize LogEvent.isDataCall log := by
    apply journal_since rfl
    intro j e
    cases e with
    | auth c => cases c <;> rfl
    | _ => rfl
  rw [Completing, ← hemitting, ← hdecided, ← hoversize]
  simp [Journal.completing, and_assoc]

theorem closed_journal :
  (journal tls log).closed = true ↔ .close ∈ log
  := by
  induction log using List.reverseRecOn with
  | nil => simp [journal, Journal.new]
  | append_singleton log e ih =>
    rw [journal_snoc, List.mem_append, ← ih]
    cases e with
    | auth c => cases c <;> simp [Journal.step]
    | _ => simp [Journal.step]

end Flags

/-! ### Transactions -/

theorem reset_once {cfg : Config} {tls : Bool} {mailbox : Bytes} {before after : List LogEvent}
    (h : (monitor cfg tls).Accepts (before ++ .mail mailbox :: after))
    (hafter : .mailCall ∉ after) :
  (journal tls (before ++ .mail mailbox :: after)).calling = false ∧
  after.countP LogEvent.endsTransaction
    = if (journal tls (before ++ .mail mailbox :: after)).opened then 0 else 1
  := by
  induction after using List.reverseRecOn with
  | nil => simp [Journal.step]
  | append_singleton after e ih =>
    rw [← List.cons_append, ← List.append_assoc] at h ⊢
    obtain ⟨hcalling, hcount⟩ := ih h.of_append fun hmem => hafter (List.mem_append_left _ hmem)
    have hlegal := h.last
    rw [run_monitor] at hlegal
    have hcall : e ≠ .mailCall := fun heq => hafter (by simp [heq])
    rw [journal_snoc, Journal.calling_step, List.countP_append, hcount]
    refine ⟨decide_eq_false hcall, ?_⟩
    cases e with
    | mail => exact absurd (hcalling.symm.trans hlegal.1) Bool.false_ne_true
    | reset reason =>
      by_cases hopen : (journal tls (before ++ .mail mailbox :: after)).opened = true
      · simp [hopen, Journal.step, LogEvent.endsTransaction, hlegal.1.mp hopen]
      · have hreason : reason = .startTLS := not_not.mp fun hne => hopen (hlegal.1.mpr hne)
        simp [hopen, Journal.step, LogEvent.endsTransaction, hreason]
    | auth c => cases c <;> rfl
    | _ => rfl

/-! ### Exchanges -/

section Exchanges

variable {cfg : Config} {tls : Bool} {log : List LogEvent}

/-- The log ends with an AUTH command and challenges and verifications, the last of which had the
result. -/
def Concludes (result : AuthResult) (log : List LogEvent) : Prop :=
  ∃ start c during, log = start ++ .decoded c :: during ∧ Verb.ofSpelling c.verb = .auth ∧
    (∀ e ∈ during, e.isExchange = true) ∧
    Since (fun e => e = .auth (.verify (some result))) LogEvent.isVerify during

/-- The first reply has the code 235. -/
def Announces (log : List LogEvent) : Prop :=
  ∀ before r after, log = before ++ .reply r :: after → (∀ e ∈ before, e.isReply = false) →
    r.code = 235

theorem started_journal {last : Option AuthResult}
    (h : (journal tls log).exchange = .started last) :
  ∃ start c during, log = start ++ .decoded c :: during ∧ Verb.ofSpelling c.verb = .auth ∧
    (∀ e ∈ during, e.isExchange = true) ∧
    ∀ result, last = some result →
      Since (fun e => e = .auth (.verify (some result))) LogEvent.isVerify during
  := by
  induction log using List.reverseRecOn generalizing last with
  | nil => cases h
  | append_singleton log e ih =>
    rw [journal_snoc, Journal.exchange_step] at h
    unfold Exchange.step at h
    split at h
    · next c =>
      split at h
      · next hverb =>
        cases h
        exact ⟨log, c, [], rfl, hverb, by simp, by simp⟩
      · cases h
    · next last' r hx =>
      split at h
      · next hcode =>
        cases h
        obtain ⟨start, c, during, rfl, hverb, hduring, hlast⟩ := ih hx
        refine ⟨start, c, during ++ [.reply r], by simp, hverb, ?_, ?_⟩
        · intro e he
          rcases List.mem_append.mp he with he | he
          · exact hduring e he
          · rw [List.mem_singleton.mp he]
            exact decide_eq_true hcode
        · intro result hresult
          exact since_snoc.mpr (.inr ⟨rfl, hlast result hresult⟩)
      · cases h
    · next last' result hx =>
      cases h
      obtain ⟨start, c, during, rfl, hverb, hduring, -⟩ := ih hx
      refine ⟨start, c, during ++ [.auth (.verify last)], by simp, hverb, ?_, ?_⟩
      · intro e he
        rcases List.mem_append.mp he with he | he
        · exact hduring e he
        · rw [List.mem_singleton.mp he]
          rfl
      · rintro result rfl
        exact since_snoc.mpr (.inl (decide_eq_true rfl))
    · cases h
    · cases h
    · cases h
    · cases h

theorem committed_journal {result : AuthResult} {before after : List LogEvent}
    (h : (monitor cfg tls).Accepts (before ++ .auth (.commit result) :: after))
    (hafter : ∀ e ∈ after, e.isReply = false) :
  (journal tls (before ++ .auth (.commit result) :: after)).exchange = .committed
  := by
  induction after using List.reverseRecOn with
  | nil =>
    rw [journal_snoc, Journal.exchange_step]
    cases (journal tls before).exchange <;> rfl
  | append_singleton after e ih =>
    rw [← List.cons_append, ← List.append_assoc] at h ⊢
    have hcommitted := ih h.of_append fun e he => hafter e (List.mem_append_left _ he)
    have hreply : e.isReply = false := hafter e (by simp)
    have hlegal := h.last
    rw [run_monitor] at hlegal
    rw [journal_snoc, Journal.exchange_step, hcommitted]
    cases e with
    | decoded c => exact absurd hcommitted hlegal
    | reply r => cases hreply
    | auth c => cases c <;> rfl
    | _ => rfl

end Exchanges

end GoSmtp.Server
