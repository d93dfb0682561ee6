import GoSmtp.Client.Attribution
import GoSmtp.Client.FinalStatus
import GoSmtp.Client.Window

/-!
# Accepted recipients

A recipient is reported as accepted if the reply to its RCPT is any 2yz reply, and it is
retained for the content if the reply is 250 or 251.  So what is reported is what is retained
exactly if there is no other 2yz reply.  If this is so in all the batches of a transaction,
LMTP has a final reply for each of the recipients that were reported as accepted.
-/

namespace GoSmtp.Client

variable {φ ω : Type}
variable {s s' : Conn φ ω} {result : DataResult} {opts : Options} {env : Env φ ω}

/-- The recipients that a result reports as accepted. -/
def reportedAccepted (result : DataResult) : List Bytes :=
  (result.filter (·.accepted)).map (·.recipient)

/-- A 2yz reply to RCPT is 250 or 251. -/
def Reply.Usual (r : Reply) : Prop := r.Positive → r.code = 250 ∨ r.code = 251

/-- The next `n` replies of the peer are usual. -/
def NextUsual (n : Nat) (s : Conn φ ω) : Prop := ∀ r ∈ s.replies.payload.take n, r.Usual

/-! ### Results and recipients -/

theorem code_replyError (opts : Options) (enhanced : Bool) (r : Reply) :
  (replyError opts enhanced r).code = r.code
  := by
  rw [replyError]
  split <;> rfl

theorem accepted_recipientResult (opts : Options) (command : Bytes) (enhanced : Bool) (r : Reply)
    (recipient : Bytes) :
  (recipientResult opts command enhanced r recipient).accepted = true ↔ r.Positive
  := by
  rw [RecipientResult.accepted, recipientResult, code_replyError, Bool.and_eq_true,
    decide_eq_true_eq, decide_eq_true_eq]
  rfl

/-- The result of a batch. -/
def batchResult (opts : Options) (enhanced : Bool) (recipients : List Recipient)
    (rs : List Reply) : DataResult :=
  List.zipWith (fun x r => recipientResult opts (ascii "RCPT") enhanced r x.address) recipients rs

section Lists

variable {opts : Options} {enhanced : Bool} {x : Recipient} {recipients : List Recipient}
variable {r : Reply} {rs : List Reply}

theorem reported_cons_positive (h : r.Positive) :
  reportedAccepted (batchResult opts enhanced (x :: recipients) (r :: rs))
    = x.address :: reportedAccepted (batchResult opts enhanced recipients rs)
  := by
  have h := (accepted_recipientResult opts (ascii "RCPT") enhanced r x.address).mpr h
  rw [batchResult, List.zipWith_cons_cons, reportedAccepted, List.filter_cons_of_pos h]
  rfl

theorem reported_cons_negative (h : ¬ r.Positive) :
  reportedAccepted (batchResult opts enhanced (x :: recipients) (r :: rs))
    = reportedAccepted (batchResult opts enhanced recipients rs)
  := by
  have h := mt (accepted_recipientResult opts (ascii "RCPT") enhanced r x.address).mp h
  rw [batchResult, List.zipWith_cons_cons, reportedAccepted, List.filter_cons_of_neg h]
  rfl

theorem accepted_cons_pos (h : r.code = 250 ∨ r.code = 251) :
  acceptedRecipients (x :: recipients) (r :: rs)
    = x.address :: acceptedRecipients recipients rs
  := by
  rw [acceptedRecipients, List.zip_cons_cons, List.filter_cons_of_pos (by simpa using h)]
  rfl

theorem accepted_cons_neg (h : ¬ (r.code = 250 ∨ r.code = 251)) :
  acceptedRecipients (x :: recipients) (r :: rs) = acceptedRecipients recipients rs
  := by
  rw [acceptedRecipients, List.zip_cons_cons, List.filter_cons_of_neg (by simpa using h)]
  rfl

theorem positive_of_accepted (h : r.code = 250 ∨ r.code = 251) :
  r.Positive
  := by
  rw [Reply.Positive]
  omega

theorem length_accepted_le (opts : Options) (enhanced : Bool) (recipients : List Recipient)
    (rs : List Reply) :
  (acceptedRecipients recipients rs).length
    ≤ (reportedAccepted (batchResult opts enhanced recipients rs)).length
  := by
  induction rs generalizing recipients with
  | nil =>
    rw [acceptedRecipients, List.zip_nil_right]
    apply Nat.zero_le
  | cons r rs ih =>
    cases recipients with
    | nil => apply Nat.zero_le
    | cons x recipients =>
      by_cases haccepted : r.code = 250 ∨ r.code = 251
      · rw [accepted_cons_pos haccepted,
          reported_cons_positive (positive_of_accepted haccepted)]
        apply Nat.succ_le_succ (ih recipients)
      · rw [accepted_cons_neg haccepted]
        apply Nat.le_trans (ih recipients)
        by_cases hpositive : r.Positive
        · rw [reported_cons_positive hpositive]
          apply Nat.le_succ
        · apply Nat.le_of_eq
          rw [reported_cons_negative hpositive]

theorem accepted_eq_reported_iff (opts : Options) (enhanced : Bool)
    (hlen : rs.length = recipients.length) :
  acceptedRecipients recipients rs = reportedAccepted (batchResult opts enhanced recipients rs)
    ↔ ∀ r ∈ rs, r.Usual
  := by
  induction rs generalizing recipients with
  | nil =>
    obtain rfl := List.length_eq_zero_iff.mp hlen.symm
    simp [acceptedRecipients, reportedAccepted, batchResult]
  | cons r rs ih =>
    obtain ⟨x, recipients, rfl⟩ := List.exists_cons_of_length_eq_add_one hlen.symm
    have ih := ih (Nat.succ.inj hlen)
    rw [List.forall_mem_cons, ← ih]
    by_cases haccepted : r.code = 250 ∨ r.code = 251
    · have husual : r.Usual := fun _ => haccepted
      rw [accepted_cons_pos haccepted, reported_cons_positive (positive_of_accepted haccepted),
        List.cons.injEq]
      simp only [true_and, husual]
    rw [accepted_cons_neg haccepted]
    by_cases hpositive : r.Positive
    · have hunusual : ¬ r.Usual := fun h => haccepted (h hpositive)
      rw [reported_cons_positive hpositive]
      simp only [hunusual, false_and, iff_false]
      intro heq
      have hle := length_accepted_le opts enhanced recipients rs
      rw [heq, List.length_cons] at hle
      exact Nat.not_succ_le_self _ hle
    · have husual : r.Usual := fun h => absurd h hpositive
      rw [reported_cons_negative hpositive]
      simp only [husual, true_and]

end Lists

/-! ### Batches -/

section Batches

variable {opts : Options} {env : Env φ ω} {s : Conn φ ω}
variable {recipients : List Recipient} {check : Conn φ ω → Option (ClientError φ)}

/-- A batch retains the recipients with the replies 250 and 251.  If it fails, it retains
none. -/
theorem wp_rcptBatch_retained {Q : DataResult → Conn φ ω → Prop}
    {E : Option (ClientError φ) → Conn φ ω → Prop}
    (hQ : ∀ rs replies w log, rs.length = recipients.length →
      s.replies = Feed.items rs ++ replies →
      Q (batchResult opts s.enhancedStatusCodes recipients rs) { s with
        world := w
        replies := replies
        log := log
        recipients := s.recipients ++ acceptedRecipients recipients rs })
    (hE : ∀ e s', s'.recipients = s.recipients → E e s') :
  wp (rcptBatch opts env recipients check) Q E s
  := by
  rw [rcptBatch, wp_bind, wp_canceled, wp_ite]
  refine ⟨fun _ => hE _ _ rfl, fun _ => ?_⟩
  rw [wp_ite]
  refine ⟨fun _ => hE _ _ rfl, fun _ => ?_⟩
  rw [wp_bind]
  apply wp_requireState
  · intro hstate
    have hopen : s.state ≠ .closed := by
      rw [List.mem_singleton.mp hstate]
      simp
    rw [wp_bind, wp_read, checked.eq_def]
    split
    · apply hE
      rfl
    · rw [wp_bind]
      have hkeeps := Exec.keeps_iff_wp.mp
        (keeps_executeLocked opts env (recipients.map rcptCommand))
        { s with world := (env.canceled .before s.log s.world).2 }
      refine wp_mono (wp_and hkeeps (wp_executeLocked_unread (Q := fun rs s' =>
        wp _ Q E s') ?_)) (fun _ _ h => h.2) ?_
      · intro rs replies w log hlen hrs _
        rw [List.length_map] at hlen
        rw [wp_bind, wp_unlessClosed, if_neg (by simpa [Conn.closed] using hopen)]
        apply hQ rs replies w log hlen hrs
      · rintro e s' ⟨hsettings, -⟩
        apply hE
        exact congrArg (·.2.2.1) hsettings
  · intro _
    apply hE
    rfl

/-- What a batch that succeeds reports is what it retains, exactly if the replies to it are
usual. -/
theorem rcptBatch_retains_iff (h : rcptBatch opts env recipients check s = (.ok result, s')) :
  s'.recipients = s.recipients ++ reportedAccepted result ↔ NextUsual recipients.length s
  := by
  have hrun : wp (rcptBatch opts env recipients check)
      (fun result s' => s'.recipients = s.recipients ++ reportedAccepted result
        ↔ NextUsual recipients.length s) (fun _ _ => True) s := by
    apply wp_rcptBatch_retained
    · intro rs replies w log hlen hrs
      have hnext : s.replies.payload.take recipients.length = rs := by
        rw [hrs, Feed.payload_items_append, ← hlen, List.take_left]
      rw [List.append_cancel_left_eq, accepted_eq_reported_iff opts _ hlen, NextUsual, hnext]
    · intro _ _ _
      trivial
  rw [wp, h] at hrun
  exact hrun

theorem rcptBatch_fails {outcome : Outcome (ClientError φ) DataResult}
    (h : rcptBatch opts env recipients check s = (outcome, s'))
    (hfails : ∀ result, outcome ≠ .ok result) :
  s'.recipients = s.recipients
  := by
  have hrun : wp (rcptBatch opts env recipients check) (fun _ _ => True)
      (fun _ s' => s'.recipients = s.recipients) s :=
    wp_rcptBatch_retained (fun _ _ _ _ _ _ => trivial) fun _ _ => id
  rw [wp, h] at hrun
  cases outcome with
  | ok result => exact absurd rfl (hfails result)
  | err e => exact hrun
  | panic => exact hrun

end Batches

/-! ### Transactions -/

/-- The arguments of a call of `RcptBatch`. -/
structure Batch (φ ω : Type) where
  recipients : List Recipient
  check : Conn φ ω → Option (ClientError φ)

/-- The calls of `RcptBatch` in a transaction: what they report together.  A call that fails
reports nothing. -/
def rcptBatches (opts : Options) (env : Env φ ω) :
    List (Batch φ ω) → Conn φ ω → DataResult × Conn φ ω
  | [], s => ([], s)
  | b :: batches, s =>
    match rcptBatch opts env b.recipients b.check s with
    | (.ok result, s) =>
      (result ++ (rcptBatches opts env batches s).1, (rcptBatches opts env batches s).2)
    | (_, s) => rcptBatches opts env batches s

/-- Every batch has usual replies. -/
def UsualBatches (opts : Options) (env : Env φ ω) : List (Batch φ ω) → Conn φ ω → Prop
  | [], _ => True
  | b :: batches, s =>
    NextUsual b.recipients.length s ∧
      UsualBatches opts env batches (rcptBatch opts env b.recipients b.check s).2

theorem rcptBatches_retain {batches : List (Batch φ ω)} (h : UsualBatches opts env batches s) :
  (rcptBatches opts env batches s).2.recipients
    = s.recipients ++ reportedAccepted (rcptBatches opts env batches s).1
  := by
  induction batches generalizing s with
  | nil => exact (List.append_nil _).symm
  | cons b batches ih =>
    obtain ⟨husual, hrest⟩ := h
    have ih := ih hrest
    rcases hb : rcptBatch opts env b.recipients b.check s with ⟨result | e | _, s'⟩
    all_goals
      rw [hb] at ih
      rw [rcptBatches, hb, ih]
    · rw [(rcptBatch_retains_iff hb).mpr husual, List.append_assoc]
      simp only [reportedAccepted, List.filter_append, List.map_append]
    · rw [rcptBatch_fails hb (by simp)]
    · rw [rcptBatch_fails hb (by simp)]

/-- `Rcpt` returns nil for a recipient that it retains, and for no other, exactly if the reply
is usual. -/
theorem rcpt_retains_iff {x : Recipient} {check : Conn φ ω → Option (ClientError φ)}
    (h : rcptBatch opts env [x] check s = (.ok result, s')) :
  ((rcpt opts env x check s).1 = .ok ()
      ↔ (rcpt opts env x check s).2.recipients = s.recipients ++ [x.address])
    ↔ NextUsual 1 s
  := by
  have hrun : wp (rcptBatch opts env [x] check)
      (fun result s' => ∃ r, result = batchResult opts s.enhancedStatusCodes [x] [r] ∧
        s'.recipients = s.recipients ++ acceptedRecipients [x] [r]) (fun _ _ => True) s := by
    apply wp_rcptBatch_retained
    · intro rs replies w log hlen _
      obtain ⟨r, rfl⟩ := List.length_eq_one_iff.mp hlen
      exact ⟨r, rfl, rfl⟩
    · intro _ _ _
      trivial
  rw [wp, h] at hrun
  obtain ⟨r, rfl, hrecipients⟩ := hrun
  have hstate : (rcpt opts env x check s).2 = s' := by
    simp only [rcpt, Bind.bind, h, batchResult, List.zipWith_cons_cons, List.zipWith_nil_right]
    split <;> rfl
  have hok : (rcpt opts env x check s).1 = .ok () ↔ r.Positive := by
    rw [← accepted_recipientResult opts (ascii "RCPT") s.enhancedStatusCodes r x.address]
    simp only [rcpt, Bind.bind, h, batchResult, List.zipWith_cons_cons, List.zipWith_nil_right]
    split
    · next haccepted => exact iff_of_true rfl haccepted
    · next haccepted => exact iff_of_false (by rintro ⟨⟩) haccepted
  have hnext : NextUsual 1 s ↔ r.Usual := by
    rw [← List.length_singleton (a := x), ← rcptBatch_retains_iff h, hrecipients,
      List.append_cancel_left_eq, accepted_eq_reported_iff opts _ rfl, List.forall_mem_singleton]
  rw [hok, hstate, hrecipients, List.append_cancel_left_eq, hnext]
  by_cases haccepted : r.code = 250 ∨ r.code = 251
  · rw [accepted_cons_pos haccepted]
    exact iff_of_true (iff_of_true (positive_of_accepted haccepted) rfl) fun _ => haccepted
  · rw [accepted_cons_neg haccepted]
    constructor
    · intro hiff hpositive
      cases hiff.mp hpositive
    · intro husual
      exact iff_of_false (fun hpositive => haccepted (husual hpositive)) (by rintro ⟨⟩)

/-- What `RcptBatch` and `Rcpt` report as accepted is what they retain, exactly if there is no
2yz reply but 250 and 251.  In a transaction without such a reply the final statuses of LMTP
are those of the recipients that were reported as accepted, with one final reply for each. -/
theorem retained_iff_usual (opts : Options) (env : Env φ ω) :
  (∀ recipients check s result s', rcptBatch opts env recipients check s = (.ok result, s') →
    (s'.recipients = s.recipients ++ reportedAccepted result
      ↔ NextUsual recipients.length s)) ∧
  (∀ x check s result s', rcptBatch opts env [x] check s = (.ok result, s') →
    (((rcpt opts env x check s).1 = .ok ()
        ↔ (rcpt opts env x check s).2.recipients = s.recipients ++ [x.address])
      ↔ NextUsual 1 s)) ∧
  (opts.lmtp = true → ∀ batches s, s.recipients = [] → UsualBatches opts env batches s →
    (∀ source o x s',
      data opts env source o (rcptBatches opts env batches s).2 = (.ok x, s') → x.err = none →
      x.result.map (·.recipient) = reportedAccepted (rcptBatches opts env batches s).1) ∧
    (∀ c s₁ x s₂, s₁.recipients = (rcptBatches opts env batches s).2.recipients →
      s₁.state ≠ .closed → (c = .bdat → s₁.recipients ≠ []) →
      returning (finalCall opts env s₁.recipients c) s₁ = (.ok x, s₂) → x.err = none →
      ∃ rs, s₁.replies = Feed.items rs ++ s₂.replies ∧
        rs.length = (reportedAccepted (rcptBatches opts env batches s).1).length))
  := by
  refine ⟨fun _ _ _ _ _ => rcptBatch_retains_iff, fun _ _ _ _ _ => rcpt_retains_iff, ?_⟩
  intro hlmtp batches s hnone husual
  have hretained := rcptBatches_retain husual
  rw [hnone, List.nil_append] at hretained
  constructor
  · intro source o x s' hdata herr
    have hkeeps : KeepsContract opts (completionVerb o) (data opts env source o)
        (rcptBatches opts env batches s).2 := by
      apply keepsContract_data
      intro hsmtp
      rw [hsmtp] at hlmtp
      cases hlmtp
    rw [KeepsContract, wp, hdata] at hkeeps
    obtain ⟨new, -, hstatus⟩ := hkeeps
    rw [(hstatus.complete herr).1, hretained]
  · intro c s₁ x s₂ hrecipients hopen hne hfinal herr
    obtain ⟨x', s', hrun, hattributed⟩ :=
      returning_of_wp (wp_finalCall_attributed hlmtp env c hopen hne)
    rw [hfinal] at hrun
    cases hrun
    obtain ⟨hlen, hreplies, -⟩ := hattributed.full herr
    refine ⟨_, hreplies, ?_⟩
    rw [hlen, hrecipients, hretained]

/-- A recipient of whom the server says that it cannot be verified. -/
def unverified : Conn Unit Unit :=
  Conn.scripted .transaction [] [] [(252, "cannot verify")] ()

/-- The batch of this recipient. -/
def unverifiedBatch : Outcome (ClientError Unit) DataResult × Conn Unit Unit :=
  rcptBatch (Options.plain true) Env.plain [⟨ascii "a", [ascii "TO:<a>"]⟩] (fun _ => none)
    unverified

theorem retained_iff_usual_unverified :
  unverifiedBatch.2.recipients
      = unverified.recipients ++ reportedAccepted [⟨ascii "a", ascii "RCPT", 252, .zero,
        ascii "cannot verify"⟩]
    ↔ NextUsual 1 unverified
  := by
  have hok : unverifiedBatch.1 = .ok [⟨ascii "a", ascii "RCPT", 252, .zero,
      ascii "cannot verify"⟩] := by decide +kernel
  have hrun : unverifiedBatch = (.ok [⟨ascii "a", ascii "RCPT", 252, .zero,
      ascii "cannot verify"⟩], unverifiedBatch.2) := by rw [← hok]
  apply (retained_iff_usual (Options.plain true) Env.plain).1 [⟨ascii "a", [ascii "TO:<a>"]⟩]
    (fun _ => none) unverified _ unverifiedBatch.2 hrun

/-- A recipient with the reply 252 is reported as accepted, and not retained. -/
theorem unverified_not_retained :
  unverifiedBatch.1 = .ok [⟨ascii "a", ascii "RCPT", 252, .zero, ascii "cannot verify"⟩] ∧
  reportedAccepted [⟨ascii "a", ascii "RCPT", 252, .zero, ascii "cannot verify"⟩] = [ascii "a"] ∧
  unverifiedBatch.2.recipients = []
  := by
  decide +kernel

end GoSmtp.Client
