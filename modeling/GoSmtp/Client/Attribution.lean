import GoSmtp.Client.Delivery

/-!
# The final replies of LMTP

After the content LMTP has one final reply for every recipient.  DATA and BDAT read them in
two loops of their own, and the loop of BDAT starts with a reply that is already read.  In
both the `i`-th entry of a result is the `i`-th reply of the stream for the `i`-th recipient.
If the stream fails, the entries before the failure are returned and the connection is
closed.  If it does not, and nothing more came, the transaction is closed and the connection
stays open, unless the watcher of the context has closed it.
-/

namespace GoSmtp.Client

variable {φ ω : Type}
variable {Q : Returned φ → Conn φ ω → Prop}
variable {opts : Options} {command : Bytes} {rs : List Reply} {n : Nat} {replies : Feed Reply φ}
  {recipients : List Bytes} {s : Conn φ ω}

/-- What completes the content. -/
inductive Completion where
  | data
  | bdat
  deriving DecidableEq, Repr

def Completion.verb : Completion → Bytes
  | .data => ascii "DATA"
  | .bdat => ascii "BDAT"

/-- What `Data` does after the content is complete: the end of `sendData`, or of the last
round of `bdatLoop`. -/
def finalCall (opts : Options) (env : Env φ ω) (recipients : List Bytes) :
    Completion → Call φ ω (Returned φ)
  | .data => finishData opts env recipients
  | .bdat => do
      let r ← Exec.mapErr (classifyFinalReplyFailure opts (ascii "BDAT"))
        (read opts env (ascii "BDAT"))
      finishBDAT opts env recipients r

/-- The part of `finalCall` that reads the replies. -/
def finalReads (opts : Options) (env : Env φ ω) (recipients : List Bytes) :
    Completion → Call φ ω (Returned φ)
  | .data => lmtpReplies opts env (ascii "DATA") [] recipients
  | .bdat => do
      let first ← Exec.mapErr (classifyFinalReplyFailure opts (ascii "BDAT"))
        (read opts env (ascii "BDAT"))
      Exec.update fun s => { s with binaryMIME := false }
      unlessClosed endTransaction
      match recipients with
      | [] => fun s => (.panic, s)
      | recipient :: recipients => do
          let s ← Exec.read
          lmtpReplies opts env (ascii "BDAT")
            [recipientResult opts (ascii "BDAT") s.enhancedStatusCodes first recipient] recipients

/-- What is left to do after the last reply. -/
def finalDone (env : Env φ ω) : Completion → Call φ ω Unit
  | .data => do
      watched env
      unlessClosed endTransaction
  | .bdat => pure ()

theorem finalCall_eq (hlmtp : opts.lmtp = true) (env : Env φ ω)
    (recipients : List Bytes) (c : Completion) :
  finalCall opts env recipients c = (do
    let x ← finalReads opts env recipients c
    lmtpEnd env c.verb (finalDone env c) x)
  := by
  cases c with
  | data => simp only [finalCall, finishData, hlmtp, if_true, finalReads, finalDone, Completion.verb]
  | bdat =>
    simp only [finalCall, finishBDAT, bdatFinalReplies, hlmtp, if_true, finalReads, finalDone,
      Completion.verb, Exec.bind_bind]
    cases recipients <;> rfl

/-! ### The stream -/

/-- The replies at the head of the stream, at most `n`, up to the first failure. -/
def answered : Nat → Feed Reply φ → List Reply
  | n + 1, .item r :: replies => if r.code = 421 then [] else r :: answered n replies
  | _, _ => []

theorem answered_item {r : Reply} (h : r.code ≠ 421) (replies : Feed Reply φ) :
  answered (n + 1) (.item r :: replies) = r :: answered n replies
  := if_neg h

/-- The stream has no reply at its head that could be attributed. -/
def Broken (replies : Feed Reply φ) : Prop := ∀ r rest, replies = .item r :: rest → r.code = 421

theorem answered_broken (h : Broken replies) :
  answered n replies = []
  := by
  rcases n with _ | n
  · rfl
  rcases replies with _ | ⟨r | e, replies⟩
  · rfl
  · exact if_pos (h r replies rfl)
  · rfl

/-- The context is not cancelled. -/
def Uncanceled (env : Env φ ω) : Prop := ∀ c log w, (env.canceled c log w).1 = false

section Rules

variable {opts : Options} {env : Env φ ω} {s : Conn φ ω}
variable {E : Option (ClientError φ) → Conn φ ω → Prop}

/-- A read takes the reply at the head of the stream.  If the context is not cancelled, it
fails only on a stream that is broken, and closes the connection. -/
theorem wp_read_stream {Q : Reply → Conn φ ω → Prop}
    (hQ : ∀ r replies w, s.replies = .item r :: replies → r.code ≠ 421 →
      Q r { s with world := w, replies := replies, log := s.log ++ [.reply r] })
    (hE : ∀ e s', (Uncanceled env → Broken s.replies ∧ s'.state = .closed) → E (some e) s') :
  wp (read opts env command) Q E s
  := by
  have hcanceled {c : Check} {log : List WireEvent} {w : ω}
      (h : (env.canceled c log w).1 = true) : ¬ Uncanceled env := by
    intro huncanceled
    rw [huncanceled] at h
    cases h
  rw [read, wp_bind, wp_canceled, wp_ite]
  constructor
  · intro h
    apply hE
    intro huncanceled
    exact absurd huncanceled (hcanceled h)
  intro _
  rw [wp_bind]
  apply wp_readReply
  · intro r replies hr
    simp only [wp_bind, wp_canceled, wp_ite, wp_poisoned, wp_read, wp_pure,
      wp_trace]
    constructor
    · intro h
      apply hE
      intro huncanceled
      exact absurd huncanceled (hcanceled h)
    · intro _
      constructor
      · intro hcode
        apply hE
        intro _
        refine ⟨fun r' rest hhead => ?_, rfl⟩
        rw [hr] at hhead
        cases hhead
        exact hcode
      · intro hcode
        apply hQ r replies _ hr hcode
  · intro cause replies hnone
    have hbroken : Broken s.replies := fun r rest hhead => absurd hhead (hnone r rest)
    simp only [wp_bind, wp_canceled, wp_ite, wp_poisoned]
    exact ⟨fun _ => hE _ _ fun _ => ⟨hbroken, rfl⟩, fun _ => hE _ _ fun _ => ⟨hbroken, rfl⟩⟩

/-- The loop over the final replies.  The entries it adds are those of the replies it has
read; if it fails, the connection is closed. -/
theorem wp_lmtpReplies_stream {result : DataResult}
    (hQ : ∀ rs replies w log, rs.length = recipients.length →
      answered recipients.length s.replies = rs → s.replies = Feed.items rs ++ replies →
      Q ⟨result ++ statuses opts command s.enhancedStatusCodes recipients rs, none⟩
        { s with world := w, replies := replies, log := log })
    (hE : ∀ rs e s', rs <+: answered recipients.length s.replies → s'.state = .closed →
      (Uncanceled env → rs = answered recipients.length s.replies ∧ rs.length < recipients.length) →
      Q ⟨result ++ statuses opts command s.enhancedStatusCodes recipients rs, some e⟩ s') :
  wp (lmtpReplies opts env command result recipients) Q E s
  := by
  induction recipients generalizing s result with
  | nil =>
    have h := hQ [] s.replies s.world s.log rfl rfl rfl
    rw [statuses, List.zipWith_nil_right, List.append_nil] at h
    exact h
  | cons recipient recipients ih =>
    rw [lmtpReplies, wp_bind, wp_attempt]
    apply wp_read_stream
    · intro r replies w hr hcode
      have hanswered : answered (recipients.length + 1) s.replies
          = r :: answered recipients.length replies := by
        rw [hr, answered_item hcode]
      have hstatuses (rs : List Reply) :
          result ++ [recipientResult opts command s.enhancedStatusCodes r recipient]
            ++ statuses opts command s.enhancedStatusCodes recipients rs
          = result ++ statuses opts command s.enhancedStatusCodes (recipient :: recipients)
            (r :: rs) := by
        rw [List.append_assoc]
        rfl
      rw [wp_bind, wp_read]
      apply ih
      · intro rs replies' w' log hlen hrs hreplies
        have hreplies : replies = Feed.items rs ++ replies' := hreplies
        have h := hQ (r :: rs) replies' w' log (by rw [List.length_cons, hlen, List.length_cons])
          (by rw [List.length_cons, hanswered, hrs])
          (by rw [hr, hreplies, Feed.items_cons, List.cons_append])
        rw [← hstatuses] at h
        exact h
      · intro rs e s' hrs hclosed huncanceled
        have h := hE (r :: rs) e s' ?_ hclosed ?_
        · rw [← hstatuses] at h
          exact h
        · rw [List.length_cons, hanswered]
          exact List.cons_prefix_cons.mpr ⟨rfl, hrs⟩
        · intro h
          obtain ⟨hrs, hlen⟩ := huncanceled h
          rw [List.length_cons, List.length_cons, hanswered, hrs]
          rw [hrs] at hlen
          exact ⟨rfl, Nat.succ_lt_succ hlen⟩
    · intro e s' hbroken
      have h := hE [] (e.unknownStream command) { s' with state := .closed } List.nil_prefix rfl ?_
      · rw [statuses, List.zipWith_nil_right, List.append_nil] at h
        exact h
      · intro huncanceled
        rw [answered_broken (hbroken huncanceled).1]
        exact ⟨rfl, Nat.succ_pos _⟩

/-- The connection after the replies are read, apart from the stream and the log. -/
def afterReads (s : Conn φ ω) : Completion → Conn φ ω
  | .data => s
  | .bdat => { endTransaction s with binaryMIME := false }

theorem wp_finalReads {c : Completion}
    (hopen : s.state ≠ .closed) (hne : c = .bdat → s.recipients ≠ [])
    (hQ : ∀ rs replies w log, rs.length = s.recipients.length →
      answered s.recipients.length s.replies = rs → s.replies = Feed.items rs ++ replies →
      Q ⟨statuses opts c.verb s.enhancedStatusCodes s.recipients rs, none⟩
        { afterReads s c with world := w, replies := replies, log := log })
    (hfailed : ∀ rs e s', rs <+: answered s.recipients.length s.replies → s'.state = .closed →
      (Uncanceled env → rs = answered s.recipients.length s.replies ∧
        rs.length < s.recipients.length) →
      Q ⟨statuses opts c.verb s.enhancedStatusCodes s.recipients rs, some e⟩ s')
    (hE : ∀ e s', (Uncanceled env → Broken s.replies ∧ s'.state = .closed ∧ s.recipients ≠ []) →
      E (some e) s') :
  wp (finalReads opts env s.recipients c) Q E s
  := by
  cases c with
  | data => apply wp_lmtpReplies_stream hQ hfailed
  | bdat =>
    have hne := hne rfl
    rcases hrecipients : s.recipients with _ | ⟨recipient, recipients⟩
    · exact absurd hrecipients hne
    rw [hrecipients] at hQ hfailed
    rw [finalReads, wp_bind, wp_mapErr]
    apply wp_read_stream
    · intro r replies w hr hcode
      have hanswered : answered (recipients.length + 1) s.replies
          = r :: answered recipients.length replies := by
        rw [hr, answered_item hcode]
      rw [wp_bind, wp_update, wp_bind, wp_unlessClosed,
        if_neg (by simpa [Conn.closed] using hopen)]
      simp only [wp_bind, wp_read]
      apply wp_lmtpReplies_stream
      · intro rs replies' w' log hlen hrs hreplies
        have hreplies : replies = Feed.items rs ++ replies' := hreplies
        apply hQ (r :: rs) replies' w' log (by rw [List.length_cons, hlen, List.length_cons])
        · rw [List.length_cons, hanswered, ← hrs]
          rfl
        · rw [hr, hreplies, Feed.items_cons, List.cons_append]
      · intro rs e s' hrs hclosed huncanceled
        apply hfailed (r :: rs) e s' _ hclosed
        · intro h
          obtain ⟨hrs, hlen⟩ := huncanceled h
          rw [hrs] at hlen
          rw [List.length_cons, List.length_cons, hanswered, hrs]
          exact ⟨rfl, Nat.succ_lt_succ hlen⟩
        · rw [List.length_cons, hanswered]
          exact List.cons_prefix_cons.mpr ⟨rfl, hrs⟩
    · intro e s' hbroken
      apply hE
      intro huncanceled
      obtain ⟨hbroken, hclosed⟩ := hbroken huncanceled
      exact ⟨hbroken, hclosed, hne⟩

end Rules

/-! ### Attribution -/

/-- What is expected of the result `x` and the connection `s'` after the final replies, where
`s` is the connection before them and `w` the world in which the client looks for a further
reply. -/
structure Attributed (opts : Options) (env : Env φ ω) (c : Completion) (s : Conn φ ω) (w : ω)
    (x : Returned φ) (s' : Conn φ ω) : Prop where
  /-- Every entry is the reply at its position, for the recipient at its position. -/
  entries : x.result <+: statuses opts c.verb s.enhancedStatusCodes s.recipients
    (answered s.recipients.length s.replies)
  /-- If the stream fails, the entries before the failure are returned. -/
  failed : Uncanceled env → (answered s.recipients.length s.replies).length < s.recipients.length →
    x.result = statuses opts c.verb s.enhancedStatusCodes s.recipients
      (answered s.recipients.length s.replies) ∧
    x.err ≠ none ∧ s'.state = .closed
  /-- Without an error all replies were read, and there was no further one. -/
  full : x.err = none → (answered s.recipients.length s.replies).length = s.recipients.length ∧
    s.replies = Feed.items (answered s.recipients.length s.replies) ++ s'.replies ∧
    x.result = statuses opts c.verb s.enhancedStatusCodes s.recipients
      (answered s.recipients.length s.replies) ∧
    (env.extraReply w).1 = false
  /-- Without an error the transaction is closed and the connection is as before it, unless
  the watcher has closed it. -/
  stays : x.err = none → (c = .data → (env.watcher (env.extraReply w).2).1 = false) →
    s'.state = s.transactionBase ∧ s'.recipients = []
  /-- If all replies come and no further one, there is no error. -/
  succeeds : Uncanceled env →
    (answered s.recipients.length s.replies).length = s.recipients.length →
    (env.extraReply w).1 = false → x.err = none

theorem statuses_prefix {enhanced : Bool} {rs' : List Reply} (h : rs <+: rs') :
  statuses opts command enhanced recipients rs <+: statuses opts command enhanced recipients rs'
  := by
  obtain ⟨more, rfl⟩ := h
  induction rs generalizing recipients with
  | nil =>
    rw [statuses, List.zipWith_nil_right]
    apply List.nil_prefix
  | cons r rs ih =>
    cases recipients with
    | nil => apply List.prefix_refl
    | cons recipient recipients => exact List.cons_prefix_cons.mpr ⟨rfl, ih⟩

theorem returning_of_wp {m : Call φ ω (Returned φ)}
    (h : wp m Q (fun e s' => ∃ e', e = some e' ∧ Q ⟨[], some e'⟩ s') s) :
  ∃ x s', returning m s = (.ok x, s') ∧ Q x s'
  := by
  simp only [wp] at h
  rcases hm : m s with ⟨x | e | _, s'⟩ <;> rw [hm] at h
  · exact ⟨x, s', by simp [returning, Exec.attempt, Bind.bind, hm, Pure.pure], h⟩
  · obtain ⟨_, ⟨⟩, h⟩ := h
    exact ⟨_, s', by simp [returning, Exec.attempt, Bind.bind, hm, Pure.pure], h⟩
  · obtain ⟨_, h, -⟩ := h
    cases h

section

variable {opts : Options} {env : Env φ ω} {c : Completion} {s s' : Conn φ ω} {w : ω}

theorem attributed_failed {e : ClientError φ} (hrs : rs <+: answered s.recipients.length s.replies)
    (huncanceled : Uncanceled env → rs = answered s.recipients.length s.replies ∧
      rs.length < s.recipients.length ∧ s'.state = .closed) :
  Attributed opts env c s w
    ⟨statuses opts c.verb s.enhancedStatusCodes s.recipients rs, some e⟩ s'
  where
  entries := by
    apply statuses_prefix hrs
  failed h _ := by
    obtain ⟨hrs, -, hclosed⟩ := huncanceled h
    rw [hrs]
    exact ⟨rfl, by simp, hclosed⟩
  full := by simp
  stays := by simp
  succeeds h hlen _ := by
    obtain ⟨hrs, hless, -⟩ := huncanceled h
    rw [hrs, hlen] at hless
    exact absurd hless (Nat.lt_irrefl _)

theorem wp_lmtpEnd_attributed {E : Option (ClientError φ) → Conn φ ω → Prop} {log : List WireEvent}
    (hopen : s.state ≠ .closed) (hlen : rs.length = s.recipients.length)
    (hrs : answered s.recipients.length s.replies = rs)
    (hreplies : s.replies = Feed.items rs ++ replies) :
  wp
    (lmtpEnd env c.verb (finalDone env c)
      ⟨statuses opts c.verb s.enhancedStatusCodes s.recipients rs, none⟩)
    (Attributed opts env c s w) E
    { afterReads s c with world := w, replies := replies, log := log }
  := by
  have hlen : (answered s.recipients.length s.replies).length = s.recipients.length := by
    rw [hrs, hlen]
  have hnever {P : Prop}
      (h : (answered s.recipients.length s.replies).length < s.recipients.length) : P := by
    rw [hlen] at h
    exact absurd h (Nat.lt_irrefl _)
  have hfull (s' : Conn φ ω) (hs' : s'.replies = replies) (hextra : (env.extraReply w).1 = false)
      (hstays : (c = .data → (env.watcher (env.extraReply w).2).1 = false) →
        s'.state = s.transactionBase ∧ s'.recipients = []) :
      Attributed opts env c s w
        ⟨statuses opts c.verb s.enhancedStatusCodes s.recipients rs, none⟩ s' := by
    refine ⟨?_, fun _ => hnever, fun _ => ⟨hlen, ?_, ?_, hextra⟩, fun _ => hstays, fun _ _ _ => rfl⟩
    · exact hrs ▸ List.prefix_refl _
    · rw [hrs, hs', hreplies]
    · rw [hrs]
  rw [lmtpEnd, wp_bind, wp_outside, wp_ite]
  constructor
  · intro hextra
    refine ⟨List.nil_prefix, fun _ => hnever, by simp, by simp, fun _ _ hno => ?_⟩
    rw [hno] at hextra
    cases hextra
  intro hno
  have hextra : (env.extraReply w).1 = false := Bool.not_eq_true _ ▸ hno
  rw [wp_bind]
  cases c with
  | data =>
    rw [finalDone, wp_bind, watched, wp_bind, wp_outside, wp_ite]
    constructor
    · intro hwatcher
      apply hfull _ rfl hextra
      intro hquiet
      rw [hquiet rfl] at hwatcher
      cases hwatcher
    · intro _
      rw [wp_pure, wp_unlessClosed,
        if_neg (by simpa [Conn.closed, afterReads] using hopen)]
      apply hfull _ rfl hextra
      intro _
      exact ⟨rfl, rfl⟩
  | bdat =>
    apply hfull _ rfl hextra
    intro _
    exact ⟨rfl, rfl⟩

end

theorem wp_finalCall_attributed (hlmtp : opts.lmtp = true) (env : Env φ ω) (c : Completion)
    (hopen : s.state ≠ .closed) (hne : c = .bdat → s.recipients ≠ []) :
  wp (finalCall opts env s.recipients c)
    (Attributed opts env c s (finalReads opts env s.recipients c s).2.world)
    (fun e s' => ∃ e', e = some e' ∧
      Attributed opts env c s (finalReads opts env s.recipients c s).2.world ⟨[], some e'⟩ s') s
  := by
  rw [finalCall_eq hlmtp, wp_bind]
  apply Exec.wp_left
  apply wp_finalReads hopen hne
  · intro rs replies w log hlen hrs hreplies hleft
    rw [hleft]
    apply wp_lmtpEnd_attributed hopen hlen hrs hreplies
  · intro rs e s' hrs hclosed huncanceled _
    apply attributed_failed hrs
    intro h
    obtain ⟨hall, hless⟩ := huncanceled h
    exact ⟨hall, hless, hclosed⟩
  · intro e s' hbroken _
    refine ⟨e, rfl, ?_⟩
    have h : Attributed opts env c s (finalReads opts env s.recipients c s).2.world
        ⟨statuses opts c.verb s.enhancedStatusCodes s.recipients [], some e⟩ s' := by
      apply attributed_failed List.nil_prefix
      intro huncanceled
      obtain ⟨hbroken, hclosed, hne⟩ := hbroken huncanceled
      exact ⟨(answered_broken hbroken).symm, List.length_pos_iff.mpr hne, hclosed⟩
    rw [statuses, List.zipWith_nil_right] at h
    exact h

/-- Two recipients, of which the second one is not answered any more. -/
def halfAnswered : Conn Unit Unit :=
  Conn.scripted .transaction [] [ascii "a", ascii "b"] [(250, "ok")] ()

/-- A world in which the watcher of the context has closed the connection meanwhile. -/
def Env.watchful : Env φ ω := { Env.plain with watcher := fun w => (true, w) }

/-- One recipient, whose reply comes. -/
def fullyAnswered : Conn Unit Unit := Conn.scripted .transaction [] [ascii "a"] [(250, "ok")] ()

end GoSmtp.Client
