import GoSmtp.Client.PlainRun

/-!
# The status of a transaction

The contract of the calls that complete a transaction, as `smtpclient/finalstatus.go` states
it: without an error there is a status for every recipient; with `ErrFinalStatusUnknown` the
completing operation was begun, and the result is what the peer said before the failure;
with any other error nothing was accepted.

The last clause fails for SMTP if the peer accepts the message with a positive reply other
than 250, since the client takes it for a refusal.  For BURL the clause before it fails as
well: a URL that cannot be sent, or a cancellation at the last moment, is reported as an
unknown status although nothing was written.
-/

namespace GoSmtp.Client

variable {φ ω : Type}
variable {Q : Reply → Conn φ ω → Prop} {E : Option (ClientError φ) → Conn φ ω → Prop}
variable {m : Call φ ω (Returned φ)} {new : List WireEvent} {rs : List Reply}
  {recipients : List Bytes} {chunk : Bytes} {size : Nat} {o : DataOptions}
variable {command : Bytes} {source : Source φ} {r : Reply} {s' : Conn φ ω}

/-! ### The contract -/

/-- The replies among the events. -/
def repliesOf (new : List WireEvent) : List Reply :=
  new.filterMap fun
    | .reply r => some r
    | _ => none

/-- The replies after the completing operation was begun. -/
def finals : List WireEvent → List Reply
  | [] => []
  | .completing :: new => repliesOf new
  | _ :: new => finals new

/-- A 2yz reply. -/
def Reply.Positive (r : Reply) : Prop := 200 ≤ r.code ∧ r.code < 300

/-- What a call may return from the connection `s`, if the events `new` happen during the
call. -/
structure FinalStatus (opts : Options) (command : Bytes) (s : Conn φ ω) (x : Returned φ)
    (new : List WireEvent) : Prop where
  /-- Without an error every recipient has a status, from a final reply. -/
  complete : x.err = none →
    x.result.map (·.recipient) = s.recipients ∧
    ∀ p ∈ x.result, ∃ r ∈ finals new,
      p = recipientResult opts command s.enhancedStatusCodes r p.recipient
  /-- The status is unknown only if the completing operation was begun, and the result is
  what was received. -/
  unknown : ∀ e, x.err = some e → e.isUnknown = true →
    .completing ∈ new ∧ ∃ rs, rs <+: finals new ∧
      x.result = statuses opts command s.enhancedStatusCodes s.recipients rs
  /-- With any other error there is no result, and no positive final reply. -/
  refused : ∀ e, x.err = some e → e.isUnknown = false →
    x.result = [] ∧ ∀ r ∈ finals new, ¬ r.Positive

/-- The contract, for a call after which the log is `log`. -/
def Status (opts : Options) (command : Bytes) (s : Conn φ ω) (x : Returned φ)
    (log : List WireEvent) : Prop :=
  ∃ new, log = s.log ++ new ∧ FinalStatus opts command s x new

/-- The call returns, and what it returns meets the contract. -/
def KeepsContract (opts : Options) (command : Bytes) (m : Call φ ω (Returned φ)) (s : Conn φ ω) :
    Prop :=
  wp m (fun x s' => Status opts command s x s'.log) (fun _ _ => False) s

/-! ### Final replies -/

@[simp]
theorem repliesOf_append (a b : List WireEvent) :
  repliesOf (a ++ b) = repliesOf a ++ repliesOf b
  := List.filterMap_append

@[simp]
theorem repliesOf_replies (rs : List Reply) :
  repliesOf (rs.map .reply) = rs
  := by
  simp [repliesOf, List.filterMap_map]

theorem finals_begun {a : List WireEvent} (ha : .completing ∉ a) (b : List WireEvent) :
  finals (a ++ .completing :: b) = repliesOf b
  := by
  induction a with
  | nil => rfl
  | cons e a ih =>
    simp only [List.mem_cons, not_or] at ha
    cases e with
    | completing => exact absurd rfl ha.1
    | sent q n => apply ih ha.2
    | reply r => apply ih ha.2
    | opened => apply ih ha.2

theorem finals_of_not_mem (h : .completing ∉ new) :
  finals new = []
  := by
  induction new with
  | nil => rfl
  | cons e new ih =>
    simp only [List.mem_cons, not_or] at h
    cases e with
    | completing => exact absurd rfl h.1
    | sent q n => apply ih h.2
    | reply r => apply ih h.2
    | opened => apply ih h.2

namespace FinalStatus

variable {opts : Options} {command : Bytes} {s : Conn φ ω} {new a b : List WireEvent}
  {e : ClientError φ}

theorem before (he : e.isUnknown = false) (hnew : .completing ∉ new) :
  FinalStatus opts command s ⟨[], some e⟩ new
  := by
  constructor
  · simp
  · intro e' he' hunknown
    cases he'
    rw [he] at hunknown
    cases hunknown
  · intro e' _ _
    rw [finals_of_not_mem hnew]
    exact ⟨rfl, by simp⟩

theorem lost (he : e.isUnknown = true) (hnew : .completing ∈ new) :
  FinalStatus opts command s ⟨[], some e⟩ new
  := by
  constructor
  · simp
  · intro e' _ _
    use hnew, [], List.nil_prefix
    simp [statuses]
  · intro e' he' hknown
    cases he'
    rw [he] at hknown
    cases hknown

theorem part (he : e.isUnknown = true) (ha : .completing ∉ a) (hb : rs <+: repliesOf b) :
  FinalStatus opts command s
    ⟨statuses opts command s.enhancedStatusCodes s.recipients rs, some e⟩ (a ++ .completing :: b)
  := by
  constructor
  · simp
  · intro e' _ _
    use (by simp), rs
    rw [finals_begun ha]
    exact ⟨hb, rfl⟩
  · intro e' he' hknown
    cases he'
    rw [he] at hknown
    cases hknown

theorem rejected (he : e.isUnknown = false) (ha : .completing ∉ a)
    (hb : repliesOf b = [r]) (hr : ¬ r.Positive) :
  FinalStatus opts command s ⟨[], some e⟩ (a ++ .completing :: b)
  := by
  constructor
  · simp
  · intro e' he' hunknown
    cases he'
    rw [he] at hunknown
    cases hunknown
  · intro e' _ _
    rw [finals_begun ha, hb]
    use rfl
    simpa using hr

theorem shared (ha : .completing ∉ a) (hb : repliesOf b = [r]) :
  FinalStatus opts command s
    ⟨s.recipients.map (recipientResult opts command s.enhancedStatusCodes r), none⟩
    (a ++ .completing :: b)
  := by
  constructor
  · intro _
    constructor
    · simp [recipientResult, Function.comp_def]
    · rw [finals_begun ha, hb]
      intro p hp
      obtain ⟨recipient, -, rfl⟩ := List.mem_map.mp hp
      use r, List.mem_singleton_self r
      rfl
  · simp
  · simp

theorem each (hrs : rs.length = s.recipients.length) (ha : .completing ∉ a)
    (hb : repliesOf b = rs) :
  FinalStatus opts command s
    ⟨statuses opts command s.enhancedStatusCodes s.recipients rs, none⟩ (a ++ .completing :: b)
  := by
  constructor
  · intro _
    constructor
    · apply List.ext_getElem <;> simp [statuses, recipientResult, hrs]
    · rw [finals_begun ha, hb]
      intro p hp
      obtain ⟨i, hi, rfl⟩ := List.mem_iff_getElem.mp hp
      simp only [statuses, List.length_zipWith] at hi
      use rs[i], List.getElem_mem _
      simp [statuses, recipientResult]
  · simp
  · simp

end FinalStatus

/-! ### The final stage -/

/-- The completing operation was not begun. -/
def Unbegun (s : Conn φ ω) (log : List WireEvent) : Prop :=
  ∃ new, log = s.log ++ new ∧ .completing ∉ new

/-- The completing operation was begun, and its replies so far are `rs`. -/
def Begun (s : Conn φ ω) (rs : List Reply) (log : List WireEvent) : Prop :=
  ∃ a b, log = s.log ++ (a ++ .completing :: b) ∧ .completing ∉ a ∧ repliesOf b = rs

section Stages

variable {opts : Options} {env : Env φ ω} {command : Bytes} {s : Conn φ ω} {log log' : List WireEvent}
  {rs : List Reply} {e : ClientError φ}

theorem unbegun_self (s : Conn φ ω) :
  Unbegun s s.log
  := ⟨[], (List.append_nil _).symm, List.not_mem_nil⟩

theorem Unbegun.status (h : Unbegun s log) (he : e.isUnknown = false) :
  Status opts command s ⟨[], some e⟩ log
  := by
  obtain ⟨new, rfl, hnew⟩ := h
  exact ⟨new, rfl, .before he hnew⟩

theorem Unbegun.append (h : Unbegun s log) (hnew : .completing ∉ new) :
  Unbegun s (log ++ new)
  := by
  obtain ⟨new', rfl, hnew'⟩ := h
  use new' ++ new, List.append_assoc _ _ _
  simp [hnew, hnew']

theorem Unbegun.begun (h : Unbegun s log) :
  Begun s [] (log ++ [.completing])
  := by
  obtain ⟨new, rfl, hnew⟩ := h
  use new, [], List.append_assoc _ _ _, hnew
  rfl

theorem Begun.append (h : Begun s rs log) (new : List WireEvent) :
  Begun s (rs ++ repliesOf new) (log ++ new)
  := by
  obtain ⟨a, b, rfl, ha, rfl⟩ := h
  refine ⟨a, b ++ new, ?_, ha, repliesOf_append b new⟩
  simp

theorem Begun.lost (h : Begun s rs log) (hlog : log <+: log') (he : e.isUnknown = true) :
  Status opts command s ⟨[], some e⟩ log'
  := by
  obtain ⟨a, b, rfl, -, -⟩ := h
  obtain ⟨c, rfl⟩ := hlog
  refine ⟨a ++ .completing :: b ++ c, List.append_assoc _ _ _, .lost he ?_⟩
  simp

/-- What the contract asks of a call that returns no result. -/
def Fails (opts : Options) (command : Bytes) (s : Conn φ ω) (e : Option (ClientError φ))
    (s' : Conn φ ω) : Prop :=
  ∃ e', e = some e' ∧ Status opts command s ⟨[], some e'⟩ s'.log

theorem keepsContract_returning
    (h : wp m (fun x s' => Status opts command s x s'.log) (Fails opts command s) s) :
  KeepsContract opts command (returning m) s
  := by
  rw [KeepsContract, returning, wp_bind, wp_attempt]
  apply wp_mono h
  · intro x s' hx
    exact hx
  · rintro _ s' ⟨e, rfl, he⟩
    exact he

/-- The single final reply decides about all recipients, unless it is positive and not
250. -/
theorem wp_sharedFinal (hlog : Begun s [r] s'.log)
    (hext : s'.enhancedStatusCodes = s.enhancedStatusCodes) (hr : r.Positive → r.code = 250) :
  wp (sharedResult opts command s.recipients r)
    (fun x s' => Status opts command s x s'.log)
    (Fails opts command s) s'
  := by
  obtain ⟨a, b, hlog, ha, hb⟩ := hlog
  apply wp_sharedResult
  · intro _
    rw [hext]
    exact ⟨_, hlog, .shared ha hb⟩
  · intro e hcode he
    exact ⟨e, rfl, _, hlog, .rejected he ha hb fun hpos => hcode (hr hpos)⟩

theorem statuses_append {enhanced : Bool} (recipients' : List Bytes)
    (h : rs.length = recipients.length) (rs' : List Reply) :
  statuses opts command enhanced (recipients ++ recipients') (rs ++ rs')
    = statuses opts command enhanced recipients rs ++ statuses opts command enhanced recipients' rs'
  := List.zipWith_append h.symm

/-- The final replies of LMTP decide about a recipient each.  The replies for `done` are
already there. -/
theorem wp_eachFinal {done : List Bytes} {m : Call φ ω Unit}
    (hm : ∀ s : Conn φ ω, wp m (fun _ s' => s'.log = s.log) (fun _ _ => False) s)
    (hrecipients : s.recipients = done ++ recipients) (hdone : rs.length = done.length)
    (hlog : Begun s rs s'.log) (hext : s'.enhancedStatusCodes = s.enhancedStatusCodes) :
  wp (do
      let x ← lmtpReplies opts env command
        (statuses opts command s.enhancedStatusCodes done rs) recipients
      lmtpEnd env command m x)
    (fun x s' => Status opts command s x s'.log) (Fails opts command s) s'
  := by
  rw [wp_bind]
  apply wp_lmtpReplies
  · intro rs' replies w hlen _
    rw [hext, ← statuses_append recipients hdone, ← hrecipients]
    have hlog := hlog.append (rs'.map .reply)
    rw [repliesOf_replies] at hlog
    apply wp_lmtpEnd
    · intro h
      exact absurd rfl h
    · intro _ w
      apply wp_mono (hm _)
      · intro _ s'' hs''
        obtain ⟨a, b, hlog, ha, hb⟩ := hlog
        rw [hs'']
        refine ⟨_, hlog, .each ?_ ha hb⟩
        rw [List.length_append, hrecipients, List.length_append, hdone, hlen]
      · simp
    · intro e w he
      apply hlog.lost (List.prefix_refl _) he
  · intro rs' e w replies log hlen hpre he
    rw [hext, ← statuses_append recipients hdone, ← hrecipients]
    apply wp_lmtpEnd
    · intro _
      obtain ⟨a, b, hlog, ha, rfl⟩ := hlog
      obtain ⟨c, rfl⟩ := hpre
      refine ⟨a ++ .completing :: (b ++ rs'.map .reply ++ c), ?_, .part he ha ?_⟩
      · rw [hlog]
        simp
      · simp
    · intro h
      cases h
    · intro e w he
      apply hlog.lost _ he
      exact (List.prefix_append _ _).trans hpre

end Stages

/-! ### DATA -/

section Data

variable {opts : Options} {env : Env φ ω} {s s' : Conn φ ω}

/-- The reply of the peer in the place of the final one, if nothing fails on this side. -/
structure DataAnswered (s : Conn φ ω) (source : Source φ) (r : Reply) : Prop where
  state : s.state = .transaction
  recipients : s.recipients ≠ []
  source : source.firstError = .eof
  replies : ∃ first rest, s.replies = .item first :: .item r :: rest ∧ first.code = 354

theorem wp_executeUnbegun {c : QueuedCommand} (hc : c.completes = false) (hlog : Unbegun s s'.log)
    (hQ : ∀ r replies w log, s'.replies = .item r :: replies → Unbegun s log →
      Q r { s' with world := w, replies := replies, log := log }) :
  wp (executeOne opts env c) Q (Fails opts command s) s'
  := by
  have hreported (e : ClientError φ) : reported c e = e := by
    rw [reported, hc]
    rfl
  have hnoted : Unbegun s (s'.log ++ noted c.completes) := by
    rw [hc]
    apply hlog.append List.not_mem_nil
  have hreply (r : Reply) :
      Unbegun s (s'.log ++ noted c.completes ++ [.sent c.upper.request 1] ++ [.reply r]) := by
    rw [List.append_assoc]
    apply hnoted.append
    simp
  apply wp_executeAny
  · intro r replies w _ _ hr
    apply hQ r replies w _ hr (hreply r)
  · intro e w he
    exact ⟨e, rfl, hlog.status he⟩
  · intro _ _ w
    rw [hreported]
    exact ⟨_, rfl, hlog.status rfl⟩
  · intro _ _ e w he
    rw [hreported]
    exact ⟨e, rfl, hlog.status (ClientError.isUnknown_of_isLocal he)⟩
  · intro e s'' new he hlog hnew
    rw [hreported]
    have hlog : Unbegun s s''.log := by
      rw [hlog]
      apply hnoted.append hnew
    exact ⟨e, rfl, hlog.status (ClientError.isUnknown_of_isLocal he)⟩
  · intro e s'' r _ _ hlog
    have hlog : Unbegun s s''.log := by
      rw [hlog]
      apply hreply
    rw [hreported]
    exact ⟨_, rfl, hlog.status rfl⟩

theorem wp_readFinal (hlog : Begun s [] s'.log)
    (hQ : ∀ r replies w log, s'.replies = .item r :: replies → Begun s [r] log →
      Q r { s' with world := w, replies := replies, log := log }) :
  wp (Exec.mapErr (classifyFinalReplyFailure opts command) (read opts env command)) Q
    (Fails opts command s) s'
  := by
  have hreply (r : Reply) : Begun s [r] (s'.log ++ [.reply r]) := hlog.append [.reply r]
  have hlocal {e : ClientError φ} (he : e.isLocal) :
      (classifyFinalReplyFailure opts command e).isUnknown = true := by
    rw [classifyFinalReplyFailure]
    split
    · apply ClientError.isUnknown_unknownStream
    · apply ClientError.unknown_of_isLocal he
  rw [wp_mapErr]
  apply wp_readAny
  · intro r replies w hr _
    apply hQ r replies w _ hr (hreply r)
  · intro _ w
    exact ⟨_, rfl, hlog.lost (List.prefix_refl _) (hlocal rfl)⟩
  · rintro e w replies log he hpre
    refine ⟨_, rfl, hlog.lost ?_ (hlocal he)⟩
    rcases hpre with rfl | ⟨r, rfl⟩
    · apply List.prefix_refl
    · apply List.prefix_append
  · intro e r replies w hr he
    rw [Option.map_some, classifyFinalReplyFailure]
    split
    · exact ⟨_, rfl, hlog.lost (List.prefix_append _ _) (ClientError.isUnknown_unknownStream _ _)⟩
    · -- For SMTP a 421 is a reply: it refuses the message.
      obtain ⟨a, b, hnew, ha, hb⟩ := hreply r
      refine ⟨.reply command e, ?_, _, hnew, .rejected rfl ha hb ?_⟩
      · simp [ClientError.unknown, he]
      · simp [Reply.Positive, hr]

theorem wp_finishStatus (hlog : Begun s [] s'.log)
    (hext : s'.enhancedStatusCodes = s.enhancedStatusCodes)
    (hr : opts.lmtp = false → ∀ r rest, s'.replies = .item r :: rest → r.Positive → r.code = 250) :
  wp (finishData opts env s.recipients)
    (fun x s' => Status opts (ascii "DATA") s x s'.log) (Fails opts (ascii "DATA") s) s'
  := by
  rw [finishData]
  split
  · have hrecipients : s.recipients = [] ++ s.recipients := rfl
    apply wp_eachFinal _ hrecipients rfl hlog hext
    intro s
    rw [wp_bind]
    apply wp_watched
    · intro w
      rw [wp_unlessClosed]
      split <;> rfl
    · intro w
      rw [wp_unlessClosed]
      split <;> rfl
  · next hlmtp =>
    have hclassify : classifyFinalReplyFailure opts (ascii "DATA")
        = (ClientError.unknown (ascii "DATA") : ClientError φ → ClientError φ) := by
      funext e
      rw [classifyFinalReplyFailure, if_neg hlmtp]
    rw [wp_bind, ← hclassify]
    apply wp_readFinal hlog
    intro r replies w log hreplies hlog
    have hr := hr (by simpa using hlmtp) r replies hreplies
    rw [wp_bind]
    apply wp_watched
    · intro w
      rw [wp_bind, wp_unlessClosed]
      split <;> exact wp_sharedFinal hlog hext hr
    · intro w
      rw [wp_bind, wp_unlessClosed]
      split <;> exact wp_sharedFinal hlog hext hr

theorem wp_sendStatus
    (hr : opts.lmtp = false → ∀ r, DataAnswered s source r → r.Positive → r.code = 250) :
  wp (sendData opts env source)
    (fun x s' => Status opts (ascii "DATA") s x s'.log) (Fails opts (ascii "DATA") s) s
  := by
  have hself := unbegun_self s
  rw [sendData, wp_bind, wp_canceled, wp_ite]
  refine ⟨fun _ => ⟨_, rfl, hself.status rfl⟩, fun _ => ?_⟩
  rw [wp_bind]
  apply wp_requireState
  · intro hstate
    have hstate : s.state = .transaction := List.mem_singleton.mp hstate
    rw [wp_bind, wp_read, wp_ite]
    refine ⟨fun _ => ⟨_, rfl, hself.status rfl⟩, fun hrecipients => ?_⟩
    rw [wp_bind]
    refine wp_executeUnbegun rfl hself fun first replies w log hreplies hlog => ?_
    rw [wp_bind]
    apply wp_expectReply
    · intro hfirst
      rw [wp_bind]
      apply wp_copyContent (Nat.lt_succ_self _)
      · intro heof d w
        rw [wp_bind]
        apply wp_endContent
        · intro w
          apply wp_finishStatus (s := s)
          · exact hlog.begun.append [_]
          · rfl
          · intro hlmtp r rest hrest
            apply hr hlmtp r
            constructor
            · exact hstate
            · simpa [hlmtp] using hrecipients
            · exact heof
            · exact ⟨first, rest, hreplies.trans (congrArg _ hrest), List.mem_singleton.mp hfirst⟩
        · intro e w log' he hpre
          exact ⟨_, rfl, hlog.begun.lost hpre he⟩
      · intro e w he
        exact ⟨_, rfl, hlog.status (ClientError.isUnknown_of_isLocal he)⟩
    · intro e _ he
      exact ⟨_, rfl, hlog.status he⟩
  · intro _
    exact ⟨_, rfl, hself.status rfl⟩

/-! ### BDAT -/

/-- The reply of the peer in the place of the final one, if nothing fails on this side: all
chunks before the last one were accepted. -/
inductive LastAnswered (size : Nat) : Source φ → Feed Reply φ → Reply → Prop where
  | last {source rest : Source φ} {chunk : Bytes} {e : SourceError φ} {r : Reply}
      {replies : Feed Reply φ} (hread : source.readFull size = (chunk, some e, rest))
      (he : ∀ e', e ≠ .other e') : LastAnswered size source (.item r :: replies) r
  | next {source rest : Source φ} {chunk : Bytes} {first r : Reply} {replies : Feed Reply φ}
      (hread : source.readFull size = (chunk, none, rest)) (hfirst : first.code = 250)
      (hrest : LastAnswered size rest replies r) :
      LastAnswered size source (.item first :: replies) r

theorem wp_readUnbegun (hlog : Unbegun s s'.log)
    (hQ : ∀ r replies w log, s'.replies = .item r :: replies → Unbegun s log →
      Q r { s' with world := w, replies := replies, log := log }) :
  wp (read opts env command) Q (Fails opts command s) s'
  := by
  have hreply (r : Reply) : Unbegun s (s'.log ++ [.reply r]) := hlog.append (by simp)
  apply wp_readAny
  · intro r replies w hr _
    apply hQ r replies w _ hr (hreply r)
  · intro _ w
    exact ⟨_, rfl, hlog.status rfl⟩
  · rintro e w replies log he (rfl | ⟨r, rfl⟩)
    · exact ⟨_, rfl, hlog.status (ClientError.isUnknown_of_isLocal he)⟩
    · exact ⟨_, rfl, (hreply r).status (ClientError.isUnknown_of_isLocal he)⟩
  · intro e r replies w _ _
    exact ⟨_, rfl, (hreply r).status rfl⟩

theorem wp_chunkStatus (hlen : chunk.length ≤ maxBDATChunkSize) (hlog : Unbegun s s'.log)
    (hQ : ∀ r replies w log, s'.replies = .item r :: replies → Unbegun s log →
      Q r { s' with world := w, replies := replies, log := log }) :
  wp (exchangeChunk opts env s.recipients chunk false) Q (Fails opts (ascii "BDAT") s) s'
  := by
  simp only [exchangeChunk, Bool.false_eq_true, if_false, wp_bind, wp_mapErr,
    Option.map_id']
  have hsent : Unbegun s (s'.log ++ noted false ++ [.sent (.chunk chunk false) 1]) := by
    rw [List.append_assoc]
    apply hlog.append
    simp [noted]
  apply wp_writeBDATChunk hlen
  · intro w
    rw [wp_mapErr, Option.map_id_fun']
    exact wp_readUnbegun hsent hQ
  · rintro e w log he (rfl | rfl)
    · refine ⟨e, rfl, Unbegun.status ?_ (ClientError.isUnknown_of_isLocal he)⟩
      apply hlog.append
      simp [noted]
    · exact ⟨e, rfl, hsent.status (ClientError.isUnknown_of_isLocal he)⟩

theorem wp_bdatFinalStatus (hrecipients : s.recipients ≠ [])
    (hlog : Begun s [r] s'.log) (hext : s'.enhancedStatusCodes = s.enhancedStatusCodes)
    (hr : opts.lmtp = false → r.Positive → r.code = 250) :
  wp (bdatFinalReplies opts env s.recipients r)
    (fun x s' => Status opts (ascii "BDAT") s x s'.log) (Fails opts (ascii "BDAT") s) s'
  := by
  rw [bdatFinalReplies.eq_def]
  split
  · obtain ⟨recipient, recipients, hcons⟩ := List.exists_cons_of_ne_nil hrecipients
    rw [hcons]
    rw [wp_bind, wp_read, hext]
    have hcons : s.recipients = [recipient] ++ recipients := hcons
    refine wp_eachFinal (fun _ => ?_) hcons rfl hlog hext
    rw [wp_pure]
  · next hlmtp => exact wp_sharedFinal hlog hext (hr (by simpa using hlmtp))

theorem wp_lastStatus (hlen : chunk.length ≤ maxBDATChunkSize) (hrecipients : s.recipients ≠ [])
    (hlog : Unbegun s s'.log) (hext : s'.enhancedStatusCodes = s.enhancedStatusCodes)
    (hr : opts.lmtp = false → ∀ r rest, s'.replies = .item r :: rest → r.Positive → r.code = 250) :
  wp (do
      let r ← exchangeChunk opts env s.recipients chunk true
      finishBDAT opts env s.recipients r)
    (fun x s' => Status opts (ascii "BDAT") s x s'.log) (Fails opts (ascii "BDAT") s) s'
  := by
  simp only [exchangeChunk, if_true, wp_bind, wp_mapErr]
  have hbegun : Begun s [] (s'.log ++ noted true) := hlog.begun
  apply wp_writeBDATChunk hlen
  · intro w
    refine wp_readFinal (hbegun.append [_]) fun r replies w log hreplies hlog => ?_
    have hr (hlmtp : opts.lmtp = false) := hr hlmtp r replies hreplies
    rw [finishBDAT, wp_bind, wp_update, wp_bind, wp_unlessClosed]
    split <;> exact wp_bdatFinalStatus hrecipients hlog hext hr
  · intro e w log he hlog
    refine ⟨_, rfl, hbegun.lost ?_ (ClientError.unknown_of_isLocal he _)⟩
    rcases hlog with rfl | rfl
    · apply List.prefix_refl
    · apply List.prefix_append

/-- The reply of the peer in the place of the final one, if nothing fails on this side. -/
structure ChunksAnswered (s : Conn φ ω) (source : Source φ) (size : Nat) (r : Reply) : Prop where
  state : s.state = .transaction
  recipients : s.recipients ≠ []
  replies : LastAnswered size source s.replies r

/-- The chunk loop, before the last chunk: `source'` is what is left of the source. -/
structure Sending (s : Conn φ ω) (source : Source φ) (size : Nat) (source' : Source φ)
    (s' : Conn φ ω) : Prop where
  log : Unbegun s s'.log
  ext : s'.enhancedStatusCodes = s.enhancedStatusCodes
  replies : ∀ r, LastAnswered size source' s'.replies r → LastAnswered size source s.replies r

theorem wp_bdatStatus (hpos : 0 < size) (hsize : size ≤ maxBDATChunkSize)
    (hr : opts.lmtp = false → ∀ r, ChunksAnswered s source size r → r.Positive → r.code = 250) :
  wp (bdat opts env source size)
    (fun x s' => Status opts (ascii "BDAT") s x s'.log) (Fails opts (ascii "BDAT") s) s
  := by
  have hself := unbegun_self s
  rw [bdat, wp_bind, wp_canceled, wp_ite]
  refine ⟨fun _ => ⟨_, rfl, hself.status rfl⟩, fun _ => ?_⟩
  rw [wp_bind]
  apply wp_requireState
  · intro hstate
    have hstate : s.state = .transaction := List.mem_singleton.mp hstate
    rw [wp_bind, wp_read, wp_ite]
    refine ⟨fun _ => ⟨_, rfl, hself.status rfl⟩, fun hrecipients => ?_⟩
    have hrecipients : s.recipients ≠ [] := by simpa using hrecipients
    apply wp_bdatLoop (Sending s source size) hpos (Nat.lt_succ_self _)
    · exact ⟨hself, rfl, fun _ => id⟩
    · rintro _ _ _ ⟨hlog, hext, hfeed⟩
      exact ⟨hlog, hext, hfeed⟩
    · intro _ _ hs
      exact ⟨_, rfl, hs.log.status rfl⟩
    · intro _ _ _ _ _ hs _
      exact ⟨_, rfl, hs.log.status rfl⟩
    · rintro source' s' chunk e rest ⟨hlog, hext, hfeed⟩ hread he
      have hlen := Nat.le_trans (Source.readFull_progress hread).1 hsize
      apply wp_lastStatus hlen hrecipients hlog hext
      intro hlmtp r replies hreplies
      apply hr hlmtp r
      refine ⟨hstate, hrecipients, hfeed r ?_⟩
      rw [hreplies]
      apply LastAnswered.last hread he
    · rintro source' s' chunk rest ⟨hlog, hext, hfeed⟩ hread
      have hlen := Nat.le_trans (Source.readFull_progress hread).1 hsize
      rw [wp_bind]
      refine wp_chunkStatus hlen hlog fun first replies w log hreplies hlog => ?_
      apply wp_expectReply
      · intro hfirst
        refine ⟨hlog, hext, fun r hrest => hfeed r ?_⟩
        rw [hreplies]
        exact .next hread (List.mem_singleton.mp hfirst) hrest
      · intro e _ he
        exact ⟨_, rfl, hlog.status he⟩
  · intro _
    exact ⟨_, rfl, hself.status rfl⟩

/-- `Client.Data` with chunks or without, and the final reply. -/
def Answered (s : Conn φ ω) (source : Source φ) (o : DataOptions) (r : Reply) : Prop :=
  if o.useChunking then
    s.advertises (ascii "CHUNKING") = true ∧ 0 < o.size ∧ o.size ≤ maxBDATChunkSize ∧
      ChunksAnswered s source o.size.toNat r
  else s.binaryMIME = false ∧ DataAnswered s source r

/-- The verb in the results of `Client.Data`. -/
def completionVerb (o : DataOptions) : Bytes :=
  if o.useChunking then ascii "BDAT" else ascii "DATA"

theorem keepsContract_data
    (hr : opts.lmtp = false → ∀ r, Answered s source o r → r.Positive → r.code = 250) :
  KeepsContract opts (completionVerb o) (data opts env source o) s
  := by
  have hself := unbegun_self s
  apply keepsContract_returning
  rw [wp_bind, wp_read]
  cases hchunking : o.useChunking with
  | false =>
    simp only [Answered, completionVerb, hchunking, Bool.false_eq_true, if_false] at hr ⊢
    rw [if_pos (by rfl), wp_ite]
    refine ⟨fun _ => ⟨_, rfl, hself.status rfl⟩, fun hbinary => ?_⟩
    apply wp_sendStatus
    intro hlmtp r h
    apply hr hlmtp r ⟨by simpa using hbinary, h⟩
  | true =>
    simp only [Answered, completionVerb, hchunking, if_true] at hr ⊢
    rw [if_neg (by simp), wp_ite]
    refine ⟨fun _ => ⟨_, rfl, hself.status rfl⟩, fun hext => ?_⟩
    rw [wp_ite]
    refine ⟨fun _ => ⟨_, rfl, hself.status rfl⟩, fun hsize => ?_⟩
    apply wp_bdatStatus
    · omega
    · omega
    · intro hlmtp r h
      apply hr hlmtp r ⟨by simpa using hext, by omega, by omega, h⟩

end Data

/-! ### Replies that are taken for refusals -/

section Odd

variable {opts : Options} {s : Conn φ ω} {r : Reply}

/-- The call returns a plain error although the final reply is positive. -/
def Misjudged (s : Conn φ ω) (r : Reply) (e : Option (ClientError φ)) (s' : Conn φ ω) : Prop :=
  ∃ e', e = some e' ∧ e'.isUnknown = false ∧ Begun s [r] s'.log

theorem not_keepsContract (hr : r.Positive) (h : wp m (fun _ _ => False) (Misjudged s r) s) :
  ¬ KeepsContract opts command (returning m) s
  := by
  intro hkeeps
  rw [KeepsContract, returning, wp_bind, wp_attempt] at hkeeps
  have hboth := wp_and h hkeeps
  simp only [wp] at hboth
  rcases hm : m s with ⟨x | e | _, s'⟩ <;> rw [hm] at hboth
  · exact hboth.1
  · obtain ⟨⟨e', he', hknown, a, b, hlog, ha, hb⟩, new, hnew, hstatus⟩ := hboth
    cases he'
    obtain rfl : new = a ++ .completing :: b := List.append_cancel_left (hnew.symm.trans hlog)
    have hfinal := (hstatus.refused e rfl hknown).2
    rw [finals_begun ha, hb] at hfinal
    exact hfinal r (List.mem_singleton_self r) hr
  · exact hboth.2

theorem wp_sharedOdd (hodd : r.code ≠ 250) (hlog : Begun s [r] s'.log) :
  wp (sharedResult opts command s.recipients r) (fun _ _ => False) (Misjudged s r) s'
  := by
  apply wp_sharedResult
  · intro h
    exact absurd h hodd
  · intro e _ he
    exact ⟨e, rfl, he, hlog⟩

theorem wp_sendPlain {Q : Returned φ → Conn φ ω → Prop} (hlmtp : opts.lmtp = false)
    (h : DataAnswered s source r) (h421 : r.code ≠ 421)
    (hfinal : ∀ s' : Conn φ ω, Begun s [r] s'.log →
      wp (sharedResult opts (ascii "DATA") s.recipients r) Q E s') :
  wp (sendData opts Env.plain source) Q E s
  := by
  obtain ⟨hstate, hrecipients, hsource, first, rest, hreplies, hfirst⟩ := h
  have hcommand : ¬ (s.recipients.isEmpty && !opts.lmtp) = true := by simp [hrecipients]
  rw [sendData, wp_bind, wp_canceled, wp_ite]
  refine ⟨by intros; contradiction, fun _ => ?_⟩
  rw [wp_bind]
  apply wp_requirePlain (List.mem_singleton.mpr hstate)
  rw [wp_bind, wp_read, if_neg hcommand, wp_bind]
  have hopen : s.state ≠ .closed := by simp [hstate]
  have hlog : Unbegun s (s.log ++ noted false
      ++ [.sent (QueuedCommand.upper { verb := ascii "DATA", syncPoint := true }).request 1]
      ++ [.reply first]) := by
    simp only [List.append_assoc]
    apply (unbegun_self s).append
    simp [noted]
  refine wp_executePlain hopen (by decide) (by decide) hreplies (by omega) ?_
  rw [wp_bind]
  apply wp_expectPlain (List.mem_singleton.mpr hfirst)
  rw [wp_bind]
  apply wp_copyPlain (Nat.lt_succ_self _) hsource rfl
  intro d w hd
  rw [wp_bind]
  apply wp_endPlain hd
  intro w
  have hbegun := (hlog.begun.append [.sent .endOfData (finalReplies opts s.recipients)]).append
    [.reply r]
  rw [finishData, hlmtp]
  simp only [Bool.false_eq_true, if_false]
  rw [wp_bind, wp_mapErr]
  refine wp_readPlain rfl h421 ?_
  rw [wp_bind, watched, wp_bind, wp_outside, wp_ite]
  refine ⟨by intros; contradiction, fun _ => ?_⟩
  rw [wp_pure, wp_bind, wp_unlessClosed]
  split <;> exact hfinal _ hbegun

theorem wp_loopPlain {Q : Returned φ → Conn φ ω → Prop} {n : Nat} {replies : Feed Reply φ}
    (hlmtp : opts.lmtp = false) (hpos : 0 < size) (hsize : size ≤ maxBDATChunkSize)
    (h : LastAnswered size source replies r) (hreplies : s'.replies = replies)
    (hn : source.size < n) (hlog : Unbegun s s'.log) (h421 : r.code ≠ 421)
    (hfinal : ∀ s' : Conn φ ω, Begun s [r] s'.log →
      wp (sharedResult opts (ascii "BDAT") s.recipients r) Q E s') :
  wp (bdatLoop opts Env.plain s.recipients size n source) Q E s'
  := by
  induction h generalizing s' n with
  | @last source rest chunk e r replies hread he =>
    obtain ⟨n, rfl⟩ := Nat.exists_eq_add_one.mpr (Nat.zero_lt_of_lt hn)
    have hlen := Nat.le_trans (Source.readFull_progress hread).1 hsize
    have hlast : wp (do
        let r ← exchangeChunk opts Env.plain s.recipients chunk true
        finishBDAT opts Env.plain s.recipients r) Q E s' := by
      rw [wp_bind]
      apply wp_chunkPlain hlen hreplies h421
      intro w n
      have hbegun := (hlog.begun.append [.sent (.chunk chunk true) n]).append [.reply r]
      rw [finishBDAT, wp_bind, wp_update, wp_bind, wp_unlessClosed,
        bdatFinalReplies.eq_def, if_neg (by simp [hlmtp])]
      split <;> exact hfinal _ hbegun
    rw [bdatLoop, wp_bind, wp_canceled, wp_ite]
    refine ⟨by intros; contradiction, fun _ => ?_⟩
    simp only [hread]
    cases e with
    | other e => exact absurd rfl (he e)
    | eof => exact hlast
    | unexpectedEOF => exact hlast
  | @next source rest chunk first r replies hread hfirst hrest ih =>
    obtain ⟨n, rfl⟩ := Nat.exists_eq_add_one.mpr (Nat.zero_lt_of_lt hn)
    obtain ⟨hlen, hsmall⟩ := Source.readFull_progress hread
    have hsmall := hsmall rfl
    rw [bdatLoop, wp_bind, wp_canceled, wp_ite]
    refine ⟨by intros; contradiction, fun _ => ?_⟩
    simp only [hread]
    rw [wp_bind]
    apply wp_chunkPlain (Nat.le_trans hlen hsize) hreplies (by omega)
    intro w k
    rw [wp_bind]
    apply wp_expectPlain (List.mem_singleton.mpr hfirst)
    refine ih rfl (by omega) ?_ h421 hfinal
    simp only [List.append_assoc]
    apply hlog.append
    simp [noted]

theorem not_keepsContract_data (hlmtp : opts.lmtp = false)
    (h : Answered s source o r) (hr : r.Positive) (hodd : r.code ≠ 250) :
  ¬ KeepsContract opts (completionVerb o) (data opts Env.plain source o) s
  := by
  have h421 : r.code ≠ 421 := by
    rw [Reply.Positive] at hr
    omega
  apply not_keepsContract hr
  rw [wp_bind, wp_read]
  cases hchunking : o.useChunking with
  | false =>
    simp only [Answered, hchunking, Bool.false_eq_true, if_false] at h
    obtain ⟨hbinary, h⟩ := h
    simp only [Bool.not_false, if_true, hbinary, Bool.false_eq_true, if_false]
    apply wp_sendPlain hlmtp h h421
    intro s' hlog
    apply wp_sharedOdd hodd hlog
  | true =>
    simp only [Answered, hchunking, if_true] at h
    obtain ⟨hext, hpos, hsize, hstate, hrecipients, hreplies⟩ := h
    rw [if_neg (by simp), if_neg (by simp [hext]), if_neg (by omega)]
    rw [bdat, wp_bind, wp_canceled, wp_ite]
    refine ⟨by intros; contradiction, fun _ => ?_⟩
    rw [wp_bind]
    apply wp_requirePlain (List.mem_singleton.mpr hstate)
    rw [wp_bind, wp_read, if_neg (by simp [hrecipients])]
    refine wp_loopPlain hlmtp (by omega) (by omega) hreplies rfl (Nat.lt_succ_self _)
      (unbegun_self s) h421 ?_
    intro s' hlog
    apply wp_sharedOdd hodd hlog

end Odd

/-! ### BURL -/

section Burl

variable {opts : Options} {env : Env φ ω} {s : Conn φ ω} {url : Bytes}

/-- BURL LAST gets to the point where its command is sent. -/
structure BurlReaches (opts : Options) (s : Conn φ ω) (url : Bytes) : Prop where
  valid : validURL url = true
  smtp : opts.lmtp = false
  ext : s.advertises (ascii "BURL") = true
  recipients : s.recipients ≠ []
  state : s.state = .transaction
  short : (burlCommand url true).upper.length ≤ maxPipelineBytes

/-- The context is not cancelled between two looks at it with nothing in between. -/
def Steady (env : Env φ ω) : Prop :=
  ∀ log w, (env.canceled .before log w).1 = false →
    (env.canceled .before log (env.canceled .before log w).2).1 = false

theorem burlCommand_valid (url : Bytes) :
  (burlCommand url true).upper.valid = validCommandToken url
  := by
  have hverb : validCommandToken (toUpper (ascii "BURL")) = true := by decide +kernel
  have hlast : validCommandToken (ascii "LAST") = true := by decide +kernel
  simp [QueuedCommand.valid, QueuedCommand.upper, burlCommand, hverb, hlast]

theorem keepsContract_burl (hsteady : Steady env)
    (hurl : BurlReaches opts s url → validCommandToken url = true)
    (hr : BurlReaches opts s url → ∀ r rest, s.replies = .item r :: rest →
      r.Positive → r.code = 250) :
  KeepsContract opts (ascii "BURL") (burl opts env url true) s
  := by
  have hself := unbegun_self s
  apply keepsContract_returning
  rw [wp_bind, wp_read, wp_ite]
  refine ⟨fun _ => ⟨_, rfl, hself.status rfl⟩, fun hvalid => ?_⟩
  rw [wp_ite]
  refine ⟨fun _ => ⟨_, rfl, hself.status rfl⟩, fun hsmtp => ?_⟩
  rw [wp_ite]
  refine ⟨fun _ => ⟨_, rfl, hself.status rfl⟩, fun hext => ?_⟩
  rw [wp_ite]
  refine ⟨fun _ => ⟨_, rfl, hself.status rfl⟩, fun hrecipients => ?_⟩
  rw [wp_bind]
  apply wp_requireState
  · intro hstate
    have hreaches (h : (burlCommand url true).upper.length ≤ maxPipelineBytes) :
        BurlReaches opts s url := by
      refine ⟨?_, ?_, ?_, ?_, List.mem_singleton.mp hstate, h⟩ <;> simp_all
    have hbegun : Begun s [] (s.log ++ noted (burlCommand url true).completes) := hself.begun
    have hreply (r : Reply) := (hbegun.append [.sent (burlCommand url true).upper.request 1]).append
      [.reply r]
    rw [wp_bind]
    apply wp_executeAny
    · intro r replies w hadmitted _ hreplies
      have hr := hr (hreaches hadmitted.short) r replies hreplies
      rw [if_pos rfl, wp_bind, wp_unlessClosed]
      split <;> exact wp_sharedFinal (hreply r) rfl hr
    · intro e w he
      exact ⟨e, rfl, hself.status he⟩
    · intro hadmitted hcanceled
      have hno := hsteady _ _ (hadmitted.uncanceled rfl)
      have hyes : (env.canceled .before s.log (env.canceled .before s.log s.world).2).1 = true :=
        hcanceled
      rw [hno] at hyes
      cases hyes
    · intro hadmitted hinvalid
      rw [burlCommand_valid, hurl (hreaches hadmitted.short)] at hinvalid
      cases hinvalid
    · intro e s' new he hlog _
      refine ⟨_, rfl, hbegun.lost ?_ (ClientError.unknown_of_isLocal he _)⟩
      rw [hlog]
      apply List.prefix_append
    · intro e s' r he hcode hlog
      obtain ⟨a, b, hnew, ha, hb⟩ := hreply r
      refine ⟨.reply (burlCommand url true).upper.verb e, ?_, _, hlog.trans hnew, .rejected rfl ha hb ?_⟩
      · simp [reported, burlCommand, ClientError.unknown, he]
      · simp [Reply.Positive, hcode]
  · intro _
    exact ⟨_, rfl, hself.status rfl⟩

/-- The call reports an unknown status although nothing was begun. -/
def Overcautious (s : Conn φ ω) (e : Option (ClientError φ)) (s' : Conn φ ω) : Prop :=
  ∃ e', e = some e' ∧ e'.isUnknown = true ∧ s'.log = s.log

theorem not_keepsContract_unknown (h : wp m (fun _ _ => False) (Overcautious s) s) :
  ¬ KeepsContract opts command (returning m) s
  := by
  intro hkeeps
  rw [KeepsContract, returning, wp_bind, wp_attempt] at hkeeps
  have hboth := wp_and h hkeeps
  simp only [wp] at hboth
  rcases hm : m s with ⟨x | e | _, s'⟩ <;> rw [hm] at hboth
  · exact hboth.1
  · obtain ⟨⟨e', he', hunknown, hlog⟩, new, hnew, hstatus⟩ := hboth
    cases he'
    obtain rfl : [] = new := by simpa [hlog] using hnew
    have hbegun := (hstatus.unknown e rfl hunknown).1
    cases hbegun
  · exact hboth.2

/-- BURL LAST, once its arguments are checked. -/
def sendBURL (opts : Options) (env : Env φ ω) (recipients : List Bytes) (url : Bytes) :
    Call φ ω (Returned φ) := do
  let r ← executeOne opts env (burlCommand url true)
  unlessClosed fun s => { endTransaction s with smtpUTF8 := false, binaryMIME := false }
  sharedResult opts (ascii "BURL") recipients r

theorem keepsContract_sendBURL (h : BurlReaches opts s url) :
  KeepsContract opts command (burl opts env url true) s
    ↔ KeepsContract opts command (returning (sendBURL opts env s.recipients url)) s
  := by
  obtain ⟨hvalid, hsmtp, hext, hrecipients, hstate, -⟩ := h
  have hsame : burl opts env url true s = returning (sendBURL opts env s.recipients url) s := by
    simp [burl, returning, sendBURL, Exec.attempt, Bind.bind, Exec.read, requireState, Pure.pure,
      hvalid, hsmtp, hext, hrecipients, hstate]
  simp only [KeepsContract, wp, hsame]

theorem not_keepsContract_canceled (h : BurlReaches opts s url)
    (hfirst : (env.canceled .before s.log s.world).1 = false)
    (hsecond : (env.canceled .before s.log (env.canceled .before s.log s.world).2).1 = true) :
  ¬ KeepsContract opts (ascii "BURL") (burl opts env url true) s
  := by
  rw [keepsContract_sendBURL h]
  apply not_keepsContract_unknown
  have hopen : ¬ s.closed = true := by simp [Conn.closed, h.state]
  rw [sendBURL, wp_bind, executeOne_eq, wp_bind, wp_read, if_neg hopen,
    if_neg (Nat.not_lt.mpr h.short), wp_bind, checkCompletes, if_pos (by rfl), wp_bind,
    wp_canceled, hfirst, if_neg (by simp), wp_pure, wp_bind, classified, wp_mapErr,
    write, writeLine, wp_bind, wp_canceled, hsecond, if_pos (by rfl), wp_fail]
  exact ⟨_, rfl, rfl, rfl⟩

theorem not_keepsContract_invalid (h : BurlReaches opts s url)
    (hurl : validCommandToken url = false) :
  ¬ KeepsContract opts (ascii "BURL") (burl opts Env.plain url true) s
  := by
  rw [keepsContract_sendBURL h]
  apply not_keepsContract_unknown
  have hopen : ¬ s.closed = true := by simp [Conn.closed, h.state]
  have hinvalid : (!(burlCommand url true).upper.valid) = true := by simp [burlCommand_valid, hurl]
  rw [sendBURL, wp_bind, executeOne_eq, wp_bind, wp_read, if_neg hopen,
    if_neg (Nat.not_lt.mpr h.short), wp_bind, checkCompletes, if_pos (by rfl), wp_bind,
    wp_canceled, wp_ite]
  refine ⟨by intros; contradiction, fun _ => ?_⟩
  rw [wp_pure, wp_bind, classified, wp_mapErr, write, writeLine, wp_bind,
    wp_canceled, wp_ite]
  refine ⟨by intros; contradiction, fun _ => ?_⟩
  rw [wp_bind, encodeCommand, if_pos hinvalid, wp_pure, wp_bind, wp_canceled,
    wp_ite]
  exact ⟨by intros; contradiction, fun _ => ⟨_, rfl, rfl, rfl⟩⟩

theorem not_keepsContract_odd {rest : Feed Reply φ} (h : BurlReaches opts s url)
    (hurl : validCommandToken url = true) (hreplies : s.replies = .item r :: rest)
    (hr : r.Positive) (hodd : r.code ≠ 250) :
  ¬ KeepsContract opts (ascii "BURL") (burl opts Env.plain url true) s
  := by
  rw [keepsContract_sendBURL h]
  apply not_keepsContract hr
  have hopen : s.state ≠ .closed := by simp [h.state]
  have hvalid : (burlCommand url true).upper.valid = true := by rw [burlCommand_valid, hurl]
  have h421 : r.code ≠ 421 := by
    rw [Reply.Positive] at hr
    omega
  have hbegun := ((unbegun_self s).begun.append
    [.sent (burlCommand url true).upper.request 1]).append [.reply r]
  rw [sendBURL, wp_bind]
  refine wp_executePlain hopen h.short hvalid hreplies h421 ?_
  rw [wp_bind, wp_unlessClosed]
  split <;> exact wp_sharedOdd hodd hbegun

end Burl

/-! ### The contract holds unless a reply is odd -/

/-- `Client.Data` keeps the contract whatever happens on this side if and only if an SMTP peer
does not accept the message with a code other than 250.  BURL LAST keeps it under the same
condition if its URL can be sent, as long as the context is not cancelled between two looks
at it; if it is, the contract is broken. -/
theorem finalStatus_iff (φ ω : Type) :
  (∀ (opts : Options) (s : Conn φ ω) (source : Source φ) (o : DataOptions),
    (∀ env, KeepsContract opts (completionVerb o) (data opts env source o) s)
      ↔ (opts.lmtp = false → ∀ r, Answered s source o r → r.Positive → r.code = 250)) ∧
  (∀ (opts : Options) (s : Conn φ ω) (url : Bytes),
    (∀ env, Steady env → KeepsContract opts (ascii "BURL") (burl opts env url true) s)
      ↔ (BurlReaches opts s url → validCommandToken url = true ∧
          ∀ r rest, s.replies = .item r :: rest → r.Positive → r.code = 250)) ∧
  (∀ (opts : Options) (env : Env φ ω) (s : Conn φ ω) (url : Bytes), BurlReaches opts s url →
    (env.canceled .before s.log s.world).1 = false →
    (env.canceled .before s.log (env.canceled .before s.log s.world).2).1 = true →
    ¬ KeepsContract opts (ascii "BURL") (burl opts env url true) s)
  := by
  refine ⟨?_, ?_, ?_⟩
  · intro opts s source o
    constructor
    · intro h hlmtp r hanswered hr
      by_contra hodd
      exact not_keepsContract_data hlmtp hanswered hr hodd (h Env.plain)
    · intro hr env
      apply keepsContract_data hr
  · intro opts s url
    constructor
    · intro h hreaches
      have hplain := h Env.plain fun _ _ _ => rfl
      have hurl : validCommandToken url = true := by
        by_contra hurl
        exact not_keepsContract_invalid hreaches (by simpa using hurl) hplain
      use hurl
      intro r rest hreplies hr
      by_contra hodd
      exact not_keepsContract_odd hreaches hurl hreplies hr hodd hplain
    · intro h env hsteady
      apply keepsContract_burl hsteady
      · intro hreaches
        exact (h hreaches).1
      · intro hreaches
        exact (h hreaches).2
  · intro opts env s url hreaches hfirst hsecond
    exact not_keepsContract_canceled hreaches hfirst hsecond

/-- An open transaction with one recipient, and the replies to DATA and to its content. -/
def accepting (code : Int) : Conn Empty Unit :=
  Conn.scripted .transaction [] [ascii "a"] [(354, "go"), (code, "ok")] ()

/-- A message that the peer accepts with 250. -/
theorem finalStatus_iff_accepted :
  ∀ env, KeepsContract (.plain false) (ascii "DATA")
    (data (.plain false) env [⟨ascii "x", some .eof⟩] {}) (accepting 250)
  := by
  apply ((finalStatus_iff Empty Unit).1 (.plain false) (accepting 250) [⟨ascii "x", some .eof⟩]
    {}).mpr
  rintro - r ⟨-, -, -, -, first, rest, hreplies, -⟩ -
  cases hreplies
  rfl

/-- A message that the peer accepts with 251 is reported as refused. -/
theorem not_finalStatus_251 :
  ¬ KeepsContract (.plain false) (ascii "DATA")
    (data (.plain false) Env.plain [⟨ascii "x", some .eof⟩] {}) (accepting 251)
  := by
  apply not_keepsContract_data (o := {}) rfl (r := ⟨251, ascii "ok", [ascii "ok"]⟩)
  · exact ⟨rfl, rfl, by simp [accepting, Conn.scripted], rfl, _, _, rfl, rfl⟩
  · simp [Reply.Positive]
  · simp

end GoSmtp.Client
