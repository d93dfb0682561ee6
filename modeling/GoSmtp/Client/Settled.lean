import GoSmtp.Client.Delivery
import GoSmtp.Client.InStep

/-!
# Calls settle the connection

Every call of the client takes a connection that is closed or in step to one that is closed
or in step.  AUTH and DATA leave the server in the middle of an exchange; their calls end
the exchange or close the connection.
-/

namespace GoSmtp.Client

open Exec

variable {φ ω α β μ : Type}
variable {m : Call φ ω α} {chunk verb : Bytes} {r : Reply} {n : Nat}
variable {s : Conn φ ω} {recipients : List Bytes}

open Sasl

/-- The call leaves a settled connection settled, however it ends. -/
abbrev Settles (m : Call φ ω α) : Prop := Maintains Settled Settled m

namespace Settles

theorem pure (a : α) :
  Settles (Pure.pure a : Call φ ω α)
  := Maintains.pure a

theorem fail (e : ClientError φ) :
  Settles (Exec.fail e : Call φ ω α)
  := fun _ => id

theorem poisoned (e : ClientError φ) :
  Settles (Client.poisoned e : Call φ ω α)
  := fun _ _ => .inl rfl

theorem outside (f : ω → α × ω) :
  Settles (Client.outside f : Call φ ω α)
  := fun _ hs => hs

theorem canceled (env : Env φ ω) (c : Check) :
  Settles (Client.canceled env c)
  := fun _ hs => hs

theorem unlessClosed {f : Conn φ ω → Conn φ ω} (hf : ∀ s, (f s).log = s.log) :
  Settles (Client.unlessClosed f)
  := by
  intro s hs
  rw [wp_unlessClosed]
  split
  · exact hs
  · next hopen =>
    have hstep : InStep s.log := hs.resolve_left (by simpa [Conn.closed] using hopen)
    right
    rw [hf s]
    exact hstep

theorem expectReply (opts : Options) (command : Bytes) (r : Reply) (want : List Int) :
  Settles (Client.expectReply opts command r want : Call φ ω Unit)
  := fun _ hs => wp_expectReply (fun _ => hs) fun _ _ _ => hs

theorem requireState (command : Bytes) (allowed : List SessionState) :
  Settles (Client.requireState command allowed : Call φ ω Unit)
  := fun _ hs => wp_requireState (fun _ => hs) fun _ => hs

theorem read {k : Conn φ ω → Call φ ω α} (hk : ∀ s, Settles (k s)) :
  Settles (Exec.read >>= k)
  := Maintains.read fun s hs => hk s s hs

theorem checked {check : Option (ClientError φ)} (hm : Settles m) :
  Settles (Client.checked check m)
  := by
  cases check
  · exact hm
  · apply fail

theorem unlessCanceled (env : Env φ ω) (hm : Settles m) :
  Settles (do if ← Client.canceled env .before then Exec.fail .canceled else m)
  := by
  apply Maintains.bind (canceled env .before)
  intro b
  apply Maintains.ite (fail _) hm

theorem returning {m : Call φ ω (Returned φ)} (hm : Settles m) :
  Settles (Client.returning m)
  := by
  apply Maintains.bind (hm.attempt fun _ => id)
  rintro (e | x) <;> apply pure

theorem simple (hm : Settles m) :
  Settles (Client.simple m)
  := by
  apply returning
  apply Maintains.bind hm
  intro _
  apply pure

end Settles

section Calls

variable {opts : Options} {env : Env φ ω} (hcalm : Calm env)
include hcalm

/-! ### Commands -/

/-- A verb in upper case that is neither AUTH nor DATA. -/
def plainVerb (verb : Bytes) : Bool :=
  toUpper verb ≠ ascii "AUTH" && toUpper verb ≠ ascii "DATA"

omit hcalm in
theorem kind_plain {c : QueuedCommand} (h : plainVerb c.verb) :
  c.upper.kind = .plain
  := by
  simp only [plainVerb, Bool.and_eq_true, decide_eq_true_eq] at h
  rw [QueuedCommand.kind, QueuedCommand.upper, if_neg h.1, if_neg h.2]

theorem settles_executeOne {c : QueuedCommand} (h : plainVerb c.verb) :
  Settles (executeOne opts env c)
  := by
  intro s hs
  apply wp_executeOne hcalm hs
  intro r replies w log _ hdrained hexpects
  rw [QueuedCommand.request, kind_plain h] at hexpects
  exact .inr ⟨hdrained, hexpects⟩

theorem settles_commandLocked (h : plainVerb verb) (args : List Bytes)
    (allowed : List SessionState) :
  Settles (commandLocked opts env verb args allowed)
  := by
  apply Maintains.bind (Settles.requireState verb allowed)
  intro _
  apply settles_executeOne hcalm h

theorem settles_command (h : plainVerb verb) (args : List Bytes) (allowed : List SessionState) :
  Settles (command opts env verb args allowed)
  := by
  apply Settles.unlessCanceled
  apply settles_commandLocked hcalm h

theorem settles_query (h : plainVerb verb) (args : List Bytes)
    (allowed : List SessionState) (want : List Int) :
  Settles (query opts env verb args allowed want)
  := by
  apply Maintains.bind (settles_command hcalm h args allowed)
  intro r
  apply Maintains.bind (Settles.expectReply opts verb r want)
  intro _
  apply Settles.pure

/-! ### AUTH -/

/-- All lines are answered, and after a challenge the server waits for a response. -/
structure Challenged (r : Reply) (log : List WireEvent) : Prop where
  drained : Drained log
  expects : (dialogue log).expects = if r.code = 334 then .response else .command

omit hcalm in
theorem Challenged.inStep {log : List WireEvent} (h : Challenged r log) (hr : r.code ≠ 334) :
  InStep log
  := by
  obtain ⟨hdrained, hexpects⟩ := h
  rw [if_neg hr] at hexpects
  exact ⟨hdrained, hexpects⟩

theorem wp_authResponse {Q : Unit → Conn φ ω → Prop} {response : Bytes} (hs : Drained s.log)
    (hQ : ∀ w log, (dialogue log).fifo.queue = [.line response .auth] →
      Q () { s with world := w, log := log }) :
  wp (authResponse env response) Q (fun _ => Settled) s
  := by
  apply wp_writeLine_calm hcalm
  intro w log hlog
  apply hQ
  have hs : (dialogue s.log).fifo.queue = [] := hs
  rw [hlog, Fifo.queue_ask, hs]
  rfl

theorem wp_authRead {Q : Reply → Conn φ ω → Prop} {response : Bytes}
    (hs : (dialogue s.log).fifo.queue = [.line response .auth])
    (hQ : ∀ r replies w log, s.replies = .item r :: replies → Challenged r log →
      Q r { s with world := w, replies := replies, log := log }) :
  wp (read opts env (ascii "AUTH")) Q (fun _ => Settled) s
  := by
  refine wp_mono (wp_read_due hcalm hs fun r replies w log hr hlog => ?_) (fun _ _ => id)
    fun _ _ h => .inl h
  apply hQ r replies w log hr
  constructor
  · rw [Drained, hlog]
  · rw [hlog]
    rfl

theorem wp_cancelAuth {Q : α → Conn φ ω → Prop} {cause : ClientError φ} (hs : Drained s.log) :
  wp (cancelAuth opts env cause) Q (fun _ => Settled) s
  := by
  rw [cancelAuth, wp_bind, wp_attempt]
  refine wp_mono (wp_authResponse hcalm hs fun w log hlog => ?_) (fun _ _ => id) ?_
  · rw [wp_bind, wp_attempt]
    refine wp_mono (wp_authRead hcalm hlog fun r replies w log _ hlog => ?_)
      (fun _ _ => id) ?_
    · rw [wp_ite]
      constructor
      · intro _
        exact .inl rfl
      · intro hcode
        exact .inr (hlog.inStep (by omega))
    · rintro (_ | e) s' hs' <;> exact hs'
  · rintro (_ | e) s' hs' <;> exact hs'

/-- The exchange ends with a reply that is no challenge.  Every turn uses up a reply, so the
turns do not run out. -/
theorem wp_exchange {crypto : Crypto} {name : Bytes} {mech : Mechanism μ}
    {m : μ} (hn : s.replies.length < n) (hs : Challenged r s.log) :
  wp (exchange opts env crypto name mech n r m) (fun _ => Settled) (fun _ => Settled) s
  := by
  induction n generalizing r m s with
  | zero => cases hn
  | succ n ih =>
    rw [exchange, wp_ite]
    constructor
    · intro hr
      exact .inr (hs.inStep hr)
    · intro _
      split
      · apply wp_cancelAuth hcalm hs.drained
      · split
        · apply wp_cancelAuth hcalm hs.drained
        · next response done m _ =>
          rw [wp_bind]
          apply wp_authResponse hcalm hs.drained
          intro w log hlog
          rw [wp_bind]
          apply wp_authRead hcalm hlog
          intro r replies w log hr hlog
          rw [wp_ite]
          constructor
          · intro _
            exact .inl rfl
          · intro _
            apply ih _ hlog
            rw [hr, List.length_cons] at hn
            exact Nat.lt_of_succ_lt_succ hn

theorem settles_authenticate (crypto : Crypto) (select : Bytes → Except (ClientError φ) Bytes)
    (mech : Mechanism μ) :
  Settles (authenticate opts env crypto select mech)
  := by
  apply Settles.unlessCanceled
  apply Maintains.bind (Settles.requireState _ _)
  intro _
  apply Maintains.read
  intro s hs
  split
  · exact hs
  split
  · exact hs
  split
  · exact hs
  · next name _ _ initial m _ =>
    rw [wp_bind]
    apply wp_executeOne hcalm hs
    intro r replies w log hr hdrained hexpects
    rw [wp_bind]
    refine wp_mono (wp_exchange hcalm ?_ ⟨hdrained, hexpects⟩) ?_ fun _ _ => id
    · rw [hr, List.length_cons]
      apply Nat.lt_add_right
      apply Nat.lt_succ_self
    · intro r s hs
      apply Maintains.bind (Settles.expectReply opts (ascii "AUTH") r [235]) _ s hs
      intro _
      apply Settles.unlessClosed
      intro _
      rfl

/-! ### Final replies -/

omit hcalm in
theorem settles_watched :
  Settles (watched env)
  := by
  apply Maintains.bind (Settles.outside _)
  intro b
  apply Maintains.ite
  · intro s _
    exact .inl rfl
  · apply Settles.pure

omit hcalm in
theorem settles_sharedResult (command : Bytes) (recipients : List Bytes) (r : Reply) :
  Settles (sharedResult opts command recipients r : Call φ ω (Returned φ))
  := by
  apply Maintains.bind (Settles.expectReply _ _ _ _)
  intro _
  apply Settles.read
  intro s
  apply Settles.pure

omit hcalm in
theorem wp_lmtpFinal {command : Bytes} {q : Request} {result : DataResult}
    {done : Call φ ω Unit} (hdone : Settles done)
    (hs : Tame s.log) (hq : (dialogue s.log).fifo.queue = List.replicate recipients.length q) :
  wp (do
    let x ← lmtpReplies opts env command result recipients
    lmtpEnd env command done x) (fun _ => Settled) (fun _ => Settled) s
  := by
  rw [wp_bind]
  apply wp_lmtpReplies
  · intro rs replies w hlen _
    rw [← hlen] at hq
    have hstep := hs.replies hq
    apply wp_lmtpEnd
    · intro h
      exact absurd rfl h
    · intro _ w
      apply hdone _ (.inr hstep)
    · intro e w _
      exact .inl rfl
  · intro rs e w replies log _ _ _
    apply wp_lmtpEnd
    · intro _
      exact .inl rfl
    · intro h
      cases h
    · intro e w _
      exact .inl rfl

/-! ### DATA -/

omit hcalm in
theorem tame_endOfData {log : List WireEvent} (hs : Drained log) (n : Nat) :
  Tame (log ++ [.completing] ++ [.sent .endOfData n])
    ∧ (dialogue (log ++ [.completing] ++ [.sent .endOfData n])).fifo.queue
      = List.replicate n .endOfData
  := by
  have hs : (dialogue log).fifo.queue = [] := hs
  have hq : (dialogue (log ++ [.completing] ++ [.sent .endOfData n])).fifo.queue
      = List.replicate n .endOfData := by
    rw [dialogue_append, dialogue_append, Dialogue.step, Dialogue.step, Fifo.queue_ask, hs,
      List.nil_append]
  refine ⟨⟨?_, ?_⟩, hq⟩
  · rw [dialogue_append, Dialogue.step, if_pos rfl]
  · intro q hmem
    rw [hq] at hmem
    rw [List.eq_of_mem_replicate hmem]
    intro r
    rfl

theorem wp_finishData (hs : Tame s.log)
    (hq : (dialogue s.log).fifo.queue = List.replicate (finalReplies opts recipients) .endOfData) :
  wp (finishData opts env recipients) (fun _ => Settled) (fun _ => Settled) s
  := by
  rw [finishData]
  split
  · next hlmtp =>
    rw [finalReplies, if_pos hlmtp] at hq
    apply wp_lmtpFinal _ hs hq
    apply Maintains.bind settles_watched
    intro _
    apply Settles.unlessClosed
    intro _
    rfl
  · next hlmtp =>
    rw [finalReplies, if_neg hlmtp] at hq
    rw [wp_bind, wp_mapErr]
    refine wp_mono (wp_read_due hcalm hq fun r replies w log _ hlog => ?_) (fun _ _ => id)
      fun _ _ h => .inl h
    have hstep : InStep log := by
      constructor
      · rw [Drained, hlog]
        rfl
      · rw [hlog]
        rfl
    apply Maintains.bind settles_watched _ _ (.inr hstep)
    intro _
    refine Maintains.bind (Settles.unlessClosed fun _ => ?_) fun _ => ?_
    · rfl
    · apply settles_sharedResult

theorem settles_sendData (source : Source φ) :
  Settles (sendData opts env source)
  := by
  apply Settles.unlessCanceled
  apply Maintains.bind (Settles.requireState _ _)
  intro _
  apply Maintains.read
  intro s hs
  rw [wp_ite]
  refine ⟨fun _ => hs, fun _ => ?_⟩
  rw [wp_bind]
  apply wp_executeOne hcalm hs
  intro r replies w log _ hdrained hexpects
  rw [wp_bind]
  apply wp_expectReply
  · intro _
    rw [wp_bind]
    apply wp_copyContent (Nat.lt_succ_self _)
    · intro _ d w
      rw [wp_bind]
      apply wp_endContent
      · intro w
        obtain ⟨htame, hq⟩ := tame_endOfData hdrained (finalReplies opts s.recipients)
        apply wp_finishData hcalm htame hq
      · intro e w log _ _
        exact .inl rfl
    · intro e w _
      exact .inl rfl
  · intro e hcode _
    rw [List.mem_singleton] at hcode
    have hexpects : (dialogue log).expects = .command := by
      rw [hexpects]
      exact if_neg hcode
    exact .inr ⟨hdrained, hexpects⟩

/-! ### BDAT -/

theorem wp_exchangeChunk {Q : Reply → Conn φ ω → Prop}
    {last : Bool} (hlen : chunk.length ≤ maxBDATChunkSize)
    (hreplies : (if last then finalReplies opts recipients else 1) = n + 1) (hs : InStep s.log)
    (hQ : ∀ r replies w log, Tame log →
      (dialogue log).fifo.queue = List.replicate n (.chunk chunk last) →
      Q r { s with world := w, replies := replies, log := log }) :
  wp (exchangeChunk opts env recipients chunk last) Q (fun _ => Settled) s
  := by
  rw [exchangeChunk, wp_bind, wp_mapErr]
  apply wp_writeBDATChunk hlen
  · intro w
    have hempty : (dialogue s.log).fifo.queue = [] := hs.drained
    have hq : (dialogue (s.log ++ noted last ++ [.sent (.chunk chunk last) (n + 1)])).fifo.queue
        = .chunk chunk last :: List.replicate n (.chunk chunk last) := by
      rw [dialogue_append, dialogue_noted, Dialogue.step, Fifo.queue_ask, hempty,
        List.nil_append, List.replicate_succ]
    rw [wp_mapErr, hreplies]
    refine wp_mono (wp_read_due hcalm hq fun r replies w log _ hlog => ?_) (fun _ _ => id)
      fun _ _ h => .inl h
    apply hQ r replies w log
    · constructor
      · rw [hlog]
        rfl
      · intro q hmem
        rw [hlog] at hmem
        rw [List.eq_of_mem_replicate hmem]
        intro r
        rfl
    · rw [hlog]
  · intro e w log _ _
    exact .inl rfl

omit hcalm in
theorem wp_bdatFinalReplies (hn : finalReplies opts recipients = n + 1) (hs : Tame s.log)
    (hq : (dialogue s.log).fifo.queue = List.replicate n (.chunk chunk true)) :
  wp (bdatFinalReplies opts env recipients r) (fun _ => Settled) (fun _ => Settled) s
  := by
  rw [bdatFinalReplies.eq_def]
  split
  · next hlmtp =>
    rw [finalReplies, if_pos hlmtp] at hn
    cases recipients with
    | nil => cases hn
    | cons recipient recipients =>
      obtain rfl : recipients.length = n := Nat.succ.inj hn
      rw [wp_bind, wp_read]
      apply wp_lmtpFinal (Settles.pure ()) hs hq
  · next hlmtp =>
    rw [finalReplies, if_neg hlmtp] at hn
    obtain rfl : 0 = n := Nat.succ.inj hn
    apply settles_sharedResult _ _ _ _ (.inr ⟨hq, hs.expects⟩)

theorem wp_bdatLast
    (hlen : chunk.length ≤ maxBDATChunkSize) (hrecipients : recipients ≠ []) (hs : InStep s.log) :
  wp (do
    let r ← exchangeChunk opts env recipients chunk true
    finishBDAT opts env recipients r) (fun _ => Settled) (fun _ => Settled) s
  := by
  obtain ⟨n, hn⟩ : ∃ n, finalReplies opts recipients = n + 1 := by
    apply Nat.exists_eq_add_one.mpr
    rw [finalReplies]
    split
    · exact List.length_pos_iff.mpr hrecipients
    · exact Nat.one_pos
  rw [wp_bind]
  refine wp_exchangeChunk hcalm hlen hn hs fun r replies w log htame hq => ?_
  rw [finishBDAT, wp_bind, wp_update, wp_bind, wp_unlessClosed]
  split <;> apply wp_bdatFinalReplies hn htame hq

theorem settles_bdat (source : Source φ) {size : Nat} (hpos : 0 < size)
    (hsize : size ≤ maxBDATChunkSize) :
  Settles (bdat opts env source size)
  := by
  apply Settles.unlessCanceled
  intro s hs
  rw [wp_bind]
  apply wp_requireState
  · intro hstate
    have hstep : InStep s.log := by
      apply hs.resolve_left
      rw [List.mem_singleton.mp hstate]
      simp
    rw [wp_bind, wp_read, wp_ite]
    refine ⟨fun _ => hs, fun hrecipients => ?_⟩
    have hrecipients : s.recipients ≠ [] := by simpa using hrecipients
    apply wp_bdatLoop (fun _ s => InStep s.log) hpos (Nat.lt_succ_self _) hstep
    · intro _ _ _ hs
      exact hs
    · intro _ _ _
      exact .inl rfl
    · intro _ _ _ _ _ hs _
      exact .inr hs
    · intro source s chunk e rest hs hread _
      have hlen := (Source.readFull_progress hread).1
      apply wp_bdatLast hcalm (Nat.le_trans hlen hsize) hrecipients hs
    · intro source s chunk rest hs hread
      have hlen := (Source.readFull_progress hread).1
      rw [wp_bind]
      refine wp_exchangeChunk hcalm (Nat.le_trans hlen hsize) rfl hs fun r replies w log htame hq => ?_
      have hstep : InStep log := ⟨hq, htame.expects⟩
      apply wp_expectReply
      · intro _
        exact hstep
      · intro _ _ _
        exact .inr hstep
  · intro _
    exact hs

theorem settles_data (source : Source φ) (o : DataOptions) :
  Settles (data opts env source o)
  := by
  apply Settles.returning
  apply Settles.read
  intro s
  apply Maintains.ite
  · apply Maintains.ite
    · apply Settles.fail
    · apply settles_sendData hcalm
  apply Maintains.ite
  · apply Settles.fail
  split
  · apply Settles.fail
  · next hsize =>
    apply settles_bdat hcalm
    · omega
    · omega

theorem settles_burl (url : Bytes) (last : Bool) :
  Settles (burl opts env url last)
  := by
  have hverb : plainVerb (ascii "BURL") := rfl
  apply Settles.returning
  apply Settles.read
  intro s
  apply Maintains.ite (Settles.fail _)
  apply Maintains.ite (Settles.fail _)
  apply Maintains.ite (Settles.fail _)
  apply Maintains.ite (Settles.fail _)
  apply Maintains.bind (Settles.requireState _ _)
  intro _
  apply Maintains.bind (settles_executeOne hcalm hverb)
  intro r
  apply Maintains.ite
  · refine Maintains.bind (Settles.unlessClosed fun _ => ?_) fun _ => ?_
    · rfl
    · apply settles_sharedResult
  · apply Maintains.bind (Settles.expectReply _ _ _ _)
    intro _
    apply Settles.pure

/-! ### Other calls -/

theorem settles_heloLocked :
  Settles (heloLocked opts env)
  := by
  have hverb : plainVerb (ascii "HELO") := rfl
  apply Maintains.bind (settles_executeOne hcalm hverb)
  intro r
  split
  · apply Settles.fail
  · apply Settles.unlessClosed
    intro _
    rfl

theorem settles_ehloLocked :
  Settles (ehloLocked opts env)
  := by
  have hverb : plainVerb (helloVerb opts) := by
    rw [helloVerb]
    split <;> rfl
  apply Maintains.bind ((settles_executeOne hcalm hverb).mapErr _)
  intro r
  apply Maintains.ite
  · apply settles_heloLocked hcalm
  split
  · apply Settles.fail
  split
  · apply Settles.poisoned
  · apply Settles.unlessClosed
    intro _
    rfl

theorem settles_auth (crypto : Crypto) (select : Bytes → Except (ClientError φ) Bytes)
    (mech : Mechanism μ) :
  Settles (auth opts env crypto select mech)
  := by
  apply Maintains.bind (settles_authenticate hcalm crypto select mech)
  intro _
  apply settles_ehloLocked hcalm

theorem settles_mail (m : MailRequest φ ω) :
  Settles (mail opts env m)
  := by
  have hverb : plainVerb (ascii "MAIL") := rfl
  apply Settles.checked
  apply Settles.read
  intro s
  refine Maintains.bind (fun _ => id) fun _ => ?_
  apply Settles.checked
  apply Maintains.bind (settles_commandLocked hcalm hverb _ _)
  intro r
  apply Maintains.bind (Settles.expectReply _ _ _ _)
  intro _
  refine Maintains.bind ?_ fun _ => ?_
  · rintro s (hs | hs)
    · exact .inl hs
    · right
      obtain ⟨hdrained, hexpects⟩ := hs
      constructor
      · rw [Drained, dialogue_append]
        exact hdrained
      · rw [dialogue_append]
        exact hexpects
  · apply Settles.unlessClosed
    intro _
    rfl

theorem wp_rcptBatch {recipients : List Recipient} {check : Conn φ ω → Option (ClientError φ)}
    (hs : Settled s) (hlong : longBehind (depth s) 0 0
      ((recipients.map rcptCommand).map QueuedCommand.upper) = false) :
  wp (rcptBatch opts env recipients check) (fun _ => Settled) (fun _ => Settled) s
  := by
  have hplain : ∀ c ∈ (recipients.map rcptCommand).map QueuedCommand.upper, c.kind = .plain := by
    simp only [List.map_map, List.mem_map]
    rintro c ⟨r, -, rfl⟩
    have hverb : plainVerb (ascii "RCPT") := rfl
    exact kind_plain (c := rcptCommand r) hverb
  rw [rcptBatch, wp_bind, wp_canceled, wp_ite]
  refine ⟨fun _ => hs, fun _ => ?_⟩
  rw [wp_ite]
  refine ⟨fun _ => hs, fun _ => ?_⟩
  rw [wp_bind]
  apply wp_requireState
  · intro hstate
    have hstep : InStep s.log := by
      apply hs.resolve_left
      rw [List.mem_singleton.mp hstate]
      simp
    rw [wp_bind, wp_read, checked.eq_def]
    split
    · exact hs
    · rw [wp_bind]
      refine wp_mono (wp_and (tame_executeLocked hplain _ hstep.tame)
        (wp_executeLocked (Q := fun _ => Quiet) hcalm (.inr hstep.drained) hlong
          fun _ _ _ _ _ h => h)) ?_ ?_
      · rintro rs s ⟨htame, hquiet⟩
        refine Maintains.bind (Settles.unlessClosed fun _ => ?_) (fun _ => ?_) s
          (Tamed.settled (.inr htame) hquiet)
        · rfl
        · apply Settles.pure
      · rintro e s ⟨htame, hquiet⟩
        exact htame.settled hquiet
  · intro _
    exact hs

theorem settles_reset :
  Settles (reset opts env)
  := by
  have hverb : plainVerb (ascii "RSET") := rfl
  apply Maintains.bind (settles_commandLocked hcalm hverb _ _)
  intro r
  apply Maintains.bind (Settles.expectReply _ _ _ _)
  intro _
  apply Settles.unlessClosed
  intro _
  rfl

theorem settles_sendQuit :
  Settles (sendQuit opts env)
  := by
  have hverb : plainVerb (ascii "QUIT") := rfl
  have hquit : Settles (do
      let r ← executeOne opts env { verb := ascii "QUIT", syncPoint := true }
      expectReply opts (ascii "QUIT") r [221]) := by
    apply Maintains.bind (settles_executeOne hcalm hverb)
    intro r
    apply Settles.expectReply
  apply Maintains.bind (hquit.attempt fun _ => id)
  intro x
  refine Maintains.bind (fun _ _ => .inl rfl) fun _ => ?_
  split
  · apply Settles.fail
  · apply Settles.pure

theorem settles_quit :
  Settles (quit opts env)
  := by
  apply Settles.unlessCanceled
  apply Settles.read
  intro s
  apply Maintains.ite (Settles.fail _) (settles_sendQuit hcalm)

theorem settles_close :
  Settles (close opts env)
  := by
  apply Settles.read
  intro s
  apply Maintains.ite (Settles.pure _) (settles_sendQuit hcalm)

theorem settles_startTLS :
  Settles (startTLS opts env)
  := by
  have hverb : plainVerb (ascii "STARTTLS") := rfl
  apply Settles.unlessCanceled
  apply Maintains.bind (Settles.requireState _ _)
  intro _
  apply Settles.read
  intro s
  apply Maintains.ite (Settles.fail _)
  apply Maintains.bind (settles_executeOne hcalm hverb)
  intro r
  apply Maintains.bind (Settles.expectReply _ _ _ _)
  intro _
  refine Maintains.bind (fun _ => id) fun _ => ?_
  apply Maintains.bind (Settles.outside _)
  rintro (e | replies)
  · apply Maintains.bind (Settles.canceled env .after)
    intro b
    apply Maintains.ite <;> apply Settles.poisoned
  · refine Maintains.bind (Settles.unlessClosed fun _ => ?_) fun _ => ?_
    · rfl
    · apply settles_ehloLocked hcalm

theorem settles_etrn (check : Option (ClientError φ)) (node : Bytes) :
  Settles (etrn opts env check node)
  := by
  have hverb : plainVerb (ascii "ETRN") := rfl
  apply Settles.checked
  apply Settles.read
  intro s
  apply Maintains.ite (Settles.fail _) (settles_query hcalm hverb _ _ _)

theorem settles_atrn (check : Option (ClientError φ)) (args : List Bytes) :
  Settles (atrn opts env check args)
  := by
  have hverb : plainVerb (ascii "ATRN") := rfl
  apply Settles.checked
  apply Settles.read
  intro s
  apply Maintains.ite (Settles.fail _)
  apply Maintains.bind (settles_command hcalm hverb _ _)
  intro r
  apply Maintains.bind (Settles.expectReply _ _ _ _)
  intro _
  apply Settles.poisoned

end Calls

/-! ### Sequences of calls -/

/-- No command of the call is too long and behind others of its window. -/
def ClientCall.Fits (s : Conn φ ω) : ClientCall φ ω μ → Prop
  | .rcpt recipients _ =>
    longBehind (depth s) 0 0 ((recipients.map rcptCommand).map QueuedCommand.upper) = false
  | _ => True

/-- Every call of a sequence fits. -/
def FitsAll (opts : Options) (env : Env φ ω) (crypto : Crypto) :
    List (ClientCall φ ω μ) → Conn φ ω → Prop
  | [], _ => True
  | c :: calls, s => c.Fits s ∧ FitsAll opts env crypto calls (perform opts env crypto c s).2

section Runs

variable {opts : Options} {env : Env φ ω} {crypto : Crypto}

theorem settled_perform (hcalm : Calm env) {c : ClientCall φ ω μ} (hs : Settled s)
    (hfits : c.Fits s) :
  Settled (perform opts env crypto c s).2
  := by
  cases c with
  | noop =>
    have hverb : plainVerb (ascii "NOOP") := rfl
    apply (settles_query hcalm hverb _ _ _).simple.state hs
  | verify address =>
    have hverb : plainVerb (ascii "VRFY") := rfl
    apply (settles_query hcalm hverb _ _ _).checked.simple.state hs
  | expand list =>
    have hverb : plainVerb (ascii "EXPN") := rfl
    apply (settles_query hcalm hverb _ _ _).checked.simple.state hs
  | help topic =>
    have hverb : plainVerb (ascii "HELP") := rfl
    apply (settles_query hcalm hverb _ _ _).simple.state hs
  | etrn check node => apply (settles_etrn hcalm check node).simple.state hs
  | atrn check args => apply (settles_atrn hcalm check args).simple.state hs
  | mail m => apply (settles_mail hcalm m).simple.state hs
  | rcpt recipients check =>
    apply wp_state
    rw [perform, simple, returning, wp_bind, wp_attempt, wp_bind]
    apply wp_mono (wp_rcptBatch hcalm hs hfits)
    · intro _ s hs
      exact hs
    · rintro (_ | e) s hs <;> exact hs
  | data source o => apply (settles_data hcalm source o).state hs
  | burl url last => apply (settles_burl hcalm url last).state hs
  | reset => apply (settles_reset hcalm).simple.state hs
  | auth select mech => apply (settles_auth hcalm crypto select mech).simple.state hs
  | startTLS => apply (settles_startTLS hcalm).simple.state hs
  | quit => apply (settles_quit hcalm).simple.state hs
  | close => apply (settles_close hcalm).simple.state hs

/-- Every connection that calls lead to is closed or in step.  From it, whatever group of
commands is executed, nothing is left unanswered on an open connection, and the replies that
are returned are the replies to the commands. -/
theorem settled_run (hcalm : Calm env) (calls : List (ClientCall φ ω μ)) (s : Conn φ ω)
    (hs : Settled s) (hfits : FitsAll opts env crypto calls s) :
  Settled (run opts env crypto calls s) ∧
  ∀ cmds, longBehind (depth (run opts env crypto calls s)) 0 0 (cmds.map QueuedCommand.upper)
      = false →
    wp (executeLocked opts env cmds)
      (fun rs s' => Quiet s' ∧ Answers cmds rs (run opts env crypto calls s).log s'.log)
      (fun _ => Quiet) (run opts env crypto calls s)
  := by
  induction calls generalizing s with
  | nil =>
    use hs
    intro cmds hlong
    apply wp_executeLocked hcalm hs.quiet hlong
    intro rs replies w log hanswers hquiet
    exact ⟨hquiet, hanswers⟩
  | cons c calls ih =>
    obtain ⟨hfits, hrest⟩ := hfits
    apply ih _ (settled_perform hcalm hs hfits) hrest

end Runs

/-- An open transaction with a server that offers PIPELINING and will send the given
replies. -/
def pipelined (replies : List (Int × String)) : Conn Empty Nat :=
  Conn.scripted .transaction ["PIPELINING"] [] replies 0

/-- Two recipients in one window. -/
def twoRecipients : ClientCall Empty Nat Unit :=
  .rcpt [⟨ascii "a", [ascii "TO:<a>"]⟩, ⟨ascii "b", [ascii "TO:<b>"]⟩] fun _ => none

/-- Two recipients and a NOOP, with a context that is never cancelled. -/
theorem settled_run_pipelined :
  let s := run (.plain false) Env.plain .plain [twoRecipients, .noop]
    (pipelined [(250, "a"), (550, "b"), (250, "c")])
  s.recipients = [ascii "a"] ∧ Settled s
  := by
  constructor
  · decide +kernel
  · refine (settled_run (fun _ _ _ => rfl) _ _ (.inr inStep_nil) ?_).1
    refine ⟨?_, trivial, trivial⟩
    rw [twoRecipients, ClientCall.Fits]
    decide +kernel

/-- The context is cancelled between the two lines of a window.  The call returns with an
open connection that owes a reply, and the next command gets this reply. -/
theorem not_settled_canceled :
  let s := run (.plain false) (.impatient 3) .plain [twoRecipients]
    (pipelined [(250, "a"), (250, "c")])
  let x := executeLocked (.plain false) (.impatient 3)
    [{ verb := ascii "NOOP", syncPoint := true }] s
  ¬ Settled s ∧ x.1 = .ok [⟨250, ascii "a", [ascii "a"]⟩] ∧
    (dialogue x.2.log).fifo.pairs
      = [(.line (ascii "RCPT TO:<a>") .plain, ⟨250, ascii "a", [ascii "a"]⟩)]
  := by
  refine ⟨?_, by decide +kernel, by decide +kernel⟩
  rintro (h | h)
  · revert h
    decide +kernel
  · have h := h.drained
    revert h
    rw [Drained]
    decide +kernel

end GoSmtp.Client
