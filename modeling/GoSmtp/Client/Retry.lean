import GoSmtp.Client.LastChunk

/-!
# Content that is sent in chunks

The server takes the chunks of a transaction together.  A call of `Client.Data` that fails after
some of its chunks leaves the transaction open, and the next call adds its own chunks.
`RSET` is the only way to get rid of the first ones, but the client does not ask for it.
-/

namespace GoSmtp.Client

variable {φ ω μ : Type}
variable {recipients : List Bytes} {n : Nat} {source : Source φ} {opts : Options} {s : Conn φ ω}
  {o : DataOptions}

/-! ### The chunks of a transaction -/

/-- The chunks of the transaction, after one more event. -/
def WireEvent.carry (octets : Bytes) : WireEvent → Bytes
  | .opened => []
  | .sent (.chunk chunk _) _ => octets ++ chunk
  | _ => octets

/-- The octets of all chunks that were written since the last `MAIL` that was accepted. -/
def carried (log : List WireEvent) : Bytes := log.foldl WireEvent.carry []

theorem carried_append (log new : List WireEvent) :
  carried (log ++ new) = new.foldl WireEvent.carry (carried log)
  := List.foldl_append

@[simp]
theorem carried_noted (log : List WireEvent) (completes : Bool) :
  carried (log ++ noted completes) = carried log
  := by
  rw [carried_append]
  cases completes <;> rfl

@[simp]
theorem carried_chunk (log : List WireEvent) (chunk : Bytes) (last : Bool) (n : Nat) :
  carried (log ++ [.sent (.chunk chunk last) n]) = carried log ++ chunk
  := by
  rw [carried_append]
  rfl

@[simp]
theorem carried_reply (log : List WireEvent) (r : Reply) :
  carried (log ++ [.reply r]) = carried log
  := by
  rw [carried_append]
  rfl

@[simp]
theorem carried_replies (log : List WireEvent) (rs : List Reply) :
  carried (log ++ rs.map .reply) = carried log
  := by
  induction rs generalizing log with
  | nil => rw [List.map_nil, List.append_nil]
  | cons r rs ih => rw [List.map_cons, List.append_cons, ih, carried_reply]

/-! ### A call that returns no error -/

section Chunks

variable {opts : Options} {env : Env φ ω} {s : Conn φ ω} {Q : Reply → Conn φ ω → Prop}
  {E : Option (ClientError φ) → Conn φ ω → Prop} (hE : ∀ e s, E (some e) s)
include hE

theorem wp_chunkCarried {chunk : Bytes} {last : Bool} (hlen : chunk.length ≤ maxBDATChunkSize)
    (hQ : ∀ r s', carried s'.log = carried s.log ++ chunk → Q r s') :
  wp (exchangeChunk opts env recipients chunk last) Q E s
  := by
  rw [exchangeChunk, wp_bind, wp_mapErr]
  apply wp_writeBDATChunk hlen
  · intro w
    rw [wp_mapErr]
    apply wp_readAny
    · intro r replies w _ _
      apply hQ
      simp only [carried_reply, carried_chunk, carried_noted]
    · intro _ _
      apply hE
    · intro _ _ _ _ _ _
      apply hE
    · intro _ _ _ _ _ _
      apply hE
  · intro _ _ _ _ _
    apply hE

theorem wp_finishCarried {first : Reply} {octets : Bytes}
    (hrecipients : recipients ≠ []) (hs : carried s.log = octets) :
  wp (finishBDAT opts env recipients first)
    (fun x s' => x.err = none → carried s'.log = octets) E s
  := by
  have hfinal (s : Conn φ ω) (hs : carried s.log = octets) :
      wp (bdatFinalReplies opts env recipients first)
        (fun x s' => x.err = none → carried s'.log = octets) E s := by
    rw [bdatFinalReplies.eq_def]
    split
    · obtain ⟨recipient, recipients, rfl⟩ := List.exists_cons_of_ne_nil hrecipients
      rw [wp_bind, wp_read, wp_bind]
      apply wp_lmtpReplies
      · intro rs replies w _ _
        apply wp_lmtpEnd
        · intro hsome
          exact absurd rfl hsome
        · intro _ w _
          rw [carried_replies, hs]
        · simp
      · intro rs e w replies log _ _ _
        apply wp_lmtpEnd
        · simp
        · simp
        · simp
    · apply wp_sharedResult
      · intro _ _
        exact hs
      · intro _ _ _
        apply hE
  rw [finishBDAT, wp_bind, wp_update, wp_bind, wp_unlessClosed]
  split <;> exact hfinal _ hs

end Chunks

/-- `Client.Data` gets to the chunk loop. -/
structure Ready (s : Conn φ ω) (o : DataOptions) : Prop where
  advertised : s.advertises (ascii "CHUNKING") = true
  valid : o.Valid
  state : s.state = .transaction
  recipients : s.recipients ≠ []

/-- The call returned no error: it got to a last chunk, and the chunks that were written are
those of the source. -/
structure Delivered (s : Conn φ ω) (source : Source φ) (o : DataOptions) (log : List WireEvent) :
    Prop where
  ready : Ready s o
  ends : source.ends o.size.toNat 0 = true
  content : carried log = carried s.log ++ source.taken o.size.toNat 0

section Calls

variable {opts : Options} {env : Env φ ω} {s : Conn φ ω} {source : Source φ} {o : DataOptions}

theorem wp_loopCarried (hready : Ready s o) {s' : Conn φ ω} (hs : s'.log = s.log) :
  wp (bdatLoop opts env s.recipients o.size.toNat (source.size + 1) source)
    (fun x s' => x.err = none → Delivered s source o s'.log) (fun e _ => e ≠ none) s'
  := by
  obtain ⟨hpos, hsize⟩ := hready.valid
  have hpos : 0 < o.size.toNat := by omega
  have hsize : o.size.toNat ≤ maxBDATChunkSize := by omega
  -- What was carried, and what the rest of the source will add, stays the same.
  apply wp_bdatLoop (fun rest s' => rest.ends o.size.toNat 0 = source.ends o.size.toNat 0 ∧
    carried s'.log ++ rest.taken o.size.toNat 0 = carried s.log ++ source.taken o.size.toNat 0)
    hpos (Nat.lt_succ_self _)
  · rw [hs]
    exact ⟨rfl, rfl⟩
  · intro _ _ _ h
    exact h
  · simp
  · simp
  · rintro source' s' chunk e rest ⟨hends, hcarried⟩ hread he
    have hlen := Nat.le_trans (Source.readFull_progress hread).1 hsize
    obtain ⟨-, htrue, htaken⟩ | ⟨⟨e', rfl⟩, -⟩ := Source.readFull_short hpos hread
    · rw [wp_bind]
      apply wp_chunkCarried (fun _ _ => Option.some_ne_none _) hlen
      intro r s'' hchunk
      apply wp_mono (wp_finishCarried (fun _ _ => Option.some_ne_none _) hready.recipients hchunk)
        _ fun _ _ => id
      intro x s'' hnone herr
      refine ⟨hready, hends.symm.trans htrue, ?_⟩
      rw [hnone herr, ← hcarried, htaken]
    · exact absurd rfl (he e')
  · rintro source' s' chunk rest ⟨hends, hcarried⟩ hread
    have hlen := Nat.le_trans (Source.readFull_progress hread).1 hsize
    obtain ⟨hends', htaken⟩ := Source.readFull_full hpos hread
    rw [wp_bind]
    apply wp_chunkCarried (fun _ _ => Option.some_ne_none _) hlen
    intro r s'' hchunk
    apply wp_expectReply
    · intro _
      refine ⟨hends'.symm.trans hends, ?_⟩
      rw [hchunk, List.append_assoc, ← htaken, hcarried]
    · simp

/-- If `Client.Data` returns no error, then it has added the octets that it read to those of
the transaction. -/
theorem wp_dataCarried (ho : o.useChunking = true) :
  wp (data opts env source o) (fun x s' => x.err = none → Delivered s source o s'.log)
    (fun _ _ => False) s
  := by
  rw [data, returning, wp_bind, wp_attempt, wp_bind, wp_read, ho,
    if_neg (by simp), wp_ite]
  refine ⟨by simp, fun hext => ?_⟩
  rw [wp_ite]
  refine ⟨by simp, fun hsize => ?_⟩
  rw [bdat, wp_bind, wp_canceled, wp_ite]
  refine ⟨by simp, fun _ => ?_⟩
  rw [wp_bind]
  apply wp_requireState
  · intro hstate
    rw [wp_bind, wp_read, wp_ite]
    refine ⟨by simp, fun hrecipients => ?_⟩
    have hready : Ready s o :=
      ⟨by simpa using hext, ⟨by omega, by omega⟩, List.mem_singleton.mp hstate,
        by simpa using hrecipients⟩
    refine wp_mono (wp_loopCarried hready ?_) ?_ ?_
    · rfl
    · intro _ _ h
      exact h
    · rintro (_ | e) s' he
      · exact he rfl
      · simp
  · simp

end Calls

/-! ### A peer that accepts everything -/

section Accepting

variable {opts : Options} {s : Conn φ ω} {r : Reply} (hr : r.code = 250)
include hr

theorem wp_lmtpAccepted {Q : Returned φ → Conn φ ω → Prop}
    {E : Option (ClientError φ) → Conn φ ω → Prop} {command : Bytes} {result : DataResult}
    (hn : recipients.length ≤ n) (hreplies : s.replies = List.replicate n (.item r))
    (hQ : ∀ result s', Q ⟨result, none⟩ s') :
  wp (lmtpReplies opts Env.plain command result recipients) Q E s
  := by
  induction recipients generalizing s result n with
  | nil => exact hQ _ _
  | cons recipient recipients ih =>
    obtain ⟨n, rfl⟩ := Nat.exists_eq_add_one.mpr (Nat.lt_of_lt_of_le (Nat.succ_pos _) hn)
    rw [List.replicate_succ] at hreplies
    rw [lmtpReplies, wp_bind, wp_attempt]
    refine wp_readPlain hreplies (by omega) ?_
    rw [wp_bind, wp_read]
    apply ih (Nat.le_of_succ_le_succ hn) rfl

theorem wp_finishAccepted (hrecipients : recipients ≠ [])
    (hn : recipients.length ≤ n) (hreplies : s.replies = List.replicate n (.item r)) :
  wp (finishBDAT opts Env.plain recipients r) (fun x _ => x.err = none) (fun _ _ => False) s
  := by
  have hfinal (s : Conn φ ω) (hreplies : s.replies = List.replicate n (.item r)) :
      wp (bdatFinalReplies opts Env.plain recipients r) (fun x _ => x.err = none)
        (fun _ _ => False) s := by
    rw [bdatFinalReplies.eq_def]
    split
    · obtain ⟨recipient, recipients, rfl⟩ := List.exists_cons_of_ne_nil hrecipients
      rw [wp_bind, wp_read, wp_bind]
      apply wp_lmtpAccepted hr (Nat.le_of_succ_le hn) hreplies
      intro result s'
      rw [lmtpEnd, wp_bind, wp_outside, wp_ite]
      refine ⟨by intros; contradiction, fun _ => rfl⟩
    · apply wp_sharedAccepted hr
  rw [finishBDAT, wp_bind, wp_update, wp_bind, wp_unlessClosed]
  split <;> exact hfinal _ hreplies

theorem wp_loopAccepted {size k : Nat} (hrecipients : recipients ≠ []) (hpos : 0 < size)
    (hsize : size ≤ maxBDATChunkSize) (hends : source.ends size 0 = true) (hk : source.size < k)
    (hn : source.size + recipients.length < n) (hreplies : s.replies = List.replicate n (.item r)) :
  wp (bdatLoop opts Env.plain recipients size k source) (fun x _ => x.err = none)
    (fun _ _ => False) s
  := by
  induction k generalizing source s n with
  | zero => cases hk
  | succ k ih =>
    obtain ⟨n, rfl⟩ := Nat.exists_eq_add_one.mpr (Nat.zero_lt_of_lt hn)
    rw [List.replicate_succ] at hreplies
    rw [bdatLoop, wp_bind, wp_canceled, wp_ite]
    refine ⟨by intros; contradiction, fun _ => ?_⟩
    rcases hread : source.readFull size with ⟨chunk, e, rest⟩
    have hlen := Nat.le_trans (Source.readFull_progress hread).1 hsize
    rcases e with _ | e
    · obtain hsmall := (Source.readFull_progress hread).2 rfl
      rw [wp_bind]
      apply wp_chunkPlain hlen hreplies (by omega)
      intro w m
      rw [wp_bind]
      apply wp_expectPlain (List.mem_singleton.mpr hr)
      apply ih ((Source.readFull_full hpos hread).1.symm.trans hends) (by omega) (by omega) rfl
    · have hlast : wp (do
          let r ← exchangeChunk opts Env.plain recipients chunk true
          finishBDAT opts Env.plain recipients r) (fun x _ => x.err = none)
          (fun _ _ => False) s := by
        rw [wp_bind]
        apply wp_chunkPlain hlen hreplies (by omega)
        intro w m
        refine wp_finishAccepted hr hrecipients ?_ rfl
        omega
      cases e with
      | eof => exact hlast
      | unexpectedEOF => exact hlast
      | other e =>
        obtain ⟨he, -, -⟩ | ⟨-, hfalse⟩ := Source.readFull_short hpos hread
        · exact absurd rfl (he e)
        · rw [hends] at hfalse
          cases hfalse

end Accepting

/-- The transaction, with another peer. -/
def Conn.answered (s : Conn φ ω) (replies : Feed Reply φ) : Conn φ ω :=
  { s with replies := replies }

theorem wp_dataAccepted (ho : o.useChunking = true) (hready : Ready s o)
    (hends : source.ends o.size.toNat 0 = true) :
  ∃ replies, wp (data opts Env.plain source o) (fun x _ => x.err = none) (fun _ _ => False)
    (s.answered replies)
  := by
  obtain ⟨hext, ⟨hpos, hsize⟩, hstate, hrecipients⟩ := hready
  let r : Reply := ⟨250, [], []⟩
  use List.replicate (source.size + s.recipients.length + 1) (.item r)
  have hext : (s.answered (List.replicate (source.size + s.recipients.length + 1)
    (.item r))).advertises (ascii "CHUNKING") = true := hext
  rw [data, returning, wp_bind, wp_attempt, wp_bind, wp_read, ho,
    if_neg (by simp), hext, if_neg (by simp), if_neg (by omega)]
  rw [bdat, wp_bind, wp_canceled, wp_ite]
  refine ⟨by intros; contradiction, fun _ => ?_⟩
  rw [wp_bind]
  refine wp_requirePlain (List.mem_singleton.mpr hstate) ?_
  rw [wp_bind, wp_read, if_neg (by simpa [Conn.answered] using hrecipients)]
  refine wp_mono (wp_loopAccepted (r := r) rfl hrecipients (by omega) (by omega) hends
    (Nat.lt_succ_self _) (Nat.lt_succ_self _) rfl) ?_ ?_
  · intro _ _ h
    exact h
  · simp

/-- If the call returns no error, then the chunks of the transaction are the octets that the
call has read, whatever the peer and the context do. -/
def OwnContent (opts : Options) (s : Conn φ ω) (source : Source φ) (o : DataOptions) : Prop :=
  ∀ (env : Env φ ω) (replies : Feed Reply φ),
    wp (data opts env source o)
      (fun x s' => x.err = none → carried s'.log = source.taken o.size.toNat 0)
      (fun _ _ => False) (s.answered replies)

theorem ownContent_iff (ho : o.useChunking = true) :
  OwnContent opts s source o ↔
    ¬ (Ready s o ∧ source.ends o.size.toNat 0 = true ∧ carried s.log ≠ [])
  := by
  constructor
  · rintro hown ⟨hready, hends, hcarried⟩
    obtain ⟨replies, haccepted⟩ : ∃ replies, wp (data opts Env.plain source o)
        (fun x _ => x.err = none) (fun _ _ => False) (s.answered replies) :=
      wp_dataAccepted ho hready hends
    have hdelivered := wp_and (wp_dataCarried ho) haccepted
    apply Exec.not_wp_false (wp_mono (wp_and hdelivered (hown Env.plain replies)) ?_ ?_)
    · rintro x s' ⟨⟨hcontent, hnone⟩, hown⟩
      have hsame := (hown hnone).symm.trans (hcontent hnone).content
      exact hcarried (List.self_eq_append_left.mp hsame)
    · rintro _ _ ⟨⟨hfalse, -⟩, -⟩
      exact hfalse
  · intro h env replies
    apply wp_mono (wp_dataCarried ho) _ fun _ _ => id
    intro x s' hdelivered hnone
    obtain ⟨⟨hext, hvalid, hstate, hrecipients⟩, hends, hcontent⟩ := hdelivered hnone
    have hempty : carried s.log = [] := by
      by_contra hcarried
      exact h ⟨⟨hext, hvalid, hstate, hrecipients⟩, hends, hcarried⟩
    rw [hcontent]
    exact congrArg (· ++ source.taken o.size.toNat 0) hempty

/-! ### Runs -/

/-- After any sequence of calls, the message of a call that sends chunks is its own, unless
chunks were written before in the same transaction and the call gets to a last one. -/
theorem ownContent_run (opts : Options) (env : Env φ ω) (crypto : Sasl.Crypto)
    (calls : List (ClientCall φ ω μ)) (s : Conn φ ω) (source : Source φ) (chunkSize : Int) :
  OwnContent opts (run opts env crypto calls s) source (chunks chunkSize) ↔
    ¬ (Ready (run opts env crypto calls s) (chunks chunkSize) ∧
      source.ends (chunks chunkSize).size.toNat 0 = true ∧
      carried (run opts env crypto calls s).log ≠ [])
  := ownContent_iff rfl

/-- A transaction with one recipient, and a call that fails after its first chunk. -/
def failedOnce : List (ClientCall Unit Unit Unit) :=
  [ .mail ⟨none, [ascii "FROM:<a@b>"], fun _ => none, id, false⟩,
    .rcpt [⟨ascii "c@d", [ascii "TO:<c@d>"]⟩] fun _ => none,
    .data [⟨ascii "x", none⟩, ⟨[], some (.other ())⟩] (chunks 1) ]

/-- The octet of the call that failed is part of the message of the next call. -/
theorem not_ownContent_failedOnce :
  ¬ OwnContent (.plain false)
    (run (.plain false) Env.plain .plain failedOnce
      (.scripted .greeted ["CHUNKING"] [] [(250, "ok"), (250, "ok"), (250, "ok")] ()))
    [⟨ascii "y", some .eof⟩] (chunks 1)
  := by
  rw [ownContent_iff rfl, not_not]
  refine ⟨⟨?_, ?_, ?_, ?_⟩, ?_, ?_⟩
  · decide +kernel
  · exact ⟨by decide, by decide⟩
  · decide +kernel
  · decide +kernel
  · decide +kernel
  · decide +kernel

end GoSmtp.Client
