import GoSmtp.Client.Delivery

/-!
# Runs in which nothing fails

With a transport that takes everything and a context that is never cancelled, what a call
does is decided by its arguments and by the replies of the peer.  These rules compute it.
-/

namespace GoSmtp.Client

variable {φ ω : Type}
variable {Q : Unit → Conn φ ω → Prop}
variable {command : Bytes} {d : DotStuffWriter} {c : QueuedCommand} {recipients : List Bytes}

section Plain

variable {opts : Options} {s : Conn φ ω} {E : Option (ClientError φ) → Conn φ ω → Prop}
  {r : Reply} {replies : Feed Reply φ}

theorem wp_requirePlain {allowed : List SessionState} (h : s.state ∈ allowed) (hQ : Q () s) :
  wp (requireState command allowed) Q E s
  := by
  rw [requireState, wp_bind, wp_read, if_pos h]
  exact hQ

theorem wp_expectPlain {want : List Int} (h : r.code ∈ want) (hQ : Q () s) :
  wp (expectReply opts command r want) Q E s
  := by
  rw [expectReply, wp_bind, wp_read, unexpectedReply, if_pos h]
  exact hQ

theorem wp_writePlain {kind : LineKind} {told : Bytes} (hvalid : c.valid)
    (hQ : Q () { s with log := s.log ++ noted c.completes ++ [.sent (.line c.line kind) 1] }) :
  wp (writeLine Env.plain command c kind told) Q E s
  := by
  simp only [writeLine, encodeCommand, hvalid, Env.plain, wp_bind, wp_canceled, wp_ite,
    Bool.false_eq_true, Bool.not_true, false_implies, not_false_eq_true, true_implies, true_and,
    wp_noteCompleting, wp_outside, wp_record, wp_pure]
  exact hQ

theorem wp_readPlain {Q : Reply → Conn φ ω → Prop} (hr : s.replies = .item r :: replies)
    (hcode : r.code ≠ 421) (hQ : Q r { s with replies := replies, log := s.log ++ [.reply r] }) :
  wp (read opts Env.plain command) Q E s
  := by
  obtain ⟨_, w, state, base, ext, recipients, utf8, binary, log⟩ := s
  obtain rfl : _ = _ := hr
  simp [wp, read, readReply, Bind.bind, Pure.pure, Exec.read, canceled, Env.plain, Feed.next,
    hcode]
  exact hQ

theorem wp_executePlain {Q : Reply → Conn φ ω → Prop} (hopen : s.state ≠ .closed)
    (hshort : c.upper.length ≤ maxPipelineBytes) (hvalid : c.upper.valid)
    (hr : s.replies = .item r :: replies) (hcode : r.code ≠ 421) (hQ : Q r { s with
      replies := replies
      log := s.log ++ noted c.completes ++ [.sent c.upper.request 1] ++ [.reply r] }) :
  wp (executeOne opts Env.plain c) Q E s
  := by
  have hopen : ¬ s.closed = true := by simpa [Conn.closed] using hopen
  rw [executeOne_eq, wp_bind, wp_read, if_neg hopen, if_neg (Nat.not_lt.mpr hshort),
    wp_bind, checkCompletes]
  have hsend : wp (do
      classified c.upper (write Env.plain c.upper)
      classified c.upper (read opts Env.plain c.upper.verb)) Q E s := by
    rw [wp_bind, classified, wp_mapErr]
    apply wp_writePlain hvalid
    rw [classified, wp_mapErr]
    exact wp_readPlain hr hcode hQ
  split
  · simpa [Env.plain] using hsend
  · exact hsend

/-! ### DATA -/

theorem stuffed_apply {Q : Option (Cause φ) × DotStuffWriter → Conn φ ω → Prop} {env : Env φ ω}
    {f : Sink ω φ → DotStuffWriter → ω → Option (StuffError φ) × DotStuffWriter × ω}
    {d' : DotStuffWriter} {w : ω} (hf : f ⟨env.write⟩ d s.world = (none, d', w))
    (hQ : Q (none, d') { s with world := w }) :
  wp (stuffed f env d) Q E s
  := by
  simp only [wp, stuffed, hf]
  exact hQ

theorem wp_copyPlain {Q : DotStuffWriter → Conn φ ω → Prop} {n : Nat} {source : Source φ}
    (hn : source.size < n) (hsource : source.firstError = .eof)
    (hd : d.closed = false) (hQ : ∀ d w, d.closed = false → Q d { s with world := w }) :
  wp (copyContent Env.plain n source d) Q E s
  := by
  induction n generalizing source d s with
  | zero => cases hn
  | succ n ih =>
    have hoctets {Q : DotStuffWriter → Conn φ ω → Prop} (v : Bytes)
        (hQ : ∀ d w, d.closed = false → Q d { s with world := w }) :
        wp (copyOctets Env.plain v d) Q E s := by
      rw [copyOctets, wp_ite]
      refine ⟨fun _ => hQ d s.world hd, fun _ => ?_⟩
      have hsink (p : Bytes) (o : ω) :
          (Sink.mk (Env.plain : Env φ ω).write).write p o = (none, o) := rfl
      obtain ⟨herror, hclosed⟩ := DotStuffWriter.write_sound hsink hd v s.world
      rw [wp_bind]
      apply stuffed_apply (Prod.ext herror rfl)
      apply hQ _ _ hclosed
    rw [copyContent, wp_bind, wp_canceled, wp_ite]
    refine ⟨by intros; contradiction, fun _ => ?_⟩
    rcases hread : source.read copyBufferSize with ⟨v, e, rest⟩
    rw [wp_bind]
    apply hoctets
    intro d w hd
    rcases e with _ | e
    · obtain ⟨hsize, herror⟩ := Source.read_progress (by decide) hread
      apply ih (by omega) (herror.trans hsource) hd
      exact hQ
    · obtain rfl : e = .eof := (Source.read_error hread).symm.trans hsource
      apply hQ d w hd

theorem wp_endPlain (hd : d.closed = false) (hQ : ∀ w, Q () { s with
      world := w
      log := s.log ++ [.completing] ++ [.sent .endOfData (finalReplies opts recipients)] }) :
  wp (endContent opts Env.plain recipients d) Q E s
  := by
  have hsink (p : Bytes) (o : ω) :
      (Sink.mk (Env.plain : Env φ ω).write).write p o = (none, o) := rfl
  rw [endContent, wp_bind, wp_record, wp_bind]
  refine stuffed_apply (Prod.ext (DotStuffWriter.close_sound hsink hd s.world) rfl) ?_
  rw [wp_bind, wp_record, wp_bind, wp_canceled, wp_ite]
  exact ⟨by intros; contradiction, fun _ => hQ _⟩

/-! ### BDAT -/

theorem wp_chunkPlain {Q : Reply → Conn φ ω → Prop} {chunk : Bytes} {last : Bool}
    (hlen : chunk.length ≤ maxBDATChunkSize) (hr : s.replies = .item r :: replies)
    (hcode : r.code ≠ 421) (hQ : ∀ w n, Q r { s with
      world := w
      replies := replies
      log := s.log ++ noted last ++ [.sent (.chunk chunk last) n] ++ [.reply r] }) :
  wp (exchangeChunk opts Env.plain recipients chunk last) Q E s
  := by
  have hoctets {Q : Option φ → Conn φ ω → Prop} {E : Option (ClientError φ) → Conn φ ω → Prop}
      {s : Conn φ ω} (hQ : Q none s) : wp (writeOctets Env.plain chunk) Q E s := by
    rw [writeOctets, wp_ite]
    exact ⟨fun _ => hQ, fun _ => hQ⟩
  rw [exchangeChunk, wp_bind, wp_mapErr, writeBDATChunk, if_neg (by omega),
    wp_bind, wp_noteCompleting, wp_bind, wp_outside]
  simp only [Env.plain]
  rw [wp_bind]
  apply hoctets
  rw [wp_bind, wp_record, wp_bind, wp_canceled, wp_ite]
  refine ⟨by simp, fun _ => ?_⟩
  rw [wp_pure, wp_mapErr]
  exact wp_readPlain hr hcode (hQ _ _)

end Plain

end GoSmtp.Client
