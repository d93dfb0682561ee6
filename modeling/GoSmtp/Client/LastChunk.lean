import GoSmtp.Client.FinalStatus

/-!
# The last chunk

With DATA the content ends where the source reports `io.EOF`, and every other error closes
the connection.  With BDAT the content is read with `io.ReadFull`, which reports `io.EOF`
inside of a chunk as `io.ErrUnexpectedEOF`, and which drops an error that comes with the
octets that complete a chunk.  So the chunk loop sends a last chunk for a source that fails
with `io.ErrUnexpectedEOF`, and it may do so for a source that fails at the end of a chunk.
-/

namespace GoSmtp.Client

variable {φ ω : Type}
variable {e : Option (SourceError φ)} {s : Conn φ ω} {r : Reply} {rest : Source φ}
  {recipients : List Bytes} {opts : Options}
variable {source : Source φ} {k size : Nat} {o : DataOptions} {octets : Bytes}

namespace Source

/-! ### Where the chunk loop ends -/

/-- The error of a segment is dropped: the segment completes a chunk that has `k` octets. -/
def drops (size k : Nat) (seg : Segment φ) : Bool :=
  !seg.octets.isEmpty && (k + seg.octets.length) % size == 0

/-- Whether the chunk loop gets to a last chunk.  The current chunk has `k` octets. -/
def ends (size : Nat) : Nat → Source φ → Bool
  | _, [] => true
  | k, seg :: rest =>
    match seg.err with
    | none => ends size ((k + seg.octets.length) % size) rest
    | some .eof => true
    | some .unexpectedEOF => if drops size k seg then ends size 0 rest else true
    | some (.other _) => if drops size k seg then ends size 0 rest else false

/-- The octets that the chunk loop reads if nothing else stops it. -/
def taken (size : Nat) : Nat → Source φ → Bytes
  | _, [] => []
  | k, seg :: rest =>
    match seg.err with
    | none => seg.octets ++ taken size ((k + seg.octets.length) % size) rest
    | some .eof => seg.octets
    | some _ => seg.octets ++ if drops size k seg then taken size 0 rest else []

theorem ends_of_eof (h : source.firstError = .eof) (k : Nat) :
  ends size k source = true
  := by
  induction source generalizing k with
  | nil => rfl
  | cons seg source ih =>
    obtain ⟨octets, _ | e⟩ := seg
    · apply ih h
    · obtain rfl : e = .eof := h
      rfl

/-- What `io.ReadFull` tells about the end of the source. -/
inductive ChunkRead (size k : Nat) (source : Source φ) :
    Bytes × Option (SourceError φ) × Source φ → Prop where
  /-- The chunk is complete. -/
  | full {w : Bytes} {e : Option (SourceError φ)} {rest : Source φ} (hlen : w.length = size - k)
      (hends : ends size k source = ends size 0 rest)
      (htaken : taken size k source = w ++ taken size 0 rest) : ChunkRead size k source (w, e, rest)
  /-- The source has ended, or failed with `io.ErrUnexpectedEOF`. -/
  | last {w : Bytes} {e : SourceError φ} {rest : Source φ} (hlen : w.length < size - k)
      (he : ∀ e', e ≠ .other e') (hends : ends size k source = true)
      (htaken : taken size k source = w) : ChunkRead size k source (w, some e, rest)
  /-- The source has failed. -/
  | other {w : Bytes} {e : φ} {rest : Source φ} (hlen : w.length < size - k)
      (hends : ends size k source = false) : ChunkRead size k source (w, some (.other e), rest)

theorem fill_zero (source : Source φ) :
  fill 0 source = ([], none, source)
  := by
  cases source <;> rfl

theorem ChunkRead.cons {w : Bytes} (hlen : k + octets.length < size)
    (h : ChunkRead size (k + octets.length) source (w, e, rest)) :
  ChunkRead size k (⟨octets, none⟩ :: source) (octets ++ w, e, rest)
  := by
  have hmod : (k + octets.length) % size = k + octets.length := Nat.mod_eq_of_lt hlen
  cases h with
  | full hfull hends htaken =>
    apply ChunkRead.full
    · rw [List.length_append]
      omega
    · rw [ends, hmod]
      exact hends
    · rw [taken, hmod, htaken, List.append_assoc]
  | last hshort he hends htaken =>
    apply ChunkRead.last _ he
    · rw [ends, hmod]
      exact hends
    · rw [taken, hmod, htaken]
    · rw [List.length_append]
      omega
  | other hshort hends =>
    apply ChunkRead.other
    · rw [List.length_append]
      omega
    · rw [ends, hmod]
      exact hends

theorem chunkRead_error {e : SourceError φ} (hlen : k + octets.length < size) :
  ChunkRead size k (⟨octets, some e⟩ :: source) (octets, some e, rest)
  := by
  have hdrops : drops size k ⟨octets, some e⟩ = false := by
    rcases octets with _ | ⟨b, octets⟩
    · rfl
    · simp only [drops, Nat.mod_eq_of_lt hlen]
      simp
  cases e with
  | eof => exact .last (by omega) (by simp) rfl rfl
  | unexpectedEOF =>
    apply ChunkRead.last (by omega) (by simp)
    · rw [ends, hdrops, if_neg Bool.false_ne_true]
    · rw [taken, hdrops, if_neg Bool.false_ne_true, List.append_nil]
  | other e =>
    apply ChunkRead.other (by omega)
    simp [ends, hdrops]

theorem chunkRead_complete (hk : k < size) (hlen : k + octets.length = size) :
  ChunkRead size k (⟨octets, e⟩ :: source) (octets, e, after source e)
  := by
  have hmod : (k + octets.length) % size = 0 := by rw [hlen, Nat.mod_self]
  have hdrops : drops size k ⟨octets, e⟩ = true := by
    have hne : octets ≠ [] := by
      rintro rfl
      simp at hlen
      omega
    simp [drops, hmod, hne]
  apply ChunkRead.full (by omega)
  · rcases e with _ | _ | _ | e
    · rw [ends, hmod]
      rfl
    · rfl
    · rw [ends, hdrops, if_pos rfl]
      rfl
    · rw [ends, hdrops, if_pos rfl]
      rfl
  · rcases e with _ | _ | _ | e
    · rw [taken, hmod]
      rfl
    · simp [taken, after]
    · simp [taken, hdrops, after]
    · simp [taken, hdrops, after]

theorem chunkRead_part {e' : Option (SourceError φ)}
    (hk : k < size) (hlen : size < k + octets.length) :
  ChunkRead size k (⟨octets, e⟩ :: source)
    (octets.take (size - k), e', ⟨octets.drop (size - k), e⟩ :: source)
  := by
  have hmod : (k + octets.length) % size = (0 + (octets.drop (size - k)).length) % size := by
    rw [List.length_drop, show k + octets.length = 0 + (octets.length - (size - k)) + size by omega,
      Nat.add_mod_right]
  have hdrops : drops size 0 ⟨octets.drop (size - k), e⟩ = drops size k ⟨octets, e⟩ := by
    have hne : octets ≠ [] := by
      rintro rfl
      simp at hlen
      omega
    have hne' : octets.drop (size - k) ≠ [] := by
      rw [Ne, List.drop_eq_nil_iff]
      omega
    simp only [drops, hmod, List.isEmpty_eq_false_iff.mpr hne, List.isEmpty_eq_false_iff.mpr hne']
  apply ChunkRead.full
  · rw [List.length_take]
    omega
  · rcases e with _ | _ | _ | e <;> simp only [ends, hmod, hdrops]
  · rcases e with _ | _ | _ | e <;> simp only [taken, hmod, hdrops] <;>
      simp only [← List.append_assoc, List.take_append_drop]

theorem chunkRead_fill (hk : k < size) (source : Source φ) :
  ChunkRead size k source (fill (size - k) source)
  := by
  induction source generalizing k with
  | nil =>
    rw [fill, if_neg (by omega)]
    exact .last (Nat.sub_pos_of_lt hk) (by simp) rfl rfl
  | cons seg source ih =>
    obtain ⟨octets, e⟩ := seg
    rw [fill, if_neg (by omega)]
    rcases Nat.lt_trichotomy (k + octets.length) size with hlen | hlen | hlen
    · rw [if_pos (by simp only; omega)]
      rcases e with _ | e
      · have hrest := ih hlen
        rw [Nat.sub_add_eq] at hrest
        exact hrest.cons hlen
      · exact chunkRead_error hlen
    · rw [if_pos (by simp only; omega)]
      rcases e with _ | e
      · have hfull : ChunkRead size k (⟨octets, none⟩ :: source) (octets, none, source) :=
          chunkRead_complete hk hlen
        simp only [show size - k - octets.length = 0 by omega, fill_zero, List.append_nil]
        exact hfull
      · exact chunkRead_complete hk hlen
    · rw [if_neg (by simp only; omega)]
      exact chunkRead_part hk hlen

section ReadFull

variable {size : Nat} (hsize : 0 < size) {source rest : Source φ} {w : Bytes}
include hsize

theorem readFull_full (h : source.readFull size = (w, none, rest)) :
  ends size 0 source = ends size 0 rest ∧ taken size 0 source = w ++ taken size 0 rest
  := by
  have hread := chunkRead_fill hsize source
  rw [Nat.sub_zero] at hread
  rw [readFull] at h
  rcases hf : fill size source with ⟨w', e', rest'⟩
  rw [hf] at hread h
  cases hread with
  | full hlen hends htaken =>
    simp only at h
    rw [if_pos (by omega)] at h
    cases h
    exact ⟨hends, htaken⟩
  | last hlen he hends htaken =>
    simp only at h
    rw [if_neg (by omega)] at h
    split at h <;> cases h
  | other hlen hends =>
    simp only at h
    rw [if_neg (by omega)] at h
    cases h

/-- A chunk that is not full is the last one, unless the source has failed with another
error. -/
theorem readFull_short {e : SourceError φ} (h : source.readFull size = (w, some e, rest)) :
  (∀ e', e ≠ .other e') ∧ ends size 0 source = true ∧ taken size 0 source = w ∨
    (∃ e', e = .other e') ∧ ends size 0 source = false
  := by
  have hread := chunkRead_fill hsize source
  rw [Nat.sub_zero] at hread
  rw [readFull] at h
  rcases hf : fill size source with ⟨w', e', rest'⟩
  rw [hf] at hread h
  cases hread with
  | full hlen hends htaken =>
    simp only at h
    rw [if_pos (by omega)] at h
    cases h
  | last hlen he hends htaken =>
    left
    simp only at h
    rw [if_neg (by omega)] at h
    split at h
    · cases h
      refine ⟨?_, hends, htaken⟩
      split <;> simp
    · cases h
      exact ⟨he, hends, htaken⟩
  | other hlen hends =>
    right
    simp only at h
    rw [if_neg (by omega)] at h
    cases h
    exact ⟨⟨_, rfl⟩, hends⟩

end ReadFull

end Source

/-! ### Calls that do not send a last chunk -/

/-- The options of `Client.Data` that ask for chunks. -/
def chunks (chunkSize : Int) : DataOptions where
  useChunking := true
  chunkSize := chunkSize

/-- The chunk size is one that `transportData` accepts. -/
def DataOptions.Valid (o : DataOptions) : Prop := 0 < o.size ∧ o.size ≤ maxBDATChunkSize

/-- No last chunk was written since `s`, not even in part. -/
def NoLast (s : Conn φ ω) (log : List WireEvent) : Prop :=
  ∃ new, log = s.log ++ new ∧ .completing ∉ new ∧ ∀ chunk n, .sent (.chunk chunk true) n ∉ new

theorem noLast_self (s : Conn φ ω) :
  NoLast s s.log
  := ⟨[], (List.append_nil _).symm, List.not_mem_nil, fun _ _ => List.not_mem_nil⟩

theorem NoLast.append {log new : List WireEvent} (h : NoLast s log)
    (hnew : .completing ∉ new) (hchunk : ∀ chunk n, .sent (.chunk chunk true) n ∉ new) :
  NoLast s (log ++ new)
  := by
  obtain ⟨new', rfl, hnew', hchunk'⟩ := h
  use new' ++ new, List.append_assoc _ _ _
  simp [hnew, hnew', hchunk, hchunk']

/-- A call for a source that fails returns an error, and does not write a last chunk. -/
def Faithful (source : Source φ) (o : DataOptions) : Prop :=
  source.firstError ≠ .eof → ∀ (ω : Type) (opts : Options) (env : Env φ ω) (s : Conn φ ω),
    wp (data opts env source o) (fun x s' => x.err ≠ none ∧ NoLast s s'.log)
      (fun _ _ => False) s

/-- Some call for the source completes a message. -/
def Completes (source : Source φ) (o : DataOptions) : Prop :=
  ∃ (opts : Options) (env : Env φ Unit) (s : Conn φ Unit),
    wp (data opts env source o) (fun x _ => x.err = none) (fun _ _ => False) s

section Calls

variable {opts : Options} {env : Env φ ω} {s : Conn φ ω}

theorem wp_chunkNoLast {Q : Reply → Conn φ ω → Prop} {E : Option (ClientError φ) → Conn φ ω → Prop}
    {chunk : Bytes} {s' : Conn φ ω}
    (hlen : chunk.length ≤ maxBDATChunkSize) (hlog : NoLast s s'.log)
    (hQ : ∀ r s', NoLast s s'.log → Q r s') (hE : ∀ e s', NoLast s s'.log → E (some e) s') :
  wp (exchangeChunk opts env recipients chunk false) Q E s'
  := by
  have hsent : NoLast s (s'.log ++ noted false ++ [.sent (.chunk chunk false) 1]) := by
    rw [List.append_assoc]
    apply hlog.append <;> simp [noted]
  have hreply (r : Reply) :
      NoLast s (s'.log ++ noted false ++ [.sent (.chunk chunk false) 1] ++ [.reply r]) := by
    apply hsent.append <;> simp
  rw [exchangeChunk, wp_bind, wp_mapErr]
  apply wp_writeBDATChunk hlen
  · intro w
    rw [wp_mapErr]
    apply wp_readAny
    · intro r replies w _ _
      apply hQ r _ (hreply r)
    · intro _ w
      apply hE _ _ hsent
    · rintro e w replies log _ (rfl | ⟨r, rfl⟩)
      · apply hE _ _ hsent
      · apply hE _ _ (hreply r)
    · intro e r replies w _ _
      apply hE _ _ (hreply r)
  · rintro e w log _ (rfl | rfl)
    · apply hE
      apply hlog.append <;> simp [noted]
    · apply hE _ _ hsent

theorem wp_bdatNoLast {E : Option (ClientError φ) → Conn φ ω → Prop}
    (hpos : 0 < size) (hsize : size ≤ maxBDATChunkSize)
    (hends : source.ends size 0 = false) (hE : ∀ e s', NoLast s s'.log → E (some e) s') :
  wp (bdat opts env source size) (fun _ _ => False) E s
  := by
  have hself := noLast_self s
  rw [bdat, wp_bind, wp_canceled, wp_ite]
  refine ⟨fun _ => hE _ _ hself, fun _ => ?_⟩
  rw [wp_bind]
  apply wp_requireState
  · intro _
    rw [wp_bind, wp_read, wp_ite]
    refine ⟨fun _ => hE _ _ hself, fun _ => ?_⟩
    apply wp_bdatLoop (fun source s' => source.ends size 0 = false ∧ NoLast s s'.log) hpos
      (Nat.lt_succ_self _)
    · exact ⟨hends, hself⟩
    · intro _ _ _ h
      exact h
    · rintro _ _ ⟨-, hlog⟩
      exact hE _ _ hlog
    · rintro _ _ _ _ _ ⟨-, hlog⟩ _
      exact hE _ _ hlog
    · rintro source s chunk e rest ⟨hends, -⟩ hread he
      rcases Source.readFull_short hpos hread with ⟨-, htrue, -⟩ | ⟨⟨e', rfl⟩, -⟩
      · rw [hends] at htrue
        cases htrue
      · exact absurd rfl (he e')
    · rintro source s chunk rest ⟨hends, hlog⟩ hread
      have hlen := Nat.le_trans (Source.readFull_progress hread).1 hsize
      rw [wp_bind]
      apply wp_chunkNoLast hlen hlog
      · intro r s' hlog
        apply wp_expectReply
        · intro _
          exact ⟨(Source.readFull_full hpos hread).1.symm.trans hends, hlog⟩
        · intro e _ _
          apply hE _ _ hlog
      · exact hE
  · intro _
    exact hE _ _ hself

theorem wp_dataNoLast (ho : o.useChunking = true) (hends : source.ends o.size.toNat 0 = false) :
  wp (data opts env source o) (fun x s' => x.err ≠ none ∧ NoLast s s'.log)
    (fun _ _ => False) s
  := by
  have hself := noLast_self s
  rw [data, returning, wp_bind, wp_attempt, wp_bind, wp_read, ho,
    if_neg (by simp), wp_ite]
  refine ⟨fun _ => ⟨by simp, hself⟩, fun _ => ?_⟩
  rw [wp_ite]
  refine ⟨fun _ => ⟨by simp, hself⟩, fun hsize => ?_⟩
  refine wp_mono (wp_bdatNoLast (by omega) (by omega) hends fun e s' hlog => ?_)
    (fun _ _ => False.elim) fun _ _ => id
  exact ⟨by simp, hlog⟩

theorem wp_dataFails (ho : o.useChunking = false) (hsource : source.firstError ≠ .eof) :
  wp (data opts env source o) (fun x _ => x.err ≠ none) (fun _ _ => False) s
  := by
  have hsend : wp (sendData opts env source) (fun _ _ => False) (fun e _ => e ≠ none) s := by
    rw [sendData, wp_bind, wp_canceled, wp_ite]
    refine ⟨fun _ => by simp, fun _ => ?_⟩
    rw [wp_bind]
    apply wp_requireState
    · intro _
      rw [wp_bind, wp_read, wp_ite]
      refine ⟨fun _ => by simp, fun _ => ?_⟩
      rw [wp_bind]
      apply wp_executeAny
      · intro r replies w _ _ _
        rw [wp_bind]
        apply wp_expectReply
        · intro _
          rw [wp_bind]
          apply wp_copyContent (Nat.lt_succ_self _)
          · intro h
            exact absurd h hsource
          · intro _ _ _
            simp
        · intro _ _ _
          simp
      all_goals
        intros
        simp
    · intro _
      simp
  rw [data, returning, wp_bind, wp_attempt, wp_bind, wp_read, ho,
    if_pos (by rfl), wp_ite]
  refine ⟨fun _ => by simp, fun _ => ?_⟩
  apply wp_mono hsend
  · simp
  · rintro (_ | e) s' he
    · exact he rfl
    · simp

end Calls

/-! ### Calls that complete a message -/

theorem lastAnswered_replicate {n : Nat} (hpos : 0 < size)
    (hr : r.code = 250) (hends : source.ends size 0 = true) (hn : source.size < n) :
  LastAnswered size source (List.replicate n (.item r)) r
  := by
  induction n generalizing source with
  | zero => omega
  | succ n ih =>
    rw [List.replicate_succ]
    rcases hread : source.readFull size with ⟨chunk, _ | e, rest⟩
    · have hsmall := (Source.readFull_progress hread).2 rfl
      apply LastAnswered.next hread hr
      apply ih ((Source.readFull_full hpos hread).1.symm.trans hends)
      omega
    · rcases Source.readFull_short hpos hread with ⟨he, -, -⟩ | ⟨-, hfalse⟩
      · apply LastAnswered.last hread he
      · rw [hends] at hfalse
        cases hfalse

/-- A transaction with one recipient, on a connection to a peer that advertises CHUNKING. -/
def inTransaction (replies : Feed Reply φ) : Conn φ Unit :=
  { (Conn.scripted .transaction ["CHUNKING"] [ascii "a@b"] [] () : Conn φ Unit) with
    replies := replies }

theorem inTransaction_advertises (replies : Feed Reply φ) :
  (inTransaction replies).advertises (ascii "CHUNKING") = true
  := by
  have hkeyword : ((ascii "CHUNKING", []) : Bytes × Bytes).1 == toUpper (ascii "CHUNKING") := by
    decide +kernel
  simpa [Conn.advertises, inTransaction, Conn.scripted] using hkeyword

theorem wp_sharedAccepted {command : Bytes} (hr : r.code = 250) :
  wp (sharedResult opts command recipients r) (fun x _ => x.err = none) (fun _ _ => False) s
  := by
  apply wp_sharedResult
  · intro _
    rfl
  · intro _ h _
    exact h hr

theorem completes_of_ends (ho : o.useChunking = true)
    (hvalid : o.Valid) (hends : source.ends o.size.toNat 0 = true) :
  Completes source o
  := by
  obtain ⟨hpos, hsize⟩ := hvalid
  let r : Reply := ⟨250, [], []⟩
  have hreplies : LastAnswered o.size.toNat source (List.replicate (source.size + 1) (.item r)) r :=
    lastAnswered_replicate (by omega) rfl hends (Nat.lt_succ_self _)
  use .plain false, Env.plain, inTransaction (List.replicate (source.size + 1) (.item r))
  rw [data, returning, wp_bind, wp_attempt, wp_bind, wp_read, ho,
    if_neg (by simp), if_neg (by rw [inTransaction_advertises]; simp),
    if_neg (by omega)]
  rw [bdat, wp_bind, wp_canceled, wp_ite]
  refine ⟨by intros; contradiction, fun _ => ?_⟩
  rw [wp_bind]
  refine wp_requirePlain (List.mem_singleton.mpr rfl) ?_
  rw [wp_bind, wp_read, if_neg (by simp [inTransaction, Conn.scripted])]
  refine wp_loopPlain rfl (by omega) (by omega) hreplies rfl (Nat.lt_succ_self _)
    (unbegun_self _) (by decide) ?_
  intro s' _
  apply wp_mono (wp_sharedAccepted rfl)
  · intro _ _ h
    exact h
  · simp

theorem completes_of_answered {s : Conn φ Unit} (ho : o.useChunking = false)
    (h : DataAnswered s source r) (hr : r.code = 250) (hbinary : s.binaryMIME = false) :
  Completes source o
  := by
  refine ⟨.plain false, Env.plain, s, ?_⟩
  rw [data, returning, wp_bind, wp_attempt, wp_bind, wp_read, ho,
    if_pos (by rfl), hbinary, if_neg (by simp)]
  refine wp_sendPlain rfl h (by omega) ?_
  intro s' _
  apply wp_mono (wp_sharedAccepted hr)
  · intro _ _ h
    exact h
  · simp

theorem completes_of_eof (hsource : source.firstError = .eof) :
  Completes source {}
  := by
  let replies : Feed Reply φ := Feed.items [⟨354, [], []⟩, ⟨250, [], []⟩]
  have hanswered : DataAnswered (inTransaction replies) source ⟨250, [], []⟩ :=
    ⟨rfl, by rintro ⟨⟩, hsource, _, _, rfl, rfl⟩
  exact completes_of_answered rfl hanswered rfl rfl

theorem not_completes (h : ∀ opts env (s : Conn φ Unit),
      wp (data opts env source o) (fun x _ => x.err ≠ none) (fun _ _ => False) s) :
  ¬ Completes source o
  := by
  rintro ⟨opts, env, s, hnone⟩
  apply Exec.not_wp_false (wp_mono (wp_and (h opts env s) hnone) ?_ ?_)
  · rintro x s' ⟨herr, hnone⟩
    exact herr hnone
  · rintro _ _ ⟨hfalse, -⟩
    exact hfalse

theorem completes_data_iff :
  Completes source {} ↔ source.firstError = .eof
  := by
  constructor
  · intro h
    by_contra hsource
    apply not_completes _ h
    intro opts env s
    apply wp_dataFails rfl hsource
  · apply completes_of_eof

theorem completes_chunks_iff (ho : o.useChunking = true) (hvalid : o.Valid) :
  Completes source o ↔ source.ends o.size.toNat 0 = true
  := by
  constructor
  · intro h
    by_contra hends
    apply not_completes _ h
    intro opts env s
    apply wp_mono (wp_dataNoLast ho (Bool.eq_false_iff.mpr hends))
    · intro _ _ h
      exact h.1
    · simp
  · apply completes_of_ends ho hvalid

theorem wp_dataRefused {env : Env φ ω} (ho : o.useChunking = true) (hvalid : ¬ o.Valid) :
  wp (data opts env source o) (fun x s' => x.err ≠ none ∧ NoLast s s'.log)
    (fun _ _ => False) s
  := by
  rw [data, returning, wp_bind, wp_attempt, wp_bind, wp_read, ho,
    if_neg (by simp), wp_ite]
  refine ⟨fun _ => ⟨by simp, noLast_self s⟩, fun _ => ?_⟩
  rw [DataOptions.Valid] at hvalid
  rw [if_pos (by omega)]
  exact ⟨by simp, noLast_self s⟩

/-- The content of a failing source is never completed, and the same sources are completed with
chunks and without, except for the sources that fail and still lead to a last chunk. -/
theorem lastChunk_iff (source : Source φ) (chunkSize : Int) :
  (Faithful source (chunks chunkSize) ∧
    ((chunks chunkSize).Valid → (Completes source {} ↔ Completes source (chunks chunkSize)))) ↔
  ¬ ((chunks chunkSize).Valid ∧ source.firstError ≠ .eof ∧
    source.ends (chunks chunkSize).size.toNat 0 = true)
  := by
  have hchunking : (chunks chunkSize).useChunking = true := rfl
  generalize chunks chunkSize = o at hchunking
  constructor
  · rintro ⟨-, hsame⟩ ⟨hvalid, hsource, hends⟩
    have hdata := (hsame hvalid).mpr (completes_of_ends hchunking hvalid hends)
    exact hsource (completes_data_iff.mp hdata)
  · intro h
    constructor
    · intro hsource ω opts env s
      by_cases hvalid : o.Valid
      · apply wp_dataNoLast hchunking
        rw [Bool.eq_false_iff]
        intro hends
        exact h ⟨hvalid, hsource, hends⟩
      · apply wp_dataRefused hchunking hvalid
    · intro hvalid
      rw [completes_data_iff, completes_chunks_iff hchunking hvalid]
      constructor
      · intro hsource
        apply Source.ends_of_eof hsource
      · intro hends
        by_contra hsource
        exact h ⟨hvalid, hsource, hends⟩

/-- A source that fails with `io.ErrUnexpectedEOF` completes a message with chunks. -/
theorem not_faithful_unexpectedEOF :
  ¬ Faithful ([⟨ascii "x", some .unexpectedEOF⟩] : Source Unit) (chunks 0)
  := by
  intro h
  have hends : Source.ends (φ := Unit) (chunks 0).size.toNat 0
      [⟨ascii "x", some .unexpectedEOF⟩] = true := by decide +kernel
  apply not_completes _ (completes_of_ends rfl ⟨by decide, by decide⟩ hends)
  intro opts env s
  apply wp_mono (h (by rintro ⟨⟩) Unit opts env s)
  · intro _ _ h
    exact h.1
  · simp

end GoSmtp.Client
