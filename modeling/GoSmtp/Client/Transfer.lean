import GoSmtp.Client.LastChunk
import GoSmtp.Wire.CommandFraming
import GoSmtp.Wire.Decimal

/-!
# Transfer of content in chunks

What `bdat` of the client writes, against the reader of commands, the parser of BDAT and the
reader of chunks on the server's side.  The two halves meet at `Cut`: the client writes the cut
of the content into chunks, and the server reads every cut back.
-/

namespace GoSmtp.Client

variable {φ ω : Type}
variable {size : Nat} {chunk w : Bytes} {chunks : List (Bytes × Bool)}

/-- Content in chunks of the given size, of which the last one is short and carries LAST. -/
inductive Cut (size : Nat) : Bytes → List (Bytes × Bool) → Prop where
  | last {chunk : Bytes} (h : chunk.length < size) : Cut size chunk [(chunk, true)]
  | next {chunk w : Bytes} {chunks : List (Bytes × Bool)} (h : chunk.length = size)
      (hrest : Cut size w chunks) : Cut size (chunk ++ w) ((chunk, false) :: chunks)

/-- A chunk on the wire. -/
def frame (chunk : Bytes × Bool) : Bytes := bdatLine chunk.1.length chunk.2 ++ chunk.1

/-! ### The receiver -/

/-- `ReadCommand`, `ParseBDATArgument` and `ReadBDATChunk`. -/
def readChunk (limits : WireLimits) (s : Feed UInt8 φ) :
    Option ((Bytes × Bool) × Feed UInt8 φ) :=
  match LineReader.readCommand limits s with
  | (.error _, _) => none
  | (.ok c, s) =>
    if toUpper c.verb == ascii "BDAT" then
      match parseBDATArgument c.argument with
      | .error _ => none
      | .ok framing =>
        match readBDATChunk framing.size s with
        | (w, none, s) => some ((w, framing.last), s)
        | _ => none
    else none

/-- Chunks through the one that carries LAST, which has to be among the first `n`. -/
def readChunks (limits : WireLimits) :
    Nat → Feed UInt8 φ → Option (List (Bytes × Bool) × Feed UInt8 φ)
  | 0, _ => none
  | n + 1, s => do
    let (chunk, s) ← readChunk limits s
    if chunk.2 then some ([chunk], s)
    else
      let (chunks, s) ← readChunks limits n s
      some (chunk :: chunks, s)

/-- The words after BDAT. -/
def bdatArgs (size : Nat) (last : Bool) : List Bytes :=
  itoa size :: if last then [ascii "LAST"] else []

theorem buildCommand_bdatArgs (size : Nat) (last : Bool) :
  buildCommand (ascii "BDAT") (bdatArgs size last) = bdatLine size last
  := by
  cases last <;> simp [buildCommand, bdatArgs, bdatLine, itoa] <;> rfl

theorem sp_not_mem_itoa (n : Nat) :
  sp ∉ itoa n
  := fun h => absurd (itoa_digits (Int.natCast_nonneg n) h).1 (by decide)

theorem announced_bdatArgs (n : Nat) (last : Bool) :
  announced (joinArgs (bdatArgs n last)) = some (n, last)
  := by
  have hdecimal : decimal (itoa n) = some n := by
    have hdigits : (itoa n).all (fun c => 48 ≤ c && c ≤ 57) = true := by
      simpa using fun c hc => itoa_digits (Int.natCast_nonneg n) hc
    rw [decimal, hdigits, List.isEmpty_eq_false_iff.mpr (itoa_ne_nil n), foldl_itoa]
    rfl
  have hwords : ∀ a ∈ bdatArgs n last, sp ∉ a := by
    cases last <;> simp [bdatArgs, sp_not_mem_itoa]
    decide
  have hfields : fields (joinArgs (bdatArgs n last)) = bdatArgs n last := by
    rw [fields, joinArgs, List.splitOn_intercalate sp hwords (by simp [bdatArgs])]
    cases last with
    | false => simp [bdatArgs, itoa_ne_nil]
    | true => simpa [bdatArgs, itoa_ne_nil] using by decide
  rw [announced, hfields]
  cases last with
  | false => simp [bdatArgs, hdecimal]
  | true => simpa [bdatArgs, hdecimal] using by decide

theorem bdatLine_length {size : Nat} (h : size ≤ maxBDATChunkSize) (last : Bool) :
  (bdatLine size last).length ≤ 20
  := by
  have hdigits : (itoa size).length ≤ 8 := by
    apply (itoa_length_le (by decide)).mpr
    exact Nat.lt_of_le_of_lt h (by decide)
  rw [← buildCommand_bdatArgs]
  cases last <;> simp [buildCommand, bdatArgs, crlf, ascii] <;> omega

theorem validateCommandToken_bdatArgs (size : Nat) (last : Bool) :
  ∀ a ∈ bdatArgs size last, validateCommandToken a = true
  := by
  have hsize : validateCommandToken (itoa size) = true := by
    simp only [validateCommandToken, Bool.not_eq_true', List.any_eq_false]
    intro b hb
    obtain ⟨hfrom, hto⟩ := itoa_digits (Int.natCast_nonneg size) hb
    simp only [isControl, ← UInt8.toNat_inj, UInt8.lt_iff_toNat_lt, UInt8.le_iff_toNat_le,
      Bool.or_eq_true, decide_eq_true_eq, beq_iff_eq] at *
    simp at *
    omega
  cases last with
  | false => simpa [bdatArgs] using hsize
  | true => simpa [bdatArgs] using ⟨hsize, by decide⟩

section Receiver

variable {limits : WireLimits} (hlimits : 20 ≤ limits.commandLine)
include hlimits

theorem readCommand_bdatLine (hsize : size ≤ maxBDATChunkSize) (last : Bool) (s : Feed UInt8 φ) :
  LineReader.readCommand limits (Feed.items (bdatLine size last) ++ s) =
    (.ok ⟨ascii "BDAT", joinArgs (bdatArgs size last)⟩, s)
  := by
  have hvalid := validateCommandToken_bdatArgs size last
  have hencode : encodeCommands (Sink.collect : Sink Bytes Empty)
      [(ascii "BDAT", bdatArgs size last)] [] = (none, bdatLine size last) := by
    have hall : (bdatArgs size last).all validateCommandToken = true :=
      List.all_eq_true.mpr hvalid
    have hverb : validateCommandToken (ascii "BDAT") = true := by decide
    simp [encodeCommands, GoSmtp.encodeCommand, hall, hverb, Sink.collect, buildCommand_bdatArgs]
  have hsend : Sendable limits (ascii "BDAT") (bdatArgs size last) := by
    refine ⟨by decide, by decide, ?_, ?_⟩
    · have hne : itoa size ≠ [] := itoa_ne_nil size
      have hhead : (itoa size).head? ≠ some sp :=
        fun h => sp_not_mem_itoa size (List.mem_of_head? h)
      cases last <;> simpa [bdatArgs, joinArgs, List.head?_append_of_ne_nil _ hne] using hhead
    · rw [buildCommand_bdatArgs]
      exact Nat.le_trans (bdatLine_length hsize last) hlimits
  have hread := readCommands_encoded hencode (by simpa using hsend) s
  rw [List.length_singleton, LineReader.readCommands] at hread
  generalize LineReader.readCommand limits _ = x at hread ⊢
  obtain ⟨r, s'⟩ := x
  simpa [LineReader.readCommands] using hread

theorem readChunk_frame (hsize : chunk.length ≤ maxBDATChunkSize) (last : Bool) (s : Feed UInt8 φ) :
  readChunk limits (Feed.items (frame (chunk, last)) ++ s) = some ((chunk, last), s)
  := by
  have hmax : chunk.length ≤ maxInt64 := Nat.le_trans hsize (by decide)
  rw [readChunk, frame, Feed.items_append, List.append_assoc,
    readCommand_bdatLine hlimits hsize]
  simp only [parseBDATArgument_of_announced (announced_bdatArgs _ _), if_pos hmax, readBDATChunk,
    Feed.take_items_append]
  rfl

theorem readChunks_cut (hsize : size ≤ maxBDATChunkSize) (h : Cut size w chunks) {n : Nat}
    (hn : chunks.length ≤ n) (s : Feed UInt8 φ) :
  readChunks limits n (Feed.items (chunks.flatMap frame) ++ s) = some (chunks, s)
  := by
  induction h generalizing n with
  | last hlen =>
    obtain ⟨n, rfl⟩ : ∃ m, n = m + 1 := Nat.exists_eq_add_of_le' hn
    rw [List.flatMap_singleton, readChunks,
      readChunk_frame hlimits (Nat.le_trans (Nat.le_of_lt hlen) hsize)]
    rfl
  | next hlen _ ih =>
    obtain ⟨n, rfl⟩ : ∃ m, n = m + 1 := Nat.exists_eq_add_of_le' (Nat.le_trans (Nat.succ_pos _) hn)
    rw [List.flatMap_cons, Feed.items_append, List.append_assoc, readChunks,
      readChunk_frame hlimits (Nat.le_trans (Nat.le_of_eq hlen) hsize)]
    simp [ih (Nat.le_of_succ_le_succ hn)]

end Receiver

/-! ### The sender -/

theorem Source.readFull_length {source rest : Source φ} {e : Option (SourceError φ)}
    (h : source.readFull size = (chunk, e, rest)) :
  if e = none then chunk.length = size else chunk.length < size
  := by
  rw [readFull] at h
  rcases hf : fill size source with ⟨w, e', rest'⟩
  obtain ⟨hle, -, hfull⟩ := fill_progress hf
  rw [hf] at h
  dsimp only at h
  split at h
  · cases h
    rw [if_pos rfl]
    omega
  · split at h
    · cases h
      rw [if_neg (by simp)]
      omega
    · cases h
      split
      · next hnone => exact hfull hnone
      · omega

/-- A connection on which no write fails, for a caller who does not cancel: `out` is what was
written to it. -/
structure Env.Lossless (env : Env φ ω) (out : ω → Bytes) : Prop where
  write (v : Bytes) (w : ω) : (env.write v w).1 = none ∧ out (env.write v w).2 = out w ++ v
  canceled (c : Check) (log : List WireEvent) (w : ω) :
    (env.canceled c log w).1 = false ∧ out (env.canceled c log w).2 = out w
  extraReply (w : ω) : out (env.extraReply w).2 = out w
  trace (e : TraceEvent) (w : ω) : out (env.trace e w) = out w

section Sender

variable {opts : Options} {env : Env φ ω} {out : ω → Bytes} {s s' : Conn φ ω} {source rest : Source φ}
  {recipients : List Bytes} {r : Reply} {E : Option (ClientError φ) → Conn φ ω → Prop}

/-- The calls that do not write. -/
abbrev Mute {α : Type} (out : ω → Bytes) (m : Call φ ω α) : Prop :=
  Exec.Keeps (fun s : Conn φ ω => out s.world) m

theorem mute_read (henv : env.Lossless out) (command : Bytes) :
  Mute out (read opts env command)
  := by
  have hcanceled (c : Check) : Mute out (canceled env c : Call φ ω Bool) :=
    fun s => (henv.canceled c s.log s.world).2
  have hpoisoned (e : ClientError φ) : Mute out (poisoned e : Call φ ω Reply) := fun _ => rfl
  refine (hcanceled _).bind fun _ => .ite (.fail _) (.bind ?_ fun r => (hcanceled _).bind fun _ =>
    .ite (hpoisoned _) ?_)
  · intro s
    rw [readReply]
    split <;> rfl
  · cases r with
    | error => exact hpoisoned _
    | ok r =>
      exact .bind (fun s => henv.trace _ s.world) fun _ => .bind .read fun _ =>
        .ite (hpoisoned _) (.pure r)

theorem mute_expectReply (command : Bytes) (r : Reply) (want : List Int) :
  Mute out (expectReply opts command r want : Call φ ω Unit)
  := by
  refine .bind .read fun s => ?_
  split
  · exact .fail _
  · exact .pure _

theorem mute_lmtpReplies (henv : env.Lossless out) (command : Bytes) (result : DataResult)
    (recipients : List Bytes) :
  Mute out (lmtpReplies opts env command result recipients)
  := by
  induction recipients generalizing result with
  | nil => exact .pure _
  | cons recipient recipients ih =>
    refine .bind (mute_read henv command).attempt fun x => ?_
    cases x with
    | error e => exact .bind (fun _ => rfl) fun _ => .pure _
    | ok r => exact .bind .read fun _ => ih _

theorem mute_finishBDAT (henv : env.Lossless out) (recipients : List Bytes) (first : Reply) :
  Mute out (finishBDAT opts env recipients first)
  := by
  have hend (x : Returned φ) : Mute out (lmtpEnd env (ascii "BDAT") (pure ()) x) := by
    rw [lmtpEnd]
    split
    · exact .pure x
    · exact .bind (fun s => henv.extraReply s.world) fun _ =>
        .ite (.bind (fun _ => rfl) fun _ => .pure _) (.bind (.pure _) fun _ => .pure x)
  refine .bind (fun _ => rfl) fun _ => .bind ?_ fun _ => ?_
  · intro s
    simp only [unlessClosed, Exec.update]
    split <;> rfl
  unfold bdatFinalReplies
  refine .ite ?_ (.bind (mute_expectReply _ _ _) fun _ => .bind .read fun _ => .pure _)
  cases recipients with
  | nil => exact fun _ => rfl
  | cons recipient recipients =>
    exact .bind .read fun _ => .bind (mute_lmtpReplies henv _ _ _) hend

theorem wp_writeLossless {Q : Unit → Conn φ ω → Prop} {last : Bool} {n : Nat}
    (henv : env.Lossless out) (hlen : chunk.length ≤ maxBDATChunkSize)
    (hQ : ∀ w log, out w = out s.world ++ frame (chunk, last) →
      Q () { s with world := w, log := log }) :
  wp (writeBDATChunk env chunk last n) Q E s
  := by
  have hoctets {Q : Option φ → Conn φ ω → Prop} {s : Conn φ ω}
      (h : ∀ w, out w = out s.world ++ chunk → Q none { s with world := w }) :
      wp (writeOctets env chunk) Q E s := by
    rw [writeOctets, wp_ite]
    refine ⟨fun hempty => h _ (by simp [List.isEmpty_iff.mp hempty]), fun _ => ?_⟩
    rw [wp_outside, (henv.write chunk s.world).1]
    exact h _ (henv.write chunk s.world).2
  rw [writeBDATChunk, if_neg (Nat.not_lt.mpr hlen), wp_bind, wp_noteCompleting, wp_bind, wp_outside,
    (henv.write _ _).1]
  dsimp only
  rw [wp_bind]
  refine hoctets fun w hw => ?_
  dsimp only
  rw [wp_bind, wp_record, wp_bind, wp_canceled, (henv.canceled ..).1, if_neg (by simp)]
  apply hQ
  rw [(henv.canceled ..).2, hw, (henv.write ..).2, frame, List.append_assoc]

theorem wp_exchangeLossless {Q : Reply → Conn φ ω → Prop} {last : Bool}
    {replies : Feed Reply φ}
    (henv : env.Lossless out) (hlen : chunk.length ≤ maxBDATChunkSize)
    (hreplies : s.replies = .item r :: replies)
    (hQ : ∀ w log, out w = out s.world ++ frame (chunk, last) →
      Q r { s with replies := replies, world := w, log := log })
    (hE : r.code = 421 → ∀ e s', out s'.world = out s.world ++ frame (chunk, last) →
      E (some e) s') :
  wp (exchangeChunk opts env recipients chunk last) Q E s
  := by
  rw [exchangeChunk, wp_bind, wp_mapErr]
  refine wp_writeLossless henv hlen fun w log hw => ?_
  rw [wp_mapErr, read, wp_bind, wp_canceled, (henv.canceled ..).1, if_neg (by simp), wp_bind,
    wp, readReply]
  simp only [hreplies, Feed.next]
  have hafter : out (env.canceled .after (log ++ [.reply r])
      (env.canceled .before log w).2).2 = out w :=
    (henv.canceled ..).2.trans (henv.canceled ..).2
  rw [wp_bind, wp_canceled, (henv.canceled ..).1, if_neg (by simp)]
  simp only [wp_bind, wp_trace, wp_read, wp_ite, wp_poisoned, wp_pure]
  refine ⟨fun h421 => hE h421 _ _ ?_, fun _ => hQ _ _ ?_⟩ <;>
    exact ((henv.trace _ _).trans hafter).trans hw

/-- The content `w` was written in chunks between `s` and `s'`. -/
def Sent (out : ω → Bytes) (size : Nat) (w : Bytes) (s s' : Conn φ ω) : Prop :=
  ∃ chunks, Cut size w chunks ∧ out s'.world = out s.world ++ chunks.flatMap frame

theorem Sent.last {e : SourceError φ} (hpos : 0 < size)
    (hread : source.readFull size = (chunk, some e, rest)) (he : ∀ e', e ≠ .other e')
    (h : out s'.world = out s.world ++ frame (chunk, true)) :
  Sent out size (source.taken size 0) s s'
  := by
  have hlen : chunk.length < size := by simpa using Source.readFull_length hread
  rcases Source.readFull_short hpos hread with ⟨-, -, htaken⟩ | ⟨⟨e', rfl⟩, -⟩
  · rw [htaken]
    exact ⟨_, .last hlen, by simpa using h⟩
  · exact absurd rfl (he e')

theorem Sent.next {s₁ : Conn φ ω} (hpos : 0 < size)
    (hread : source.readFull size = (chunk, none, rest))
    (h : out s₁.world = out s.world ++ frame (chunk, false))
    (hrest : Sent out size (rest.taken size 0) s₁ s') :
  Sent out size (source.taken size 0) s s'
  := by
  obtain ⟨chunks, hcut, hout⟩ := hrest
  rw [(Source.readFull_full hpos hread).2]
  refine ⟨_, .next (Source.readFull_length hread) hcut, ?_⟩
  rw [hout, h]
  simp

theorem sent_bdatLoop {replies : Feed Reply φ} {n : Nat} (henv : env.Lossless out)
    (hpos : 0 < size) (hsize : size ≤ maxBDATChunkSize) (h : LastAnswered size source replies r)
    (hreplies : s.replies = replies) (hn : source.size < n) :
  Sent out size (source.taken size 0) s (bdatLoop opts env recipients size n source s).2
  := by
  induction h generalizing s n with
  | @last source rest chunk e r replies hread he =>
    obtain ⟨n, rfl⟩ := Nat.exists_eq_add_one.mpr (Nat.zero_lt_of_lt hn)
    have hlen : chunk.length < size := by simpa using Source.readFull_length hread
    have hcanceled := henv.canceled .after s.log s.world
    have hlast : wp (do
        let r ← exchangeChunk opts env recipients chunk true
        finishBDAT opts env recipients r)
        (fun _ s' => Sent out size (source.taken size 0) s s')
        (fun _ s' => Sent out size (source.taken size 0) s s')
        { s with world := (env.canceled .after s.log s.world).2 } := by
      rw [wp_bind]
      refine wp_exchangeLossless henv (by omega) (by exact hreplies) ?_ ?_ <;>
        rw [hcanceled.2]
      · intro w log hw
        apply wp_of_state
        exact .last hpos hread he ((mute_finishBDAT henv recipients r _).trans hw)
      · exact fun _ _ _ => .last hpos hread he
    apply wp_state
    rw [bdatLoop, wp_bind, wp_canceled, hcanceled.1, if_neg (by simp)]
    simp only [hread]
    cases e with
    | other e => exact absurd rfl (he e)
    | eof => exact hlast
    | unexpectedEOF => exact hlast
  | @next source rest chunk first r replies hread hfirst hrest ih =>
    obtain ⟨n, rfl⟩ := Nat.exists_eq_add_one.mpr (Nat.zero_lt_of_lt hn)
    have hlen : chunk.length = size := Source.readFull_length hread
    have hsmall := (Source.readFull_progress hread).2 rfl
    have hcanceled := henv.canceled .after s.log s.world
    apply wp_state
    rw [bdatLoop, wp_bind, wp_canceled, hcanceled.1, if_neg (by simp)]
    simp only [hread]
    rw [wp_bind]
    refine wp_exchangeLossless henv (by omega) (by exact hreplies) ?_ ?_
    · intro w log hw
      rw [wp_bind]
      apply wp_expectPlain (List.mem_singleton.mpr hfirst)
      have hsent := hw.trans (by rw [hcanceled.2])
      exact wp_of_state (.next hpos hread hsent (ih rfl (by omega)))
    · omega

/-- The octets that the source yields until it ends. -/
def Source.content : Source φ → Bytes
  | [] => []
  | seg :: rest => seg.octets ++ if seg.err = none then content rest else []

theorem Source.taken_eq_content {k : Nat} (h : source.firstError = .eof) :
  source.taken size k = source.content
  := by
  induction source generalizing k with
  | nil => rfl
  | cons seg source ih =>
    obtain ⟨octets, _ | e⟩ := seg
    · simp [taken, content, ih h]
    · obtain rfl : e = .eof := h
      simp [taken, content]

/-- A transfer in chunks: if all chunks before the last one are accepted, the stream that `bdat`
writes is read back as chunks of the given size with the content of the source, of which the last
one carries LAST, whatever the content looks like and whatever follows the stream. -/
theorem bdat_received {limits : WireLimits} (hlimits : 20 ≤ limits.commandLine)
    (henv : env.Lossless out) (hpos : 0 < size) (hsize : size ≤ maxBDATChunkSize)
    (hsource : source.firstError = .eof) (h : ChunksAnswered s source size r) :
  ∃ stream chunks,
    out (bdat opts env source size s).2.world = out s.world ++ stream ∧
    Cut size source.content chunks ∧
    ∀ (n : Nat) (t : Feed UInt8 φ), chunks.length ≤ n →
      readChunks limits n (Feed.items stream ++ t) = some (chunks, t)
  := by
  have hrun : Sent out size (source.taken size 0)
      { s with world := (env.canceled .before s.log s.world).2 }
      (bdat opts env source size s).2 := by
    apply wp_state (I := Sent out size _ _)
    rw [bdat, wp_bind, wp_canceled, (henv.canceled ..).1, if_neg (by simp), wp_bind]
    refine wp_requirePlain (List.mem_singleton.mpr h.state) ?_
    rw [wp_bind, wp_read, if_neg (by simpa using h.recipients)]
    apply wp_of_state
    exact sent_bdatLoop henv hpos hsize h.replies rfl (Nat.lt_succ_self _)
  obtain ⟨chunks, hcut, hout⟩ := hrun
  refine ⟨_, chunks, by rw [hout, (henv.canceled ..).2], Source.taken_eq_content hsource ▸ hcut, ?_⟩
  intro n t hn
  exact readChunks_cut hlimits hsize hcut hn t

end Sender

/-- A connection whose world is what was written. -/
def Env.recording : Env φ Bytes where
  canceled _ _ w := (false, w)
  write v w := (none, w ++ v)
  watcher w := (false, w)
  handshake w := (.ok [], w)
  extraReply w := (false, w)
  trace _ w := w

/-- Content that looks like a command. -/
def rset : Source Empty := [⟨ascii "RSET" ++ crlf, none⟩]

def taker : Conn Empty Bytes :=
  Conn.scripted .transaction [] [ascii "a@b"] [(250, "OK"), (250, "OK")] []

theorem bdat_received_rset :
  ∃ stream chunks,
    id (bdat (.plain false) Env.recording rset 4 taker).2.world = id taker.world ++ stream ∧
    Cut 4 rset.content chunks ∧
    ∀ (n : Nat) (t : Feed UInt8 Empty), chunks.length ≤ n →
      readChunks {} n (Feed.items stream ++ t) = some (chunks, t)
  := by
  have henv : (Env.recording : Env Empty Bytes).Lossless id :=
    ⟨fun _ _ => ⟨rfl, rfl⟩, fun _ _ _ => ⟨rfl, rfl⟩, fun _ => rfl, fun _ _ => rfl⟩
  have hreplies : LastAnswered 4 rset taker.replies ⟨250, ascii "OK", [ascii "OK"]⟩ :=
    .next rfl rfl (.last rfl (by rintro _ ⟨⟩))
  exact bdat_received (by decide) henv (by decide) (by decide) rfl
    ⟨rfl, List.cons_ne_nil _ _, hreplies⟩

end GoSmtp.Client
