import GoSmtp.Client.ReplyReader

/-!
# The probe for a further reply

After the final replies of LMTP the client looks for another one: in the octets that its reader
holds already, and with a read under a short deadline.  If the deadline strikes, it takes this
for silence.  But the reader drops the octets of a reply that is not complete when the deadline
strikes.  So the probe leaves the stream alone exactly if no octet comes before the deadline.
-/

namespace GoSmtp.Client

variable {φ : Type}

/-- `smtpwire.LineReader`: the octets that it has taken from the connection already, and what
is to come. -/
structure LineReader (φ : Type) where
  buffered : Bytes
  source : Feed UInt8 φ
  deriving DecidableEq, Repr

/-- What will be read. -/
def LineReader.feed (r : LineReader φ) : Feed UInt8 φ := Feed.items r.buffered ++ r.source

/-- Errors of the probe. -/
inductive ProbeError (φ : Type) where
  /-- `LMTP sent more final replies than accepted recipients`. -/
  | extraReply
  | reading (e : ReplyError φ)
  deriving DecidableEq, Repr

/-- `rejectExtraLMTPFinalReply`.  The errors of the connection for which `Timeout` holds are
told apart by `isTimeout`. -/
def rejectExtraLMTPFinalReply (isTimeout : φ → Bool) (r : LineReader φ) :
    Option (ProbeError φ) × LineReader φ :=
  if r.buffered ≠ [] then (some .extraReply, r)
  else
    match readReplyFrom {} r.source with
    | (.error (.transport e), s) =>
      if isTimeout e then (none, ⟨[], s⟩) else (some (.reading (.transport e)), ⟨[], s⟩)
    | (.error e, s) => (some (.reading e), ⟨[], s⟩)
    | (.ok _, s) => (some .extraReply, ⟨[], s⟩)

/-! ### A fault in the middle of a reply -/

theorem readLine_fault (maxLen : Nat) (buf w : Bytes) (e : φ) (late : Feed UInt8 φ) :
  (∃ raw w', readLine maxLen buf (Feed.items w ++ .fault e :: late)
    = (.ok raw, Feed.items w' ++ .fault e :: late) ∧ w'.length < w.length) ∨
  (∃ s, readLine maxLen buf (Feed.items w ++ .fault e :: late) = (.error .lineTooLong, s)) ∨
  readLine maxLen buf (Feed.items w ++ .fault e :: late) = (.error (.transport e), late)
  := by
  induction w generalizing buf with
  | nil => exact .inr (.inr rfl)
  | cons b w ih =>
    rw [Feed.items_cons, List.cons_append, readLine]
    split
    · exact .inl ⟨_, w, rfl, Nat.lt_succ_self _⟩
    · split
      · exact .inr (.inl ⟨_, rfl⟩)
      · rcases ih (buf ++ [b]) with ⟨raw, w', hline, hlen⟩ | h | h
        · exact .inl ⟨raw, w', hline, Nat.lt_succ_of_lt hlen⟩
        · exact .inr (.inl h)
        · exact .inr (.inr h)

theorem takeLine_ne_transport {limits : WireLimits} {r r' : Reading} {raw : Bytes} {e : φ} :
  takeLine limits r raw ≠ (.error (.transport e), r')
  := by
  intro h
  rw [takeLine] at h
  split at h
  · next e' hparse =>
    cases h
    rw [parseReplyLine.eq_def] at hparse
    split at hparse
    · split at hparse
      · cases hparse
      · dsimp only at hparse
        split at hparse
        · cases hparse
        · split at hparse
          · cases hparse
          · split at hparse <;> cases hparse
    · cases hparse
  · split at h
    · cases h
    · split at h
      · cases h
      · dsimp only at h
        split at h
        · cases h
        · split at h <;> cases h

theorem readReplyLoop_fault {limits : WireLimits} {r : Reading} {w : Bytes} {e e' : φ}
    {late s : Feed UInt8 φ}
    (h : readReplyLoop limits r (Feed.items w ++ .fault e :: late) = (.error (.transport e'), s)) :
  s = late
  := by
  induction hlength : w.length using Nat.strongRecOn generalizing w r with
  | _ n ih =>
    rw [readReplyLoop] at h
    rcases readLine_fault (limits.replyLine + 5) [] w e late with
      ⟨raw, w', hline, hless⟩ | ⟨s', hline⟩ | hline
    · rw [hline] at h
      dsimp only at h
      rcases htake : (takeLine limits r raw : Except (ReplyError φ) Bool × Reading)
        with ⟨e'' | _ | _, r'⟩
      all_goals
        rw [htake] at h
        dsimp only at h
      · cases h
        exact absurd htake takeLine_ne_transport
      · cases h
      · apply ih w'.length (hlength ▸ hless) h rfl
    · rw [hline] at h
      cases h
    · rw [hline] at h
      cases h
      rfl

/-! ### The probe -/

/-- A connection on which the octets `early` come before the deadline of the probe strikes, and
`late` comes after it. -/
def LineReader.arriving (buffered early : Bytes) (deadline : φ) (late : Feed UInt8 φ) :
    LineReader φ :=
  ⟨buffered, Feed.items early ++ .fault deadline :: late⟩

/-- If the probe finds nothing, it leaves the stream as it is without the probe exactly if no
octet came before its deadline. -/
theorem probe_leaves_stream_iff {isTimeout : φ → Bool} {buffered early : Bytes} {deadline : φ}
    {late : Feed UInt8 φ} {r : LineReader φ}
    (h : rejectExtraLMTPFinalReply isTimeout (.arriving buffered early deadline late) = (none, r)) :
  r.feed = Feed.items (buffered ++ early) ++ late ↔ early = []
  := by
  have hfound : buffered = [] ∧ r.feed = late := by
    rw [rejectExtraLMTPFinalReply] at h
    split at h
    · cases h
    · next hbuffered =>
      split at h
      · next e s hread =>
        split at h
        · cases h
          exact ⟨not_not.mp hbuffered, readReplyLoop_fault hread⟩
        · cases h
      · cases h
      · cases h
  obtain ⟨rfl, hlate⟩ := hfound
  rw [hlate, List.nil_append]
  constructor
  · intro hsame
    have hlength := congrArg List.length hsame
    rw [List.length_append, Feed.items, List.length_map] at hlength
    apply List.length_eq_zero_iff.mp
    omega
  · rintro rfl
    rfl

/-- The deadline strikes after the first octet of a reply. -/
def torn : LineReader Unit := .arriving [] (ascii "2") () (Feed.items (ascii "50 ok\r\n"))

/-- The probe on it. -/
def tornProbe : Option (ProbeError Unit) × LineReader Unit :=
  rejectExtraLMTPFinalReply (fun _ => true) torn

theorem probe_leaves_stream_iff_torn :
  tornProbe.2.feed = Feed.items ([] ++ ascii "2") ++ Feed.items (ascii "50 ok\r\n")
    ↔ ascii "2" = []
  := by
  have hnone : tornProbe.1 = none := by decide +kernel
  have hrun : tornProbe = (none, tornProbe.2) := by rw [← hnone]
  apply probe_leaves_stream_iff hrun

/-- The probe finds nothing, but takes the first octet of a reply, which cannot be read any
more. -/
theorem probe_tears_reply :
  tornProbe.1 = none ∧
  (readReplyFrom {} (Feed.items (ascii "250 ok\r\n") : Feed UInt8 Unit)).1
    = .ok ⟨250, ascii "ok", [ascii "ok"]⟩ ∧
  (readReplyFrom {} tornProbe.2.feed).1 = .error .codeSyntax
  := by
  decide +kernel

end GoSmtp.Client
