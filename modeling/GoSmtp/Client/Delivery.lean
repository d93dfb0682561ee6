import GoSmtp.Client.Calls

/-!
# What the content calls do

Rules for the parts of `Client.Data` and `Client.BURL`: what they leave in the log, which
errors they return, and when they close the connection.
-/

namespace GoSmtp.Client

variable {φ ω : Type}
variable {Q : Returned φ → Conn φ ω → Prop}
variable {d : DotStuffWriter} {recipients : List Bytes} {command : Bytes}

section Rules

variable {opts : Options} {env : Env φ ω} {s : Conn φ ω}
  {E : Option (ClientError φ) → Conn φ ω → Prop}

/-! ### DATA -/

theorem wp_stuffed {Q : Option (Cause φ) × DotStuffWriter → Conn φ ω → Prop}
    {f : Sink ω φ → DotStuffWriter → ω → Option (StuffError φ) × DotStuffWriter × ω}
    (hQ : ∀ e d w, Q (e, d) { s with world := w }) :
  wp (stuffed f env d) Q E s
  := hQ _ _ _

theorem wp_copyOctets {Q : DotStuffWriter → Conn φ ω → Prop} {v : Bytes}
    (hQ : ∀ d w, Q d { s with world := w })
    (hE : ∀ e w, e.isLocal → E (some e) { s with world := w, state := .closed }) :
  wp (copyOctets env v d) Q E s
  := by
  rw [copyOctets, wp_ite]
  constructor
  · intro _
    apply hQ
  · intro _
    rw [wp_bind]
    apply wp_stuffed
    rintro (_ | cause) d w
    · apply hQ
    · apply hE _ _ rfl

/-- The content is copied if the source ends with `io.EOF`; otherwise the connection is
closed. -/
theorem wp_copyContent {Q : DotStuffWriter → Conn φ ω → Prop} {n : Nat} {source : Source φ}
    (hn : source.size < n) (hQ : source.firstError = .eof → ∀ d w, Q d { s with world := w })
    (hE : ∀ e w, e.isLocal → E (some e) { s with world := w, state := .closed }) :
  wp (copyContent env n source d) Q E s
  := by
  induction n generalizing source d s with
  | zero => cases hn
  | succ n ih =>
    rw [copyContent, wp_bind, wp_canceled, wp_ite]
    constructor
    · intro _
      apply hE _ _ rfl
    intro _
    rcases hread : source.read copyBufferSize with ⟨v, e, rest⟩
    simp only [wp_bind]
    apply wp_copyOctets
    · intro d w
      rcases e with _ | e
      · obtain ⟨hsize, herror⟩ := Source.read_progress (by decide) hread
        apply ih (by omega)
        · rw [herror]
          exact hQ
        · exact hE
      · have herror := Source.read_error hread
        cases e with
        | eof => apply hQ herror
        | unexpectedEOF => apply hE _ _ rfl
        | other e => apply hE _ _ rfl
    · intro e w he
      apply hE e w he

theorem wp_endContent {Q : Unit → Conn φ ω → Prop} (hQ : ∀ w, Q () { s with
      world := w
      log := s.log ++ [.completing] ++ [.sent .endOfData (finalReplies opts recipients)] })
    (hE : ∀ e w log, e.isUnknown → s.log ++ [.completing] <+: log →
      E (some e) { s with world := w, log := log, state := .closed }) :
  wp (endContent opts env recipients d) Q E s
  := by
  rw [endContent, wp_bind, wp_record, wp_bind]
  apply wp_stuffed
  rintro (_ | cause) d w
  · simp only [wp_bind, wp_record, wp_canceled, wp_ite, wp_poisoned, wp_pure]
    constructor
    · intro _
      apply hE _ _ _ rfl (List.prefix_append _ _)
    · intro _
      apply hQ
  · apply hE _ _ _ rfl (List.prefix_refl _)

theorem wp_watched {Q : Unit → Conn φ ω → Prop} (hQ : ∀ w, Q () { s with world := w })
    (hclosed : ∀ w, Q () { s with world := w, state := .closed }) :
  wp (watched env) Q E s
  := by
  rw [watched, wp_bind, wp_outside, wp_ite]
  exact ⟨fun _ => hclosed _, fun _ => hQ _⟩

/-! ### Final replies -/

theorem wp_sharedResult {r : Reply} (hQ : r.code = 250 →
      Q ⟨recipients.map (recipientResult opts command s.enhancedStatusCodes r), none⟩ s)
    (hE : ∀ e, r.code ≠ 250 → e.isUnknown = false → E (some e) s) :
  wp (sharedResult opts command recipients r) Q E s
  := by
  rw [sharedResult, wp_bind]
  apply wp_expectReply
  · intro hr
    rw [wp_bind, wp_read]
    apply hQ (by simpa using hr)
  · intro e hr he
    apply hE e (by simpa using hr) he

/-- The statuses of recipients, as far as there are replies. -/
def statuses (opts : Options) (command : Bytes) (enhanced : Bool) (recipients : List Bytes)
    (rs : List Reply) : DataResult :=
  List.zipWith (fun recipient r => recipientResult opts command enhanced r recipient) recipients rs

/-- The final replies of LMTP are read, or those so far are reported and the connection is
closed. -/
theorem wp_lmtpReplies {result : DataResult} (hQ : ∀ rs replies w, rs.length = recipients.length →
      s.replies = rs.map .item ++ replies →
      Q ⟨result ++ statuses opts command s.enhancedStatusCodes recipients rs, none⟩
        { s with world := w, replies := replies, log := s.log ++ rs.map .reply })
    (hE : ∀ rs e w replies log, rs.length ≤ recipients.length → s.log ++ rs.map .reply <+: log →
      e.isUnknown →
      Q ⟨result ++ statuses opts command s.enhancedStatusCodes recipients rs, some e⟩
        { s with world := w, replies := replies, log := log, state := .closed }) :
  wp (lmtpReplies opts env command result recipients) Q E s
  := by
  induction recipients generalizing s result with
  | nil =>
    have h := hQ [] s.replies s.world rfl rfl
    simp only [statuses, List.zipWith_nil_right, List.map_nil, List.append_nil] at h
    apply h
  | cons recipient recipients ih =>
    have hfail (e : ClientError φ) (w : ω) (replies : Feed Reply φ) (log : List WireEvent)
        (hlog : s.log <+: log) :
        Q ⟨result, some (e.unknownStream command)⟩
          { s with world := w, replies := replies, log := log, state := .closed } := by
      have h := hE [] (e.unknownStream command) w replies log (Nat.zero_le _) (by simpa using hlog)
        (ClientError.isUnknown_unknownStream _ _)
      simpa [statuses] using h
    rw [lmtpReplies, wp_bind, wp_attempt]
    apply wp_readAny
    · intro r replies w hr _
      rw [wp_bind, wp_read]
      apply ih
      · intro rs replies' w' hlen hreplies
        have hreplies : replies = rs.map .item ++ replies' := hreplies
        have h := hQ (r :: rs) replies' w' (by rw [List.length_cons, hlen, List.length_cons])
          (by rw [hr, hreplies, List.map_cons, List.cons_append])
        simpa [statuses, Conn.enhancedStatusCodes, Conn.advertises] using h
      · intro rs e w' replies' log hlen hlog he
        have h := hE (r :: rs) e w' replies' log (Nat.succ_le_succ hlen) (by simpa using hlog) he
        simpa [statuses, Conn.enhancedStatusCodes, Conn.advertises] using h
    · intro _ w
      apply hfail _ _ _ _ (List.prefix_refl _)
    · intro e w replies log _ hlog
      apply hfail
      rcases hlog with rfl | ⟨r, rfl⟩
      · apply List.prefix_refl
      · apply List.prefix_append
    · intro e r replies w _ _
      apply hfail _ _ _ _ (List.prefix_append _ _)

theorem wp_lmtpEnd {done : Call φ ω Unit} {x : Returned φ} (hsome : x.err ≠ none → Q x s)
    (hnone : x.err = none → ∀ w, wp done (fun _ => Q x) E { s with world := w })
    (hextra : ∀ e w, e.isUnknown → Q ⟨[], some e⟩ { s with world := w, state := .closed }) :
  wp (lmtpEnd env command done x) Q E s
  := by
  rw [lmtpEnd]
  split
  · next e he =>
    apply hsome
    rw [he]
    simp
  · next he =>
    rw [wp_bind, wp_outside, wp_ite]
    constructor
    · intro _
      apply hextra _ _ rfl
    · intro _
      rw [wp_bind]
      apply hnone he

/-! ### BDAT -/

theorem wp_writeBDATChunk {Q : Unit → Conn φ ω → Prop} {chunk : Bytes} {last : Bool} {replies : Nat}
    (hlen : chunk.length ≤ maxBDATChunkSize) (hQ : ∀ w, Q () { s with
      world := w
      log := s.log ++ noted last ++ [.sent (.chunk chunk last) replies] })
    (hE : ∀ e w log, e.isLocal →
      log = s.log ++ noted last ∨ log = s.log ++ noted last ++ [.sent (.chunk chunk last) replies] →
      E (some e) { s with world := w, log := log, state := .closed }) :
  wp (writeBDATChunk env chunk last replies) Q E s
  := by
  rw [writeBDATChunk, if_neg (by omega), wp_bind, wp_noteCompleting, wp_bind, wp_outside]
  split
  · apply hE _ _ _ rfl (.inl rfl)
  · rw [wp_bind]
    have hoctets {Q : Option φ → Conn φ ω → Prop} {s : Conn φ ω}
        (h : ∀ e w, Q e { s with world := w }) : wp (writeOctets env chunk) Q E s := by
      rw [writeOctets, wp_ite]
      exact ⟨fun _ => h _ _, fun _ => h _ _⟩
    apply hoctets
    rintro (_ | e) w
    · simp only [wp_bind, wp_record, wp_canceled, wp_ite, wp_poisoned, wp_pure]
      constructor
      · intro _
        apply hE _ _ _ rfl (.inr rfl)
      · intro _
        apply hQ
    · apply hE _ _ _ rfl (.inl rfl)

/-- The chunk loop keeps an invariant of the source and the connection until the last chunk,
or until something fails. -/
theorem wp_bdatLoop {size n : Nat} {source : Source φ}
    (I : Source φ → Conn φ ω → Prop) (hsize : 0 < size) (hn : source.size < n) (hstart : I source s)
    (hworld : ∀ source s w, I source s → I source { s with world := w })
    (hcanceled : ∀ source s, I source s → E (some .canceled) { s with state := .closed })
    (hother : ∀ source s chunk e rest, I source s →
      source.readFull size = (chunk, some (.other e), rest) → E (some (.source (.other e))) s)
    (hlast : ∀ source s chunk e rest, I source s → source.readFull size = (chunk, some e, rest) →
      (∀ e', e ≠ .other e') →
      wp (do
        let r ← exchangeChunk opts env recipients chunk true
        finishBDAT opts env recipients r) Q E s)
    (hnext : ∀ source s chunk rest, I source s → source.readFull size = (chunk, none, rest) →
      wp (do
        let r ← exchangeChunk opts env recipients chunk false
        expectReply opts (ascii "BDAT") r [250]) (fun _ => I rest) E s) :
  wp (bdatLoop opts env recipients size n source) Q E s
  := by
  induction n generalizing source s with
  | zero => cases hn
  | succ n ih =>
    rw [bdatLoop, wp_bind, wp_canceled, wp_ite]
    have hstart := hworld source s (env.canceled .after s.log s.world).2 hstart
    constructor
    · intro _
      apply hcanceled _ _ hstart
    intro _
    rcases hread : source.readFull size with ⟨chunk, e, rest⟩
    rcases e with _ | e
    · obtain ⟨-, hsmall⟩ := Source.readFull_progress hread
      have hsmall := hsmall rfl
      have h := hnext _ _ _ _ hstart hread
      rw [wp_bind] at h
      rw [wp_bind]
      apply wp_mono h _ fun _ _ => id
      intro r s hr
      rw [wp_bind]
      apply wp_mono hr _ fun _ _ => id
      intro _ s hs
      apply ih (by omega) hs
    · cases e with
      | other e => apply hother _ _ _ _ _ hstart hread
      | eof => apply hlast _ _ _ _ _ hstart hread (by simp)
      | unexpectedEOF => apply hlast _ _ _ _ _ hstart hread (by simp)

end Rules

end GoSmtp.Client
