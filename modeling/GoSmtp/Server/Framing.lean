import GoSmtp.Server.Contract
import GoSmtp.Server.DataEnd

/-!
# The framing of chunks

A server that goes on after BDAT must have consumed the chunk, and nothing else, or it would take
the octets of the client for commands.

* A size of at least `2 ^ 63` cannot be consumed, so the session has to end.  It does, unless the
  size does not fit into 64 bits or the session was not greeted.
* A smaller size is consumed on every path of the handler before it is answered, or the session
  ends.
-/

namespace GoSmtp.Server.Session

open Exec

variable {φ ω : Type}
variable {E : Option (SessionError φ) → Session φ ω → Prop}
variable {n : Nat} {s' : Session φ ω} {w : Bytes} {log t t' : List LogEvent} {r : WireReply}
variable {s : Session φ ω} {env : Env φ ω} {cfg : Config} {c : Command} {last : Bool}

/-- The rest of a turn, once its command is decoded: whether the loop goes on. -/
def obey (cfg : Config) (env : Env φ ω) (c : Command) : Call φ ω Bool := do
  let action ← execute cfg env c
  finishTurn env action

/-- The world in which the next command is read. -/
def readingWorld (env : Env φ ω) (s : Session φ ω) : ω :=
  let w := (env.canceled s.world).2
  let buffered := env.buffered s.feed w
  (env.await .command s.feed (if buffered.1 then buffered.2 else (env.flush buffered.2).2)).2

/-- The session that has decoded a command, with the rest of the feed. -/
def receiving (env : Env φ ω) (c : Command) (rest : Feed UInt8 φ) (s : Session φ ω) : Session φ ω :=
  { s with world := readingWorld env s, feed := rest, log := s.log ++ [.decoded c] }

theorem wp_flushBeforeRead_reading {Q : Unit → Session φ ω → Prop}
    (hQ : ∀ w, (env.await .command s.feed w).2 = readingWorld env s → Q () { s with world := w })
    (hearly : ∀ e w, E e { s with world := w }) :
  wp (flushBeforeRead env) Q E { s with world := (env.canceled s.world).2 }
  := by
  rw [flushBeforeRead, wp_bind, wp_buffered, wp_ite]
  constructor
  · intro hbuffered
    exact hQ _ (by simp [readingWorld, hbuffered])
  · intro hbuffered
    exact wp_transport_world (hQ _ (by simp [readingWorld, hbuffered])) fun _ => hearly _ _

theorem wp_turn_command {rest : Feed UInt8 φ} {Q : Bool → Session φ ω → Prop}
    (hread : readCommand s.feed = (.ok c, rest)) (hearly : ∀ e w, E e { s with world := w })
    (hobey : wp (obey cfg env c) Q E (s.receiving env c rest)) :
  wp (turn cfg env) Q E s
  := by
  rw [turn, wp_bind, wp_outside, wp_ite]
  refine ⟨fun _ => hearly _ _, fun _ => ?_⟩
  rw [wp_bind]
  refine wp_flushBeforeRead_reading (fun w hw => ?_) hearly
  rw [wp_bind]
  refine wp_transport_world ?_ fun _ => hearly _ _
  simp only [wp_bind, wp_read, wp_update, hread, wp_record, hw]
  rw [obey, wp_bind] at hobey
  exact hobey

/-! ### Sizes that cannot be consumed -/

/-- The reply to a size that the server does not take. -/
def invalidSize : WireReply :=
  { code := 501, enhanced := ⟨5, 5, 2, []⟩, text := ascii "Invalid BDAT size" }

def badSequence : WireReply :=
  { code := 503, enhanced := ⟨5, 5, 1, []⟩, text := ascii "Bad sequence of commands" }

theorem legality_bdat (s : ProtocolState) :
  s.legality .bdat
    = if s.phase ∈ [.ready, .mail, .recipients, .failedBDAT] then .allowed else .wrongState
  := by
  cases hmode : s.mode <;> simp [ProtocolState.legality, commandRules, hmode] <;> grind

theorem obey_large (cfg : Config) (env : Env φ ω)
    (s : Session φ ω) (hverb : Verb.ofSpelling c.verb = .bdat)
    (hsize : announced c.argument = some (n, last)) (hlarge : maxInt64 < n) :
  obey cfg env c s =
    if s.state.phase ∈ [.ready, .mail, .recipients, .failedBDAT] then
      (do
        writeReply env invalidSize
        transport env.flush
        pure !decide (n < 2 ^ 64) : Call φ ω Bool) s
    else (do writeReply env badSequence; pure true : Call φ ω Bool) s
  := by
  have hparse := parseBDATArgument_of_announced hsize
  rw [if_neg (Nat.not_le.mpr hlarge)] at hparse
  split
  · next hphase =>
    have hlegal := legality_bdat s.state
    rw [if_pos hphase] at hlegal
    have hhandle : execute cfg env c s = (do
        writeReply env invalidSize
        pure ⟨true, decide (n < 2 ^ 64)⟩ : Call φ ω CommandAction) s := by
      have hdispatch : execute cfg env c s = handleBDAT cfg env c s := by
        simp [execute, hverb, dispatch, Bind.bind, Exec.read, hlegal, handle]
      rw [hdispatch]
      by_cases hfits : n < 2 ^ 64
      · rw [if_pos hfits] at hparse
        simp only [handleBDAT, hparse, hfits, decide_true]
        rfl
      · rw [if_neg hfits] at hparse
        simp only [handleBDAT, hparse, hfits, decide_false]
        rfl
    have hobey : obey cfg env c s = ((do
        writeReply env invalidSize
        pure ⟨true, decide (n < 2 ^ 64)⟩ : Call φ ω CommandAction) >>= finishTurn env) s := by
      simp only [obey, Bind.bind, hhandle]
    rw [hobey, Exec.bind_bind]
    rfl
  · next hphase =>
    have hlegal := legality_bdat s.state
    rw [if_neg hphase] at hlegal
    have hhandle : execute cfg env c s = (do
        writeReply env badSequence
        pure {} : Call φ ω CommandAction) s := by
      simp [execute, hverb, dispatch, Bind.bind, Exec.read, hlegal, badSequence,
        synchronizationPoint]
    have hobey : obey cfg env c s = ((do
        writeReply env badSequence
        pure {} : Call φ ω CommandAction) >>= finishTurn env) s := by
      simp only [obey, Bind.bind, hhandle]
    rw [hobey, Exec.bind_bind]
    rfl

/-- A size that cannot be consumed closes the connection, exactly if the session was greeted and
the size fits into 64 bits; or else if the transport fails when the server refuses it. -/
theorem closes_iff (cfg : Config) (env : Env φ ω) (c : Command) (n : Nat) (last : Bool)
    (s : Session φ ω) (hverb : Verb.ofSpelling c.verb = .bdat)
    (hsize : announced c.argument = some (n, last)) (hlarge : maxInt64 < n) :
  (obey cfg env c s).1 ≠ .ok true ↔
    if s.state.phase ∈ [.ready, .mail, .recipients, .failedBDAT] then
      n < 2 ^ 64 ∨ ¬ (env.takes invalidSize s.world = true ∧
        (env.flush (env.written invalidSize s.world)).1 = none)
    else ¬ env.takes badSequence s.world = true
  := by
  rw [obey_large cfg env s hverb hsize hlarge]
  split
  · cases htakes : env.takes invalidSize s.world with
    | true =>
      rcases hflush : (env.flush (env.written invalidSize s.world)).1 with _ | e
      · simp [Bind.bind, writeReply_takes htakes, transport, outside, hflush, Pure.pure]
      · simp [Bind.bind, writeReply_takes htakes, transport, outside, hflush, Exec.fail]
    | false =>
      obtain ⟨e, w, hfails⟩ := writeReply_fails htakes
      simp [Bind.bind, hfails]
  · cases htakes : env.takes badSequence s.world with
    | true => simp [Bind.bind, writeReply_takes htakes, Pure.pure]
    | false =>
      obtain ⟨e, w, hfails⟩ := writeReply_fails htakes
      simp [Bind.bind, hfails]

/-- A session that was greeted, and has a message under way. -/
def greeted : Session Empty Unit :=
  (serve (.small 7 seven_lt) Env.plain 3 (Session.new (.small 7 seven_lt) SpoolManager.small
    false (script ["EHLO a", "MAIL FROM:<>", "RCPT TO:<c>"]) ())).1

/-- The smallest size that is too large closes the connection. -/
theorem closes_iff_signed :
  (obey (.small 7 (by decide)) Env.plain ⟨ascii "BDAT", ascii "9223372036854775808 LAST"⟩
    greeted).1 ≠ .ok true
  := by
  apply (closes_iff (.small 7 (by decide)) Env.plain ⟨ascii "BDAT", ascii "9223372036854775808 LAST"⟩
    9223372036854775808 true greeted (by decide +kernel) (by decide +kernel) (by decide)).mpr
  rw [if_pos (by decide +kernel)]
  exact .inl (by decide)

/-- A size of `2 ^ 64` does not: the line after it is decoded as a command. -/
theorem not_closes_unsigned :
  .decoded ⟨ascii "NOOP", []⟩ ∈ (serve (.small 7 (by decide)) Env.plain 5
    (Session.new (.small 7 (by decide)) SpoolManager.small false
      (script ["EHLO a", "MAIL FROM:<>", "RCPT TO:<c>", "BDAT 18446744073709551616", "NOOP"])
      ())).1.log
  := by
  decide +kernel

/-! ### What comes after a chunk -/

/-- The log grows, and the feed is left alone. -/
def Grows (s s' : Session φ ω) : Prop := s'.feed = s.feed ∧ s.log <+: s'.log

instance : IsPreorder (Session φ ω) Grows where
  refl _ := ⟨rfl, List.prefix_rfl⟩
  trans _ _ _ h h' := ⟨h'.1.trans h.1, h.2.trans h'.2⟩

section Grows

variable {α : Type}

theorem grows_update {f : Session φ ω → Session φ ω} (hfeed : ∀ s, (f s).feed = s.feed)
    (hlog : ∀ s, s.log <+: (f s).log) :
  Along Grows (Exec.update f : Call φ ω Unit)
  := fun s => ⟨hfeed s, hlog s⟩

theorem grows_record (e : LogEvent) :
  Along Grows (record e : Call φ ω Unit)
  := grows_update (fun _ => rfl) fun _ => List.prefix_append _ _

theorem grows_outside (op : ω → α × ω) :
  Along Grows (outside op : Call φ ω α)
  := fun _ => ⟨rfl, List.prefix_rfl⟩

theorem grows_transport (op : ω → Option φ × ω) :
  Along Grows (transport op)
  := by
  apply (grows_outside op).bind
  intro e
  split
  · exact .fail _
  · exact .pure _

theorem grows_notify (op : ω → Bool × ω) :
  Along Grows (notify op : Call φ ω Unit)
  := fun _ => ⟨rfl, List.prefix_rfl⟩

theorem grows_writeReply (env : Env φ ω) (r : WireReply) :
  Along Grows (writeReply env r)
  := (grows_transport _).bind fun _ => (grows_transport _).bind fun _ => grows_record _

theorem grows_answer (env : Env φ ω) (r : WireReply) (action : CommandAction) :
  Along Grows (do writeReply env r; pure action)
  := (grows_writeReply env r).bind fun _ => .pure action

theorem grows_transition (event : StateEvent) :
  Along Grows (transition event : Call φ ω Unit)
  := by
  apply Along.read
  intro s
  split
  · exact (grows_record _).bind fun _ => .fail _
  · exact grows_update (fun _ => rfl) fun _ => List.prefix_rfl

theorem grows_clearTransaction :
  Along Grows (clearTransaction : Call φ ω Unit)
  := grows_update (fun _ => rfl) fun _ => List.prefix_rfl

theorem grows_lifecycleReset (env : Env φ ω) (reason : ResetReason) :
  Along Grows (lifecycleReset env reason)
  := by
  apply Along.bind
  · apply grows_update
    · intro s
      rw [detachSpool_eq]
    · exact fun _ => List.prefix_append _ _
  · exact fun _ => (grows_record _).bind fun _ => grows_notify _

theorem grows_resetIfOpen (env : Env φ ω) (reason : ResetReason) :
  Along Grows (resetIfOpen env reason)
  := Along.read fun _ => .ite (.pure _) (grows_lifecycleReset env reason)

theorem grows_onSpool (op : Spool.Op ω φ α) :
  Along Grows (onSpool op)
  := by
  intro s
  simp only [onSpool]
  split
  · exact refl s
  · split <;> exact ⟨rfl, List.prefix_rfl⟩

theorem grows_evaluateContent {σ : Type} (env : Env φ ω) (command : Bytes)
    (r : Reader σ UInt8 (ContentError φ)) (source : Source) (size : Nat) (content : σ) :
  Along Grows (evaluateContent env command r source size content)
  := by
  apply Along.read
  intro s
  apply (grows_outside _).bind
  intro header
  apply (grows_record _).bind
  intro _
  split
  · exact .fail _
  · apply (grows_record _).bind
    intro _
    apply Along.read
    intro s
    apply (grows_record _).bind
    intro _
    apply Along.bind
    · exact grows_update (fun _ => rfl) fun _ => List.prefix_rfl
    · exact fun _ => .pure _

theorem grows_writeResults (env : Env φ ω) (results : DataResult) :
  Along Grows (writeResults env results)
  := by
  induction results with
  | nil => exact .pure _
  | cons r rs ih => exact (grows_writeReply env _).bind fun _ => ih

theorem grows_finishContent (env : Env φ ω) (evaluation : DataEvaluation φ) :
  Along Grows (finishContent env evaluation)
  := by
  apply Along.ite
  · split
    · exact .fail _
    · exact .pure _
  · apply Along.defer
    · exact (grows_record _).bind fun _ => (grows_writeResults env _).bind fun _ => .pure _
    · apply (grows_lifecycleReset env _).bind
      intro _
      exact grows_clearTransaction.bind fun _ => grows_transition _

theorem grows_failBDAT (env : Env φ ω) (cause : SpoolError φ) :
  Along Grows (failBDAT env cause)
  := (grows_record _).bind fun _ => (grows_resetIfOpen env _).bind fun _ =>
    (grows_transition _).bind fun _ => grows_answer env _ _

theorem grows_finishBDAT (env : Env φ ω) :
  Along Grows (finishBDAT env)
  := by
  apply Along.read
  intro s
  apply (grows_onSpool _).bind
  intro r
  split
  · exact grows_failBDAT env _
  · apply (grows_evaluateContent env _ _ _ _ _).bind
    intro x
    split
    · exact fun s => refl s
    · exact grows_finishContent env _

theorem grows_finishTurn (env : Env φ ω) (action : CommandAction) :
  Along Grows (finishTurn env action)
  := .ite ((grows_transport _).bind fun _ => .pure _) (.pure _)

end Grows

/-! ### Sizes that are consumed -/

/-- Since the log was `log`, nothing was answered. -/
def Unanswered (log : List LogEvent) (s : Session φ ω) : Prop :=
  ∃ t, s.log = log ++ t ∧ ∀ e ∈ t, e.isReply = false

/-- Since the log was `log`, exactly `n` octets of the feed were consumed, and nothing was
answered before they were. -/
def Consumed (log : List LogEvent) (feed : Feed UInt8 φ) (n : Nat) (s : Session φ ω) : Prop :=
  ∃ t w t', s.log = log ++ t ++ .chunk w :: t' ∧ (∀ e ∈ t, e.isReply = false) ∧
    w.length = n ∧ feed = Feed.items w ++ s.feed

/-- The feed has fewer than `n` octets before its end or a fault. -/
def Short (feed : Feed UInt8 φ) (n : Nat) : Prop :=
  ∀ w rest, feed = Feed.items w ++ rest → w.length ≠ n

/-- How a session may end in the middle of a chunk: it has consumed the chunk, or has answered
nothing, and then the chunk is incomplete or not begun. -/
def Framed (log : List LogEvent) (feed : Feed UInt8 φ) (n : Nat) (s : Session φ ω) : Prop :=
  Consumed log feed n s ∨ Unanswered log s ∧ (Short feed n ∨ s.feed = feed)

section Chunk

variable {log : List LogEvent} {feed : Feed UInt8 φ} {n : Nat}

theorem Consumed.grows (h : Consumed log feed n s) (hs : Grows s s') :
  Consumed log feed n s'
  := by
  obtain ⟨t, w, t', hlog, hquiet, hlength, hfeed⟩ := h
  obtain ⟨hfeed', t'', hlog'⟩ := hs
  refine ⟨t, w, t' ++ t'', ?_, hquiet, hlength, ?_⟩
  · rw [← hlog', hlog]
    simp
  · rw [hfeed', hfeed]

theorem Consumed.along {α : Type} {m : Call φ ω α} (h : Consumed log feed n s)
    (hm : Along Grows m) :
  wp m (fun _ => Consumed log feed n) (fun _ => Framed log feed n) s
  := wp_mono (hm.wp fun _ hs => h.grows hs) (fun _ _ => id) fun _ _ => .inl

theorem readBDATChunk_short {size : Nat} {s s' : Feed UInt8 φ} {e : ChunkError φ}
    (h : readBDATChunk size s = (w, some e, s')) :
  Short s size
  := by
  rintro w' rest rfl rfl
  rw [readBDATChunk, Feed.take_items_append] at h
  cases h

theorem wp_takeChunk_framed (h : Unanswered log s)
    {Q : Bytes × Option (ChunkError φ) → Session φ ω → Prop}
    (hwhole : ∀ w rest world, w.length = n → s.feed = Feed.items w ++ rest →
      Q (w, none) { s with world := world, feed := rest })
    (hpart : ∀ w e rest world, Short s.feed n →
      Q (w, some e) { s with world := world, feed := rest })
    (hE : ∀ e s', Framed log s.feed n s' → E e s') :
  wp (takeChunk env n) Q E s
  := by
  rw [takeChunk, wp_bind]
  apply wp_transport
  · intro world
    simp only [wp_bind, wp_read, wp_update, wp_pure]
    rcases hread : readBDATChunk n s.feed with ⟨w, _ | e, rest⟩
    · obtain ⟨hlength, hfeed⟩ := readBDATChunk_ok hread
      exact hwhole w rest world hlength hfeed
    · exact hpart w e rest world (readBDATChunk_short hread)
  · exact fun e world => hE e _ (.inr ⟨h, .inr rfl⟩)

theorem Unanswered.consumed (h : Unanswered log s) (hlog : s'.log = s.log ++ [.chunk w])
    (hlength : w.length = n) (hfeed : feed = Feed.items w ++ s'.feed) :
  Consumed log feed n s'
  := by
  obtain ⟨t, ht, hquiet⟩ := h
  exact ⟨t, w, [], by rw [hlog, ht], hquiet, hlength, hfeed⟩

theorem framed_discardChunk (h : Unanswered log s) (hfeed : s.feed = feed) :
  wp (discardChunk env n) (fun _ => Consumed log feed n) (fun _ => Framed log feed n) s
  := by
  subst hfeed
  rw [discardChunk, wp_bind]
  apply wp_takeChunk_framed h
  · intro w rest world hlength hfeed
    exact h.consumed rfl hlength hfeed
  · intro w e rest world hshort
    exact .inr ⟨h, .inl hshort⟩
  · exact fun _ _ => id

theorem framed_spoolChunk (h : Unanswered log s) (hfeed : s.feed = feed) (hspool : s.spool.isSome) :
  wp (spoolChunk env n) (fun _ => Consumed log feed n) (fun _ => Framed log feed n) s
  := by
  subst hfeed
  rw [spoolChunk, wp_bind]
  apply wp_takeChunk_framed h
  · intro w rest world hlength hfeed
    rw [wp_bind, wp_outside, wp_bind]
    refine wp_onSpool_calm (by exact hspool) (Spool.calm_writeChunk _ _) fun r m p world => ?_
    exact h.consumed rfl hlength hfeed
  · intro w e rest world hshort
    rw [wp_bind, wp_outside, wp_bind]
    refine wp_onSpool_calm (by exact hspool) (Spool.calm_writeChunk _ _) fun r m p world => ?_
    exact .inr ⟨h, .inl hshort⟩
  · exact fun _ _ => id

theorem framed_append (h : Unanswered log s) (hfeed : s.feed = feed) (hspool : s.spool.isSome) :
  wp (handleBDAT.append env ⟨n, last⟩) (fun _ => Consumed log feed n)
    (fun _ => Framed log feed n) s
  := by
  rw [handleBDAT.append, wp_bind]
  apply wp_mono (framed_spoolChunk h hfeed hspool) _ fun _ _ => id
  intro r s' hs'
  apply hs'.along
  split
  · exact grows_failBDAT env _
  · exact .ite (grows_finishBDAT env) (grows_answer env _ _)

theorem framed_handleBDAT (hchunking : cfg.chunking = true) (hextended : s.extended = true)
    (hparse : parseBDATArgument c.argument = .ok ⟨n, last⟩) (h : Unanswered log s)
    (hfeed : s.feed = feed) :
  wp (handleBDAT cfg env c) (fun _ => Consumed log feed n) (fun _ => Framed log feed n) s
  := by
  rw [handleBDAT, wp_bind, wp_read, hparse]
  simp only [hextended, hchunking, Bool.not_true, Bool.or_false, Bool.false_eq_true, if_false]
  have hdiscard {k : Call φ ω CommandAction} (hk : Along Grows k) {s : Session φ ω}
      (h : Unanswered log s) (hfeed : s.feed = feed) :
      wp (do discardChunk env n; k) (fun _ => Consumed log feed n)
        (fun _ => Framed log feed n) s := by
    rw [wp_bind]
    exact wp_mono (framed_discardChunk h hfeed) (fun _ s' hs' => hs'.along hk) fun _ _ => id
  rw [wp_ite]
  refine ⟨fun _ => hdiscard (grows_answer env _ _) h hfeed, fun _ => ?_⟩
  rw [wp_ite]
  refine ⟨fun _ => hdiscard (grows_answer env _ _) h hfeed, fun _ => ?_⟩
  rw [wp_ite]
  refine ⟨fun hspool => framed_append h hfeed hspool, fun _ => ?_⟩
  rw [wp_bind]
  apply wp_attachSpool
  · intro m w
    simp only [Bool.false_eq_true, if_false]
    exact hdiscard (grows_failBDAT env _) h hfeed
  · intro m w
    obtain ⟨t, ht, hquiet⟩ := h
    refine framed_append ⟨t ++ [.spoolOpened], ?_, ?_⟩ hfeed rfl
    · simp [ht]
    · simpa [or_imp, forall_and] using ⟨hquiet, rfl⟩

theorem framed_obey (hchunking : cfg.chunking = true) (hextended : s.extended = true)
    (hphase : s.state.phase ∈ [.ready, .mail, .recipients, .failedBDAT])
    (hverb : Verb.ofSpelling c.verb = .bdat) (hparse : parseBDATArgument c.argument = .ok ⟨n, last⟩)
    (h : Unanswered log s) (hfeed : s.feed = feed) :
  wp (obey cfg env c) (fun _ => Consumed log feed n) (fun _ => Framed log feed n) s
  := by
  have hlegal := legality_bdat s.state
  rw [if_pos hphase] at hlegal
  rw [obey, wp_bind, execute]
  simp only [hverb, reduceCtorEq, if_false, dispatch, wp_bind, wp_read, hlegal, handle]
  apply wp_mono (framed_handleBDAT hchunking hextended hparse h hfeed) _ fun _ _ => id
  exact fun action _ hs' => hs'.along (grows_finishTurn env action)

end Chunk

theorem Consumed.before {feed : Feed UInt8 φ} (h : Consumed log feed n s)
    (ht : s.log = log ++ t ++ .reply r :: t') :
  ∃ w rest, w.length = n ∧ feed = Feed.items w ++ rest ∧ .chunk w ∈ t
  := by
  obtain ⟨t₀, w, t₁, hlog, hquiet, hlength, hfeed⟩ := h
  refine ⟨w, s.feed, hlength, hfeed, ?_⟩
  have heq : t₀ ++ .chunk w :: t₁ = t ++ .reply r :: t' := by
    simpa using hlog.symm.trans ht
  rcases List.append_eq_append_iff.mp heq with ⟨a, rfl, ha⟩ | ⟨a, rfl, ha⟩
  · cases a with
    | nil => cases ha
    | cons e a =>
      cases ha
      simp
  · cases a with
    | nil => cases ha
    | cons e a =>
      cases ha
      exact absurd (hquiet (.reply r) (by simp)) (by simp [LogEvent.isReply])

theorem Unanswered.not_reply (h : Unanswered log s) :
  s.log ≠ log ++ t ++ .reply r :: t'
  := by
  obtain ⟨t₀, hlog, hquiet⟩ := h
  intro ht
  have heq : t₀ = t ++ .reply r :: t' := by
    simpa using hlog.symm.trans ht
  exact absurd (hquiet (.reply r) (by simp [heq])) (by simp [LogEvent.isReply])

theorem phase_of_extended {tls : Bool}
    (h : s.facts.Steady cfg tls) (hextended : s.extended = true) :
  s.state.phase ∈ [.ready, .mail, .recipients, .failedBDAT]
  := by
  have hconnected : s.state.phase ≠ .connected := by
    intro hphase
    have hplain : s.extended = false := h.coherent.plain hphase
    exact Bool.false_ne_true (hplain.symm.trans hextended)
  have halive : s.state.phase ≠ .closed := h.alive
  revert hconnected halive
  cases s.state.phase <;> simp

/-- In a session greeted with EHLO or LHLO, a BDAT command of at most `2 ^ 63 - 1` octets consumes
exactly the octets of its chunk if the session goes on.  If it does not, it has consumed them too,
or has not answered, and then the chunk is incomplete or the turn failed before it was begun.
What answers the command comes after the chunk. -/
theorem framed_after (cfg : Config) (env : Env φ ω) (b : AuthBackend ω) (manager : SpoolManager)
    (tls : Bool) (feed : Feed UInt8 φ) (world : ω) (k : Nat)
    (hon : (after cfg env b manager tls feed world k).2 = true)
    (hchunking : cfg.chunking = true)
    (hextended : (after cfg env b manager tls feed world k).1.extended = true)
    (c : Command) (rest : Feed UInt8 φ)
    (hread : readCommand (after cfg env b manager tls feed world k).1.feed = (.ok c, rest))
    (hverb : Verb.ofSpelling c.verb = .bdat) (n : Nat) (last : Bool)
    (hsize : announced c.argument = some (n, last)) (hn : n ≤ maxInt64) :
  let s := (after cfg env b manager tls feed world k).1
  let x := turn cfg (env.withAuth b) s
  (x.1 = .ok true → ∃ w, w.length = n ∧ rest = Feed.items w ++ x.2.feed) ∧
  (x.1 ≠ .ok true → (∃ w, w.length = n ∧ rest = Feed.items w ++ x.2.feed) ∨ Unanswered s.log x.2 ∧
    (Short rest n ∨ x.2.feed = rest ∨ x.2.feed = s.feed)) ∧
  ∀ t r t', x.2.log = s.log ++ t ++ .reply r :: t' →
    ∃ w rest', w.length = n ∧ rest = Feed.items w ++ rest' ∧ .chunk w ∈ t
  := by
  intro s x
  have hparse := parseBDATArgument_of_announced hsize
  rw [if_pos hn] at hparse
  have hphase := phase_of_extended (steady_after hon) hextended
  have hsilent (w : ω) : Unanswered s.log { s with world := w } :=
    ⟨[], (List.append_nil _).symm, List.forall_mem_nil _⟩
  have hturn : wp (turn cfg (env.withAuth b)) (fun _ => Consumed s.log rest n)
      (fun _ s' => Framed s.log rest n s' ∨ Unanswered s.log s' ∧ s'.feed = s.feed) s := by
    refine wp_turn_command hread (fun _ w => .inr ⟨hsilent w, rfl⟩) ?_
    exact wp_mono (framed_obey hchunking hextended hphase hverb hparse
      ⟨[.decoded c], rfl, by simp [LogEvent.isReply]⟩ rfl) (fun _ _ => id) fun _ _ => .inl
  have hdone (h : Consumed s.log rest n x.2) :
      ∃ w, w.length = n ∧ rest = Feed.items w ++ x.2.feed := by
    obtain ⟨t, w, t', -, -, hlength, hfeed⟩ := h
    exact ⟨w, hlength, hfeed⟩
  have hend : Consumed s.log rest n x.2 ∨ x.1 ≠ .ok true ∧ Unanswered s.log x.2 ∧
      (Short rest n ∨ x.2.feed = rest ∨ x.2.feed = s.feed) := by
    have hfailed (h : Framed s.log rest n x.2 ∨ Unanswered s.log x.2 ∧ x.2.feed = s.feed)
        (hx : x.1 ≠ .ok true) : Consumed s.log rest n x.2 ∨ x.1 ≠ .ok true ∧
        Unanswered s.log x.2 ∧ (Short rest n ∨ x.2.feed = rest ∨ x.2.feed = s.feed) := by
      rcases h with (h | ⟨hsilent, h⟩) | ⟨hsilent, h⟩
      · exact .inl h
      · exact .inr ⟨hx, hsilent, h.imp_right .inl⟩
      · exact .inr ⟨hx, hsilent, .inr (.inr h)⟩
    simp only [wp] at hturn
    rcases hx : turn cfg (env.withAuth b) s with ⟨on | e | _, s'⟩ <;> simp only [hx] at hturn
    · exact .inl (by simpa only [x, hx] using hturn)
    · exact hfailed (by simpa only [x, hx] using hturn) (by simp [x, hx])
    · exact hfailed (by simpa only [x, hx] using hturn) (by simp [x, hx])
  refine ⟨fun hgo => ?_, fun _ => ?_, fun t r t' ht => ?_⟩
  · exact hdone (hend.resolve_right fun h => h.1 hgo)
  · exact hend.imp hdone And.right
  · rcases hend with h | ⟨-, hsilent, -⟩
    · exact h.before ht
    · exact absurd ht hsilent.not_reply

/-- A chunk of three octets, and then a command. -/
theorem framed_after_three :
  let r := after (.small 7 (by decide)) Env.plain .plain SpoolManager.small false
    (script ["EHLO a", "MAIL FROM:<>", "RCPT TO:<c>", "BDAT 3", "a", "NOOP"]) () 3
  ∃ w, w.length = 3 ∧ script ["a", "NOOP"]
    = Feed.items w ++ (turn (.small 7 (by decide)) (Env.plain.withAuth .plain) r.1).2.feed
  := (framed_after (.small 7 (by decide)) Env.plain .plain SpoolManager.small false
    (script ["EHLO a", "MAIL FROM:<>", "RCPT TO:<c>", "BDAT 3", "a", "NOOP"]) () 3
    (by decide +kernel) rfl (by decide +kernel) ⟨ascii "BDAT", ascii "3"⟩ (script ["a", "NOOP"])
    (by decide +kernel) (by decide +kernel) 3 false (by decide +kernel) (by decide)).1
    (by decide +kernel)

end GoSmtp.Server.Session
