import GoSmtp.Server.Observer

/-!
# The flushing of replies

Replies are buffered, and so is what the peer has sent.  The server flushes its replies before it
reads unless the decoder holds octets.  That a read does not have to wait is another matter: the
octets that are held may be the beginning of a command, or of a chunk.
-/

namespace GoSmtp.Server

open Exec

variable {φ ω : Type}

/-- How the octets of the peer are cut into segments: whether a segment of the given stream ends
where the given feed is left.  A stream begins with the connection, and with every handshake. -/
abbrev Segmentation (φ : Type) := Nat → Feed UInt8 φ → Bool

namespace Segmentation

variable (cuts : Segmentation φ) (stream : Nat)

/-- The decoder holds nothing.  A fault and the end of a stream are not held. -/
def drained : Feed UInt8 φ → Bool
  | .item b :: f => cuts stream (.item b :: f)
  | _ => true

/-- A read from `f` to `f'` asks for something that has not arrived. -/
def awaited (f f' : Feed UInt8 φ) : Bool :=
  f.tails.any fun g => f'.length < g.length && cuts.drained stream g

/-- The peer has sent its last octet. -/
def ended {α : Type} : Except (CommandError φ) α → Bool
  | .error .eof | .error .unexpectedEOF => true
  | _ => false

/-- The read has to wait for the peer.  The reading of content and of responses is taken to wait
always. -/
def blocks : Awaited → Feed UInt8 φ → Bool
  | .command, f => cuts.awaited stream f (readCommand f).2 || ended (readCommand f).1
  | .chunk size, f =>
    cuts.awaited stream f (readBDATChunk size f).2.2 || (readBDATChunk size f).2.1.isSome
  | .response, _ | .content, _ => true

end Segmentation

/-- A read of the server, and the replies that were not flushed when it began. -/
structure Reading where
  awaited : Awaited
  blocks : Bool
  pending : List WireReply
  deriving DecidableEq, Repr

/-- A read that has to wait begins when every reply is flushed. -/
def Reading.Prompt (r : Reading) : Prop := r.blocks = true → r.pending = []

/-- What an observer of the transport knows: the number of the stream, the replies that are not
flushed, and the reads so far. -/
structure Wire where
  stream : Nat := 0
  pending : List WireReply := []
  readings : List Reading := []
  deriving DecidableEq, Repr

namespace Wire

def observer (cuts : Segmentation φ) : Observer φ Wire where
  wrote r t := { t with pending := t.pending ++ [r] }
  flushed t := { t with pending := [] }
  awaits awaited feed t :=
    { t with readings := t.readings ++ [⟨awaited, cuts.blocks t.stream awaited feed, t.pending⟩] }
  shaken t := { t with stream := t.stream + 1 }
  buffered feed t := some (!cuts.drained t.stream feed)

/-- Every read so far was prompt. -/
def Prompt (t : Wire) : Prop := ∀ r ∈ t.readings, r.Prompt

/-- The replies that the loop leaves when it reads the next command. -/
def unflushed (cuts : Segmentation φ) (t : Wire) (feed : Feed UInt8 φ) : List WireReply :=
  if cuts.drained t.stream feed then [] else t.pending

theorem prompt_awaits {cuts : Segmentation φ} {awaited : Awaited} {feed : Feed UInt8 φ} {t : Wire}
    (h : t.pending = [] ∨ cuts.blocks t.stream awaited feed = false) (ht : t.Prompt) :
  ((observer cuts).awaits awaited feed t).Prompt
  := by
  intro r hr
  rcases List.mem_append.mp hr with hold | hnew
  · exact ht r hold
  · obtain rfl := List.mem_singleton.mp hnew
    rcases h with hnone | hready
    · exact fun _ => hnone
    · exact fun hblocks => absurd hblocks (by simp [hready])

theorem watches (cuts : Segmentation φ) :
  Session.Watches (observer cuts) (Exec.Preserves Prompt)
  where
  wrote _ _ := id
  flushed _ := id
  shaken _ := id
  asks _ _ _ t ht := prompt_awaits (t := { t with pending := [] }) (.inl rfl) ht

end Wire

namespace Session

/-- The size of the chunk that the server takes with the command. -/
def chunkTaken (cfg : Config) (c : Command) (s : Session φ ω) : Option Nat :=
  if Verb.ofSpelling c.verb = .bdat ∧ s.state.legality .bdat = .allowed ∧ s.extended = true ∧
      cfg.chunking = true then
    (parseBDATArgument c.argument).toOption.map (·.size)
  else none

/-- The size of the chunk that the server takes in the next turn. -/
def nextChunk (cfg : Config) (s : Session φ ω) : Option Nat :=
  match (readCommand s.feed).1 with
  | .error _ => none
  | .ok c => s.chunkTaken cfg c

/-- In the next turn nothing is read with replies that are not flushed, save what has arrived:
the whole command, and the whole chunk that follows it. -/
def Ready (cuts : Segmentation φ) (cfg : Config) (s : Session φ (ω × Wire)) : Prop :=
  s.ghost.unflushed cuts s.feed = [] ∨
    cuts.blocks s.ghost.stream .command s.feed = false ∧
      ∀ n ∈ s.nextChunk cfg,
        cuts.blocks s.ghost.stream (.chunk n) (readCommand s.feed).2 = false

instance (cuts : Segmentation φ) (cfg : Config) (s : Session φ (ω × Wire)) :
    Decidable (s.Ready cuts cfg) :=
  inferInstanceAs (Decidable (_ ∨ _ ∧ _))

variable {env : Env φ ω} {cuts : Segmentation φ} {s : Session φ (ω × Wire)}

theorem buffered_seen :
  buffered (env.observed (Wire.observer cuts)) s = (.ok !cuts.drained s.ghost.stream s.feed, s)
  := rfl

theorem wp_flushBeforeRead_seen :
  wp (flushBeforeRead (env.observed (Wire.observer cuts)))
    (fun _ s' => s' = { s with world := s'.world } ∧
      s'.ghost = { s.ghost with pending := s.ghost.unflushed cuts s.feed })
    (fun _ s' => s'.ghost = s.ghost) s
  := by
  rw [flushBeforeRead, wp_bind, wp, buffered_seen, Wire.unflushed]
  cases cuts.drained s.ghost.stream s.feed with
  | true => exact wp_transport_seen
  | false => exact ⟨rfl, rfl⟩

theorem takeChunk_watched {n : Nat}
    (h : s.ghost.pending = [] ∨ cuts.blocks s.ghost.stream (.chunk n) s.feed = false) :
  Watched (Exec.Preserves Wire.Prompt) s (takeChunk (env.observed (Wire.observer cuts)) n s).2
  := by
  apply wp_state
  rw [takeChunk, wp_bind]
  apply wp_mono wp_await_seen
  · rintro _ s' ⟨-, hs'⟩
    intro ht
    change s'.ghost.Prompt
    rw [hs']
    exact Wire.prompt_awaits h ht
  · intro _ s' hs'
    rw [Watched, hs']
    exact id

theorem attachSpool_seen {o : Observer φ Wire} :
  (attachSpool (env.observed o) s).2.feed = s.feed ∧
    (attachSpool (env.observed o) s).2.ghost = s.ghost
  := by
  have hkeeps : Keeps (fun s => (s.feed, s.ghost)) (attachSpool (env.observed o)) := by
    apply Keeps.bind fun _ => rfl
    intro _
    apply Keeps.read.bind
    intro s
    split
    · exact .pure _
    · exact Keeps.bind (fun _ => rfl) fun _ => Keeps.bind (fun _ => rfl) fun _ => .pure _
  exact Prod.ext_iff.mp (hkeeps s)

/-- The chunk that follows the command, if there is one, has arrived. -/
def Fetched (cuts : Segmentation φ) (cfg : Config) (c : Command) (s : Session φ (ω × Wire)) : Prop :=
  s.ghost.pending = [] ∨
    ∀ n ∈ s.chunkTaken cfg c, cuts.blocks s.ghost.stream (.chunk n) s.feed = false

theorem execute_watched {cfg : Config} {c : Command} (h : s.Fetched cuts cfg c) :
  Watched (Exec.Preserves Wire.Prompt) s (execute cfg (env.observed (Wire.observer cuts)) c s).2
  := by
  have hwalk : Walk (env.observed (Wire.observer cuts)) _ (Watched (Exec.Preserves Wire.Prompt)) :=
    (Wire.watches cuts).walk
  apply hwalk.execute trivial fun _ => Watches.own rfl
  intro hverb hlegality
  apply hwalk.handleBDAT trivial
  intro framing hparse hextended hchunking
  have hready : s.ghost.pending = [] ∨
      cuts.blocks s.ghost.stream (.chunk framing.size) s.feed = false :=
    h.imp_right fun h => h framing.size (by
      simp [chunkTaken, hverb, hlegality, hextended, hchunking, hparse, Except.toOption])
  constructor
  · exact takeChunk_watched hready
  · apply takeChunk_watched
    rwa [attachSpool_seen.1, attachSpool_seen.2]

theorem turn_watched {cfg : Config} (h : s.Ready cuts cfg) :
  Watched (Exec.Preserves Wire.Prompt) s (turn cfg (env.observed (Wire.observer cuts)) s).2
  := by
  have hwalk : Walk (env.observed (Wire.observer cuts)) _ (Watched (Exec.Preserves Wire.Prompt)) :=
    (Wire.watches cuts).walk
  have hexecute {c : Command} (s₃ : Session φ (ω × Wire)) (h₃ : s₃.Fetched cuts cfg c)
      (ht₃ : s₃.ghost.Prompt) :
      wp (do
        let action ← execute cfg (env.observed (Wire.observer cuts)) c
        finishTurn (env.observed (Wire.observer cuts)) action)
        (fun _ s' => s'.ghost.Prompt) (fun _ s' => s'.ghost.Prompt) s₃ :=
    wp_of_state (Along.after (execute_watched h₃) hwalk.finishTurn ht₃)
  intro ht
  apply wp_state (I := fun s' : Session φ (ω × Wire) => s'.ghost.Prompt)
  rw [turn, wp_bind, wp_outside]
  split
  · exact ht
  rw [wp_bind]
  apply wp_mono wp_flushBeforeRead_seen
  · rintro _ s₁ ⟨hs₁, hghost₁⟩
    have hcommand : s₁.ghost.pending = [] ∨
        cuts.blocks s₁.ghost.stream .command s₁.feed = false := by
      rw [hghost₁, hs₁]
      exact h.imp_right And.left
    have ht₁ : s₁.ghost.Prompt := by
      rw [hghost₁]
      exact ht
    rw [wp_bind]
    apply wp_mono wp_await_seen
    · rintro _ s₂ ⟨hs₂, hghost₂⟩
      have ht₂ : s₂.ghost.Prompt := by
        rw [hghost₂]
        exact Wire.prompt_awaits hcommand ht₁
      rw [wp_bind, wp_read, wp_bind, wp_update]
      have hfeed : s₂.feed = s.feed := by rw [hs₂, hs₁]
      rw [hfeed]
      split
      · exact ht₂
      · next e _ _ =>
        have hrest := (hwalk.handleCommandReadError e).bind hwalk.finishTurn
        exact wp_of_state (hrest _ ht₂)
      · next c hc =>
        rw [wp_bind, wp_record]
        refine hexecute _ ?_ ht₂
        rcases h with hnone | ⟨-, hchunk⟩
        · left
          change s₂.ghost.pending = []
          rw [hghost₂, hghost₁]
          exact hnone
        · right
          have htaken : s.nextChunk cfg = s₂.chunkTaken cfg c := by
            rw [nextChunk, hc, hs₂, hs₁]
            rfl
          have hstream : s₂.ghost.stream = s.ghost.stream := by
            rw [hghost₂, hghost₁]
            rfl
          rw [htaken, ← hstream] at hchunk
          exact hchunk
    · intro _ s₂ hs₂
      rw [hs₂]
      exact ht₁
  · intro _ s₁ hs₁
    rw [hs₁]
    exact ht

/-- In a run in which every command, and every chunk, that the server reads with replies that are
not flushed has arrived as a whole, every reply is flushed before the server waits for the peer. -/
theorem flushed_before_blocking (cuts : Segmentation φ) (cfg : Config) (env : Env φ ω)
    (manager : SpoolManager) (tls : Bool) (feed : Feed UInt8 φ) (world : ω) (n : Nat)
    (h : ∀ k < n,
      let x := serve cfg (env.observed (Wire.observer cuts)) k
        (Session.new cfg manager tls feed (world, {}))
      x.2 = true → x.1.Ready cuts cfg) :
  ∀ r ∈ (serve cfg (env.observed (Wire.observer cuts)) n
      (Session.new cfg manager tls feed (world, {}))).1.ghost.readings,
    r.blocks = true → r.pending = []
  := by
  apply serve_invariant (I := fun s : Session φ (ω × Wire) => s.ghost.Prompt)
    (C := fun s => s.Ready cuts cfg) _ _ _ h
  · exact fun s hready => turn_watched hready
  · exact (Wire.watches cuts).close
  · exact List.forall_mem_nil _

/-- A session of a client that greets, and sends MAIL and RCPT after it. -/
def pipelined : Session Empty (Unit × Wire) :=
  Session.new (.small 7 seven_lt) SpoolManager.small false
    (script ["EHLO a", "MAIL FROM:<>", "RCPT TO:<c>"]) ((), {})

/-- The greeting is a segment, and the rest another that ends `n` octets before the end. -/
def segments (n : Nat) : Segmentation Empty := fun _ f => [35, 27, n].contains f.length

/-- RCPT is read with a reply that is not flushed, and need not be waited for. -/
theorem flushed_before_blocking_whole :
  let readings := (serve (.small 7 (by decide))
    (Env.plain.observed (Wire.observer (segments 0))) 3 pipelined).1.ghost.readings
  (∃ r ∈ readings, r.pending ≠ []) ∧ ∀ r ∈ readings, r.blocks = true → r.pending = []
  := by
  constructor
  · decide +kernel
  · apply flushed_before_blocking
    decide +kernel

/-- The last segment but one ends with the first two octets of RCPT.  The server waits for the
others, and has not sent the reply to MAIL. -/
theorem not_flushed_before_blocking :
  let readings := (serve (.small 7 (by decide))
    (Env.plain.observed (Wire.observer (segments 11))) 3 pipelined).1.ghost.readings
  ∃ r ∈ readings, r.awaited = .command ∧ r.blocks = true ∧ r.pending.map (·.code) = [250]
  := by decide +kernel

end Session

end GoSmtp.Server
