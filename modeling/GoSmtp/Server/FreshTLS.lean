import GoSmtp.Server.Connection
import GoSmtp.Server.Flush
import GoSmtp.Server.Framing

/-!
# What STARTTLS discards

After a handshake the server knows nothing of what it was told in plaintext.  Its protocol state is
the one of a session that has just begun over implicit TLS, whatever the history was and whatever
the peer sent after the STARTTLS line.
-/

namespace GoSmtp.Server

variable {φ ω : Type}

/-- What a session knows of its peer and holds for it, except for the count of MAIL attempts. -/
structure Knowledge (φ : Type) where
  state : ProtocolState
  extended : Bool
  smtpUTF8 : Bool
  binaryMIME : Bool
  recipients : List Bytes
  transactionOpen : Bool
  spool : Option Spool
  closed : Bool
  /-- The input, what was read ahead included. -/
  feed : Feed UInt8 φ
  /-- The replies that are not flushed. -/
  pending : List WireReply

/-- The knowledge of a session over TLS that has been told nothing. -/
def Knowledge.fresh (cfg : Config) (feed : Feed UInt8 φ) : Knowledge φ where
  state := { ProtocolState.new cfg.mode with tls := true }
  extended := false
  smtpUTF8 := false
  binaryMIME := false
  recipients := []
  transactionOpen := false
  spool := none
  closed := false
  feed := feed
  pending := []

namespace Session

def knowledge (s : Session φ (ω × Wire)) : Knowledge φ where
  state := s.state
  extended := s.extended
  smtpUTF8 := s.smtpUTF8
  binaryMIME := s.binaryMIME
  recipients := s.recipients
  transactionOpen := s.transactionOpen
  spool := s.spool
  closed := s.closed
  feed := s.feed
  pending := s.ghost.pending

/-- A connection up to the flush of its greeting: whether there is a session to serve. -/
def establish (cfg : Config) (env : Env φ ω) (frontend : Frontend φ ω) : Call φ ω Bool := do
  if ← begin env frontend then attend cfg env 0 else pure false

theorem wp_start {env : Env φ ω} {frontend : Frontend φ ω} {s : Session φ ω} :
  wp (begin.start env frontend) (fun on s' => on = true → s' = { s with world := s'.world })
    (fun _ _ => True) s
  := by
  have hoff (m : Call φ ω Unit) (s₁ : Session φ ω) : wp (do m; pure false)
      (fun on s' => on = true → s' = { s with world := s'.world }) (fun _ _ => True) s₁ := by
    rw [wp_bind]
    exact wp_of_forall (fun _ _ => by simp) fun _ _ => trivial
  have hdismiss (enhanced : EnhancedCode) (close : Bool) (s₁ : Session φ ω) :
      wp (dismiss env enhanced close)
        (fun on s' => on = true → s' = { s with world := s'.world }) (fun _ _ => True) s₁ := by
    rw [dismiss, wp_bind]
    apply wp_of_forall _ fun _ _ => trivial
    intro _ s₂
    rw [wp_ite]
    refine ⟨fun _ => ?_, fun _ => by simp⟩
    rw [wp_bind, wp_record]
    exact hoff _ _
  rw [begin.start, wp_bind]
  refine wp_callback (fun r w => ?_) fun _ _ => trivial
  split
  · exact hoff _ _
  · exact hdismiss _ _ _
  · exact hdismiss _ _ _
  · exact fun _ => rfl

section Establish

variable {cfg : Config} {env : Env φ ω} {cuts : Segmentation φ} {s : Session φ (ω × Wire)}

theorem wp_attend :
  wp (attend cfg (env.observed (Wire.observer cuts)) 0)
    (fun _ s' => s'.knowledge = { s.knowledge with pending := [] }) (fun _ _ => True) s
  := by
  rw [attend, wp_bind]
  refine wp_writeReply (fun w => ?_) fun _ _ => trivial
  rw [wp_bind]
  apply wp_mono wp_transport_seen
  · rintro _ s' ⟨hs', hghost⟩
    rw [hs', runLoop, wp_pure]
    simp only [knowledge, ghost] at hghost ⊢
    rw [hghost]
    rfl
  · exact fun _ _ _ => trivial

theorem knowledge_establish {frontend : Frontend φ (ω × Wire)} {manager : SpoolManager}
    {plaintext secured : Feed UInt8 φ} {world : ω × Wire}
    {handshake : ω × Wire → Except φ (Feed UInt8 φ) × (ω × Wire)}
    (himplicit : frontend.implicitTLS = some handshake) (hshake : (handshake world).1 = .ok secured)
    (hon : (establish cfg (env.observed (Wire.observer cuts)) frontend
      (Session.new cfg manager false plaintext world)).1 = .ok true) :
  (establish cfg (env.observed (Wire.observer cuts)) frontend
    (Session.new cfg manager false plaintext world)).2.knowledge = .fresh cfg secured
  := by
  have hrun : wp (establish cfg (env.observed (Wire.observer cuts)) frontend)
      (fun on s' => on = true → s'.knowledge = .fresh cfg secured) (fun _ _ => True)
      (Session.new cfg manager false plaintext world) := by
    rw [establish, wp_bind, begin, himplicit, wp_bind, wp_outside]
    simp only [Session.new, hshake, wp_bind, wp_update]
    apply wp_mono wp_start
    · intro on s' hs'
      rw [wp_ite]
      refine ⟨fun htrue => ?_, fun _ => by simp⟩
      rw [hs' htrue]
      apply wp_mono wp_attend
      · exact fun _ s'' h _ => h
      · exact fun _ _ _ => trivial
    · exact fun _ _ _ => trivial
  apply wp_elim hrun (P := fun x => x.1 = .ok true → x.2.knowledge = .fresh cfg secured)
  · exact fun on s' h heq => h (Outcome.ok.inj heq)
  · exact fun _ _ _ => by simp
  · exact fun _ _ => by simp
  · exact hon

end Establish

/-! ### The handshake -/

section Handshake

variable {cfg : Config} {env : Env φ ω} {cuts : Segmentation φ} {b : AuthBackend (ω × Wire)}
  {s : Session φ (ω × Wire)}

/-- The TLS flag is left as it was, or the handshake has discarded all knowledge. -/
def Forgets (cfg : Config) (env : Env φ ω) (s s' : Session φ (ω × Wire)) : Prop :=
  s'.state.tls = s.state.tls ∨
    ∃ w secured, (env.handshake w).1 = .ok secured ∧ s'.knowledge = .fresh cfg secured

theorem Forgets.flush {s₁ s₂ : Session φ (ω × Wire)} (h : Forgets cfg env s s₁)
    (heq : s₂ = { s₁ with world := s₂.world }) (hpending : s₂.ghost.pending = []) :
  Forgets cfg env s s₂
  := by
  rcases h with hsame | ⟨w, secured, hshake, hknown⟩
  · left
    rw [heq]
    exact hsame
  · right
    use w, secured, hshake
    have hflushed : s₂.knowledge = { s₁.knowledge with pending := [] } := by
      rw [knowledge, hpending, heq]
      rfl
    rw [hflushed, hknown]
    rfl

theorem wp_discard (secured : Feed UInt8 φ) (hmode : s.state.mode = cfg.mode)
    (hphase : s.state.phase = .ready) (hopen : s.closed = false) (hpending : s.ghost.pending = []) :
  wp (do
      record .handshake
      lifecycleReset ((env.observed (Wire.observer cuts)).withAuth b) .startTLS
      transition .startTLS
      Exec.update fun s => { s with extended := false, feed := secured }
      clearTransaction
      pure {})
    (fun (_ : CommandAction) s' => s'.knowledge = .fresh cfg secured) (fun _ _ => True) s
  := by
  have hseen : s.world.2.pending = [] := hpending
  rw [wp_bind, wp_record, wp_bind]
  refine wp_lifecycleReset_iff.mpr ⟨fun _ => ?_, fun _ => trivial⟩
  rw [wp_bind]
  refine (wp_transition_of_mem ?_).mpr ?_
  · simp [afterReset, hphase, phaseTransitions]
  · rw [wp_bind, wp_update, wp_bind, clearTransaction, wp_update, wp_pure]
    simp [knowledge, Knowledge.fresh, afterReset, ProtocolState.applyEvent, ProtocolState.new,
      phaseTransitions, hopen, ← hmode, ghost, Env.withAuth, Env.observed, unseen, hseen]

theorem wp_handleSTARTTLS {c : Command} (hmode : s.state.mode = cfg.mode)
    (hphase : s.state.phase = .ready) (hopen : s.closed = false) :
  wp (handleSTARTTLS cfg ((env.observed (Wire.observer cuts)).withAuth b) c)
    (fun _ s' => Forgets cfg env s s') (fun _ _ => True) s
  := by
  have hanswer (r : WireReply) : wp (do
        writeReply ((env.observed (Wire.observer cuts)).withAuth b) r
        pure sync)
      (fun _ s' => Forgets cfg env s s') (fun _ _ => True)
      s := by
    rw [wp_bind]
    exact wp_writeReply (fun w => .inl rfl) fun _ _ => trivial
  rw [handleSTARTTLS, wp_bind, wp_read, wp_ite]
  refine ⟨fun _ => hanswer _, fun _ => ?_⟩
  rw [wp_ite]
  refine ⟨fun _ => hanswer _, fun _ => ?_⟩
  rw [wp_bind]
  refine wp_writeReply (fun w => ?_) fun _ _ => trivial
  rw [wp_bind]
  apply wp_mono wp_transport_seen
  · rintro _ s₁ ⟨hs₁, hflushed⟩
    have hpending : s₁.ghost.pending = [] := by rw [hflushed]; rfl
    have hmode₁ : s₁.state.mode = cfg.mode := by rw [hs₁]; exact hmode
    have hready : s₁.state.phase = .ready := by rw [hs₁]; exact hphase
    have hclosed : s₁.closed = false := by rw [hs₁]; exact hopen
    rw [wp_bind, wp_outside]
    rcases hshake : env.handshake s₁.world.1 with ⟨e | secured, w'⟩
    · have hfailed : ((env.observed (Wire.observer cuts)).withAuth b).handshake s₁.world =
          (.error e, w', s₁.world.2) := by simp [Env.withAuth, Env.observed, hshake]
      rw [hfailed]
      trivial
    · have hdone : ((env.observed (Wire.observer cuts)).withAuth b).handshake s₁.world =
          (.ok secured, w', (Wire.observer cuts).shaken s₁.world.2) := by
        simp [Env.withAuth, Env.observed, hshake]
      rw [hdone]
      let s₂ := { s₁ with world := (w', (Wire.observer cuts).shaken s₁.world.2) }
      apply wp_mono (wp_discard (s := s₂) secured hmode₁ hready hclosed hpending)
      · exact fun _ s' h => .inr ⟨_, secured, congrArg Prod.fst hshake, h⟩
      · exact fun _ _ _ => trivial
  · exact fun _ _ _ => trivial

theorem turn_startTLS {c : Command} {rest : Feed UInt8 φ} (hmode : s.state.mode = cfg.mode)
    (hopen : s.closed = false) (hread : readCommand s.feed = (.ok c, rest))
    (hverb : Verb.ofSpelling c.verb = .startTLS) :
  wp (turn cfg ((env.observed (Wire.observer cuts)).withAuth b))
    (fun _ s' => Forgets cfg env s s') (fun _ _ => True) s
  := by
  refine wp_turn_command hread (fun _ _ => trivial) ?_
  rw [obey, wp_bind]
  have hfinish (action : CommandAction) {s₁ : Session φ (ω × Wire)} (h : Forgets cfg env s s₁) :
      wp (finishTurn ((env.observed (Wire.observer cuts)).withAuth b) action)
        (fun _ s' => Forgets cfg env s s') (fun _ _ => True) s₁ := by
    rw [finishTurn, wp_ite]
    refine ⟨fun _ => ?_, fun _ => h⟩
    rw [wp_bind]
    apply wp_mono wp_transport_seen
    · rintro _ s₂ ⟨hs₂, hghost⟩
      apply h.flush hs₂
      rw [hghost]
      rfl
    · exact fun _ _ _ => trivial
  let s₁ := s.receiving ((env.observed (Wire.observer cuts)).withAuth b) c rest
  have hanswer (r : WireReply) (action : CommandAction) : wp (do
        writeReply ((env.observed (Wire.observer cuts)).withAuth b) r
        pure action)
      (fun action => wp (finishTurn ((env.observed (Wire.observer cuts)).withAuth b) action)
        (fun _ s' => Forgets cfg env s s') fun _ _ => True) (fun _ _ => True) s₁ := by
    rw [wp_bind]
    exact wp_writeReply (fun w => hfinish action (.inl rfl)) fun _ _ => trivial
  rw [execute, hverb, if_neg (by simp), dispatch, wp_bind, wp_read]
  cases hlegality : s₁.state.legality .startTLS with
  | unknown => exact hanswer _ _
  | wrongMode => exact hanswer _ _
  | wrongState => exact hanswer _ _
  | allowed =>
    obtain ⟨rule, hrule, hphase, -⟩ := ProtocolState.legality_allowed hlegality
    cases hrule
    have hready : s₁.state.phase = .ready := by simpa using hphase
    apply wp_mono (wp_handleSTARTTLS (s := s₁) hmode hready hopen)
    · exact fun action s' h => hfinish action h
    · exact fun _ _ _ => trivial

end Handshake

/-- In every session that has turned TLS on with a STARTTLS command, whatever it was told before and
whatever follows the command in plaintext, the knowledge is the one of every session that has just
begun with the same input over implicit TLS. -/
theorem startTLS_discards (cuts : Segmentation φ) (cfg : Config) (env : Env φ ω)
    (b : AuthBackend (ω × Wire)) (manager : SpoolManager) (tls : Bool) (feed : Feed UInt8 φ)
    (world : ω) (n : Nat) (c : Command) (rest : Feed UInt8 φ) :
  let observed := (env.observed (Wire.observer cuts)).withAuth b
  let before := after cfg (env.observed (Wire.observer cuts)) b manager tls feed (world, {}) n
  let x := turn cfg observed before.1
  before.2 = true → readCommand before.1.feed = (.ok c, rest) →
  Verb.ofSpelling c.verb = .startTLS → before.1.state.tls = false →
  x.1 = .ok true → x.2.state.tls = true →
  ∃ w secured, (env.handshake w).1 = .ok secured ∧
    ∀ {ω' : Type} (env' : Env φ ω') (cuts' : Segmentation φ) (frontend : Frontend φ (ω' × Wire))
      (handshake : ω' × Wire → Except φ (Feed UInt8 φ) × (ω' × Wire)) (manager' : SpoolManager)
      (plaintext : Feed UInt8 φ) (world' : ω'),
    let fresh := establish cfg (env'.observed (Wire.observer cuts')) frontend
      (Session.new cfg manager' false plaintext (world', {}))
    frontend.implicitTLS = some handshake → (handshake (world', {})).1 = .ok secured →
    fresh.1 = .ok true → x.2.knowledge = fresh.2.knowledge
  := by
  intro observed before x hon hread hverb hplain hok htls
  have hmode : before.1.state.mode = cfg.mode := mode_serve hon
  have hopen : before.1.closed = false := (steady_after hon).unclosed.2
  have hforgets : Forgets cfg env before.1 x.2 := by
    apply wp_elim (turn_startTLS hmode hopen hread hverb)
      (P := fun x => x.1 = .ok true → Forgets cfg env before.1 x.2)
    · exact fun _ _ h _ => h
    · exact fun _ _ _ => by simp
    · exact fun _ _ => by simp
    · exact hok
  rcases hforgets with hsame | ⟨w, secured, hshake, hknown⟩
  · rw [hplain, htls] at hsame
    cases hsame
  · use w, secured, hshake
    intro ω' env' cuts' frontend handshake manager' plaintext world' fresh himplicit hshake' hfresh
    rw [hknown]
    exact (knowledge_establish himplicit hshake' hfresh).symm

/-- A server that offers STARTTLS. -/
def securable : Config := { Config.small 7 seven_lt with tlsConfig := true }

/-- Over TLS the peer greets once more. -/
def shaking : Env Empty Unit := { Env.plain with handshake := fun w => (.ok (script ["EHLO b"]), w) }

/-- A connection over implicit TLS, with a peer that sends the same. -/
def implicit : Frontend Empty (Unit × Wire) where
  implicitTLS := some fun w => (.ok (script ["EHLO b"]), w)
  newSession w := (.ok .valid, w)

/-- MAIL is sent in plaintext after STARTTLS, and is not seen. -/
theorem startTLS_discards_injected :
  let quiet : Segmentation Empty := fun _ _ => false
  let before := after securable (shaking.observed (Wire.observer quiet)) .plain SpoolManager.small
    false (script ["EHLO a", "STARTTLS", "MAIL FROM:<>"]) ((), {}) 1
  (turn securable ((shaking.observed (Wire.observer quiet)).withAuth .plain) before.1).2.knowledge =
    (establish securable (shaking.observed (Wire.observer quiet)) implicit
      (Session.new securable SpoolManager.small false [] ((), {}))).2.knowledge
  := by
  obtain ⟨w, secured, hshake, hfresh⟩ := startTLS_discards (fun _ _ => false) securable shaking
    .plain SpoolManager.small false (script ["EHLO a", "STARTTLS", "MAIL FROM:<>"]) () 1
    ⟨ascii "STARTTLS", []⟩ (script ["MAIL FROM:<>"]) (by decide +kernel) (by decide +kernel)
    (by decide +kernel) (by decide +kernel) (by decide +kernel) (by decide +kernel)
  cases hshake
  apply hfresh shaking (fun _ _ => false) implicit _ SpoolManager.small [] () rfl rfl
  decide +kernel

end Session

end GoSmtp.Server
