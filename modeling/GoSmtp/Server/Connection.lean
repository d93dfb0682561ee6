import GoSmtp.Server.Budget
import GoSmtp.Server.Contract
import GoSmtp.Server.Registry

/-!
# The handler of a connection

`serveConnection` in `smtpserver/cmd_server.go`: the session of a connection is made, served until
its loop ends, and cleaned up by deferred calls.  A panic of a callback is recovered while the
session is served, but not while it is closed.
-/

namespace GoSmtp.Server

variable {κ σ φ ω α : Type} [DecidableEq κ] [DecidableEq σ]
variable (cfg : Config) (env : Env φ ω)

/-! ### The handler -/

/-- What is wrong with a session that the backend has made, if anything. -/
inductive SessionCheck where
  /-- `validateSession` fails.  Even `Session.Close` may be missing. -/
  | invalid (close : Bool)
  /-- Authentication is required, but the session has no verifier for it. -/
  | unreachable
  | valid
  deriving DecidableEq, Repr

/-- The outside of a connection that has no session yet. -/
structure Frontend (φ ω : Type) where
  /-- The handshake of a server with implicit TLS. -/
  implicitTLS : Option (ω → Except φ (Feed UInt8 φ) × ω)
  /-- `Backend.NewSession`. -/
  newSession : ω → Outcome BackendError SessionCheck × ω

namespace Session

/-- `writeGreetingError`.  Its own failure is ignored. -/
def writeGreetingError (e : BackendError) : Call φ ω Unit := do
  let _ ← Exec.attempt (writeReply env (errorReply e 421 (ascii "Service not available")))

/-- A session that cannot be used is closed at once. -/
def dismiss (enhanced : EnhancedCode) (close : Bool) : Call φ ω Bool := do
  writeGreetingError env (.protocol ⟨421, enhanced, ascii "Service not available"⟩)
  if close then
    record .close
    notify env.close
    pure false
  else pure false

/-- The part of `serveConnection` before there is a session to serve: whether there will be
one. -/
def begin (frontend : Frontend φ ω) : Call φ ω Bool := do
  match frontend.implicitTLS with
  | none => start
  | some handshake =>
    match ← outside handshake with
    | .error _ => pure false
    | .ok feed =>
      Exec.update fun s => { s with feed := feed, state.tls := true }
      start
  where
  /-- The backend is asked for a session. -/
  start : Call φ ω Bool := do
    match ← callback frontend.newSession with
    | .error e =>
      writeGreetingError env e
      pure false
    | .ok (.invalid close) => dismiss env .zero close
    | .ok .unreachable => dismiss env ⟨4, 3, 0, []⟩ true
    | .ok .valid => pure true

/-- The greeting and the loop, cut off after `n` turns: `true` if the loop goes on. -/
def attend (n : Nat) : Call φ ω Bool := do
  writeReply env { code := 220, text := cfg.identity ++ ascii " Service ready",
                   context := .greeting }
  transport env.flush
  runLoop cfg env n

end Session

/-- The state of a connection. -/
structure Connection (κ σ φ ω : Type) [DecidableEq κ] [DecidableEq σ] where
  registry : ConnectionRegistry κ σ
  session : Session φ ω
  rawClosed : Bool
  canceled : Bool

namespace Connection

/-- Calls on a connection. -/
abbrev Handler (κ σ φ ω α : Type) [DecidableEq κ] [DecidableEq σ] :=
  Exec (Connection κ σ φ ω) (SessionError φ) α

/-- A call on the session of a connection. -/
def onSession (m : Call φ ω α) : Handler κ σ φ ω α := fun c =>
  ((m c.session).1, { c with session := (m c.session).2 })

/-- The deferred calls that every connection makes, after the call `m`. -/
def release (conn : κ) (m : Handler κ σ φ ω Unit) : Handler κ σ φ ω Unit :=
  Exec.defer
    (Exec.defer
      (Exec.defer m (Exec.update fun c => { c with rawClosed := true }))
      (Exec.update fun c => { c with registry := c.registry.unregister conn }))
    (Exec.update fun c => { c with canceled := true })

/-- `serveConnection`, if its loop ends after at most `n` turns. -/
def serveConnection (frontend : Frontend φ ω) (conn : κ) (n : Nat)
    (c : Connection κ σ φ ω) : Option (Outcome (SessionError φ) Unit × Connection κ σ φ ω) :=
  match onSession (Session.begin env frontend) c with
  | (.ok true, c) =>
    match onSession (Session.attend cfg env n) c with
    | (.ok true, _) => none
    -- An error is reported, and a panic recovered and reported.
    | (_, c) => some (release conn (onSession (Session.close env)) c)
  | (.panic, c) => some (release conn (fun c => (.panic, c)) c)
  | (_, c) => some (release conn (pure ()) c)

end Connection

/-! ### The budget -/

namespace Session

/-- The share of the spool of a session. -/
def share (s : Session φ ω) : Int × Int × Int := (s.spool.map Spool.share).getD 0

theorem usage_detachSpool (s : Session φ ω) :
  s.detachSpool.manager.usage = s.manager.usage - s.share
  := by
  unfold detachSpool share
  split
  · next hspool => simp [hspool]
  · next spool hspool =>
    rw [hspool, Option.map_some, Option.getD_some, Spool.share, Spool.close, Exec.update]
    dsimp only
    split
    · simp
    · rfl

/-! ### The end of a session -/

/-- The callbacks that are called at the end of the session do not panic. -/
def settles (s : Session φ ω) : Bool :=
  if !s.transactionOpen && s.spool.isNone then !(env.close s.world).1
  else !(env.reset .sessionEnd s.world).1 && !(env.close (env.reset .sessionEnd s.world).2).1

/-- The session `s'` has nothing left of the budget of `s`. -/
structure Released (s s' : Session φ ω) : Prop where
  spool : s'.spool = none
  usage : s'.manager.usage = s.manager.usage - s.share

theorem wp_close_released {s : Session φ ω} (hclosed : s.closed = false) :
  wp (close env) (fun _ s' => s.settles env = true ∧ Released s s')
    (fun e s' => e = none ∧ s.settles env = false ∧ Released s s') s
  := by
  -- Whatever the last transition does, the spool and the manager stay.
  have hlast {s' : Session φ ω} (hs : s.settles env = true) (hs' : Released s s') :
      wp (do let _ ← Exec.attempt (transition .close))
        (fun _ s' => s.settles env = true ∧ Released s s')
        (fun e s' => e = none ∧ s.settles env = false ∧ Released s s') s' := by
    rw [wp_bind, wp_attempt]
    simp only [transition, wp_bind, wp_read]
    split
    · exact ⟨hs, hs'.spool, hs'.usage⟩
    · exact ⟨hs, hs'.spool, hs'.usage⟩
  rw [close, wp_bind, lifecycleClose, wp_bind, wp_read, if_neg (by simp [hclosed]),
    wp_bind, wp_update, wp_bind, resetIfOpen, wp_bind, wp_read, wp_ite]
  constructor
  · intro hidle
    have hsettles : s.settles env = !(env.close s.world).1 := if_pos hidle
    have hspool : s.spool = none := by simpa using (Bool.and_eq_true_iff.mp hidle).2
    have hreleased (w : ω) (log : List LogEvent) :
        Released s { s with closed := true, world := w, log := log } :=
      ⟨hspool, by simp [share, hspool]⟩
    rw [wp_pure, wp_bind, wp_record, wp_notify_iff]
    constructor
    · intro hcalm
      exact hlast (hsettles.trans (congrArg _ hcalm)) (hreleased _ _)
    · intro hpanic
      exact ⟨rfl, hsettles.trans (congrArg _ hpanic), hreleased _ _⟩
  · intro hidle
    have hsettles : s.settles env = (!(env.reset .sessionEnd s.world).1 &&
        !(env.close (env.reset .sessionEnd s.world).2).1) := if_neg hidle
    have hreleased (w : ω) (log : List LogEvent) : Released s
        { ({ s with closed := true } : Session φ ω).afterReset .sessionEnd with
          world := w, log := log } :=
      ⟨rfl, usage_detachSpool { s with closed := true }⟩
    rw [wp_lifecycleReset_iff]
    constructor
    · intro (hreset : (env.reset .sessionEnd s.world).1 = false)
      rw [wp_bind, wp_record, wp_notify_iff]
      constructor
      · intro (hcalm : (env.close (env.reset .sessionEnd s.world).2).1 = false)
        apply hlast _ (hreleased _ _)
        rw [hsettles, hreset, hcalm]
        rfl
      · intro (hpanic : (env.close (env.reset .sessionEnd s.world).2).1 = true)
        refine ⟨rfl, ?_, hreleased _ _⟩
        rw [hsettles, hreset, hpanic]
        rfl
    · intro (hpanic : (env.reset .sessionEnd s.world).1 = true)
      refine ⟨rfl, ?_, hreleased _ _⟩
      rw [hsettles, hpanic]
      rfl

theorem wp_dismiss {env : Env φ ω} {enhanced : EnhancedCode} {close : Bool} {s : Session φ ω} :
  wp (dismiss env enhanced close) (fun on _ => on = false) (fun _ _ => True) s
  := by
  rw [dismiss, wp_bind]
  apply wp_of_forall _ fun _ _ => trivial
  intro _ s'
  split
  · rw [wp_bind, wp_record, wp_bind]
    exact wp_notify (fun _ => rfl) fun _ => trivial
  · rfl

theorem wp_begin (frontend : Frontend φ ω) (manager : SpoolManager)
    (feed : Feed UInt8 φ) (world : ω) :
  wp (begin env frontend)
    (fun on s => on = true → ∃ tls feed' world', s = Session.new cfg manager tls feed' world')
    (fun _ _ => True) (Session.new cfg manager false feed world)
  := by
  have hstart (tls : Bool) (feed : Feed UInt8 φ) (world : ω) :
      wp (begin.start env frontend)
        (fun on s => on = true → ∃ tls feed' world', s = Session.new cfg manager tls feed' world')
        (fun _ _ => True) (Session.new cfg manager tls feed world) := by
    rw [begin.start, wp_bind]
    refine wp_callback (fun r w => ?_) fun _ _ => trivial
    split
    · rw [wp_bind]
      exact wp_of_forall (fun _ _ => by simp) fun _ _ => trivial
    · apply wp_mono wp_dismiss _ fun _ _ => id
      simp
    · apply wp_mono wp_dismiss _ fun _ _ => id
      simp
    · exact fun _ => ⟨tls, feed, w, rfl⟩
  rw [begin]
  split
  · exact hstart false feed world
  · rw [wp_bind, wp_outside]
    split
    · simp
    · rw [wp_bind, wp_update]
      exact hstart true _ _

theorem conduct_attend {cfg : Config} {tls : Bool} {s : Session φ ω}
    (hauth : ∀ mechanism initial w, (env.auth mechanism initial w).Honest none) (n : Nat)
    (h : s.facts.Steady cfg tls) :
  wp (attend cfg env n) (fun _ s' => s'.facts.Steady cfg tls)
    (fun _ s' => s'.facts.Safe cfg tls) s
  := by
  rw [attend, wp_bind]
  apply wp_mono (talk_steady.writeReply env _ s h) _ fun _ _ => id
  intro _ s' hs'
  rw [wp_bind]
  apply wp_mono (talk_steady.transport env.flush s' hs') _ fun _ _ => id
  exact fun _ s'' hs'' => conduct_runLoop hauth n hs''

theorem Closed.count {cfg : Config} {tls : Bool} {s : Session φ ω} (h : Closed cfg tls s) :
  s.log.count .close = 1
  := by
  obtain ⟨before, hlog, haccepts⟩ := h
  rw [hlog] at haccepts ⊢
  have hclosed : (journal tls before).closed = false := haccepts.last.2.2
  have hnone : .close ∉ before := fun hmem =>
    Bool.false_ne_true (hclosed.symm.trans (closed_journal.mpr hmem))
  rw [List.count_append, List.count_eq_zero.mpr hnone]
  rfl

end Session

namespace Connection

/-! ### Containment -/

theorem release_eq (conn : κ) (m : Handler κ σ φ ω Unit) (c : Connection κ σ φ ω) :
  release conn m c
    = ((m c).1, { (m c).2 with
        registry := (m c).2.registry.unregister conn, rawClosed := true, canceled := true })
  := by
  simp only [release, Exec.defer, Exec.update]
  rcases m c with ⟨_ | _ | _, c'⟩ <;> rfl

/-- The handler of a connection has ended without a panic, has closed the session `s` once, and
has given back its slot in the registry `r` and the budget of its spool. -/
structure Contained (r : ConnectionRegistry κ σ) (s : Session φ ω)
    (result : Outcome (SessionError φ) Unit × Connection κ σ φ ω) : Prop where
  unescaped : result.1 ≠ .panic
  closed : result.2.session.log.count .close = 1
  slot : result.2.registry = r
  released : s.Released result.2.session

/-- The handler of a connection contains the panics of the callbacks, exactly if none of those
that close the session panics. -/
theorem contained_iff (cfg : Config) (env : Env φ ω) (b : AuthBackend ω) (frontend : Frontend φ ω)
    {conn : κ} {source : σ} {r r' : ConnectionRegistry κ σ}
    (hregister : r.register conn source = some r') (manager : SpoolManager) (feed : Feed UInt8 φ)
    (world : ω) {s s' : Session φ ω} {n : Nat} {o : Outcome (SessionError φ) Bool}
    (hbegin : Session.begin (env.withAuth b) frontend (Session.new cfg manager false feed world)
      = (.ok true, s))
    (hloop : Session.attend cfg (env.withAuth b) n s = (o, s')) (hover : o ≠ .ok true) :
  ∃ result, serveConnection cfg (env.withAuth b) frontend conn n
      ⟨r', Session.new cfg manager false feed world, false, false⟩ = some result ∧
    (Contained r s' result ↔ s'.settles (env.withAuth b) = true)
  := by
  obtain ⟨tls, feed', world', rfl⟩ :
      ∃ tls feed' world', s = Session.new cfg manager tls feed' world' := by
    have hwp := Session.wp_begin cfg (env.withAuth b) frontend manager feed world
    simp only [wp, hbegin] at hwp
    exact hwp trivial
  have hsafe : s'.facts.Safe cfg tls := by
    have hnew : (Session.new cfg manager tls feed' world').facts.Steady cfg tls :=
      Session.steady_new manager feed' world'
    have hattend := Session.conduct_attend (env.withAuth b) b.honest_dialog n hnew
    have hstate := wp_state (wp_mono hattend (fun _ _ h => h.toSafe) fun _ _ => id)
    rwa [hloop] at hstate
  have hunclosed : s'.closed = false := hsafe.unclosed.2
  have hreleased := Session.wp_close_released (env.withAuth b) hunclosed
  have hclosed := Session.conduct_close (env.withAuth b) hsafe
  use release conn (onSession (Session.close (env.withAuth b))) ⟨r', s', false, false⟩
  constructor
  · simp only [serveConnection, onSession, hbegin, hloop]
  · rw [release_eq]
    simp only [wp] at hreleased hclosed
    rcases hclose : Session.close (env.withAuth b) s' with ⟨_ | e | _, s''⟩ <;>
      simp only [hclose] at hreleased hclosed
    · refine ⟨fun _ => hreleased.1, fun _ => ⟨?_, ?_, ?_, ?_⟩⟩
      · simp [onSession, hclose]
      · simpa [onSession, hclose] using hclosed.count
      · exact ConnectionRegistry.unregister_register hregister
      · simpa [onSession, hclose] using hreleased.2
    · exact absurd hreleased.1 (by simp)
    · refine ⟨fun h => ?_, fun h => ?_⟩
      · exact absurd (by simp [onSession, hclose]) h.unescaped
      · exact absurd (hreleased.2.1.symm.trans h) Bool.false_ne_true

/-- A backend whose `Session.Mail` and `Session.Reset` panic when they are told to. -/
def fragile (mail : Bool) (reset : ResetReason → Bool) : Env Empty Unit :=
  { Env.plain with
    mail := fun _ _ w => (if mail then .panic else .ok (), w)
    reset := fun reason w => (reset reason, w) }

/-- A server without implicit TLS, whose backend always has a session. -/
def Frontend.plain : Frontend Empty Unit where
  implicitTLS := none
  newSession w := (.ok .valid, w)

/-- The connection of a client that sends the given lines. -/
def served (env : Env Empty Unit) (lines : List String) :
    Option (Outcome (SessionError Empty) Unit × Connection Nat Nat Empty Unit) :=
  ((ConnectionRegistry.new 1 1).register 0 0).bind fun r =>
    serveConnection (.small 7 seven_lt) (env.withAuth .plain) Frontend.plain 0 4
      ⟨r, Session.new (.small 7 seven_lt) Session.SpoolManager.small false
        (Session.script lines) (), false, false⟩

/-- A panic of `Session.Mail` is contained. -/
theorem contained_iff_mail :
  ∃ result s', served (fragile true fun _ => false) ["EHLO a", "MAIL FROM:<>"] = some result ∧
    Contained (.new 1 1) s' result
  := by
  let cfg : Config := .small 7 (by decide)
  let env : Env Empty Unit := (fragile true fun _ => false)
  let feed := Session.script ["EHLO a", "MAIL FROM:<>"]
  let s := Session.new cfg Session.SpoolManager.small false feed ()
  obtain ⟨r, hr⟩ : ∃ r, (ConnectionRegistry.new 1 1).register 0 0 = some r := ⟨_, rfl⟩
  have hbegin : Session.begin (env.withAuth .plain) Frontend.plain s = (.ok true, s) := rfl
  have hloop : Session.attend cfg (env.withAuth .plain) 4 s
      = ((Session.attend cfg (env.withAuth .plain) 4 s).1,
        (Session.attend cfg (env.withAuth .plain) 4 s).2) := Prod.mk.eta.symm
  have hover : (Session.attend cfg (env.withAuth .plain) 4 s).1 ≠ .ok true := by decide +kernel
  obtain ⟨result, hserved, hiff⟩ := contained_iff cfg env .plain Frontend.plain hr
    Session.SpoolManager.small feed () hbegin hloop hover
  refine ⟨result, _, ?_, hiff.mpr ?_⟩
  · rw [served, hr, Option.bind_some]
    exact hserved
  · decide +kernel

/-- A panic of the last reset is not: it escapes, and `Session.Close` is never called. -/
theorem not_contained_reset :
  (served (fragile false (· = .sessionEnd)) ["EHLO a", "MAIL FROM:<>"]).map
    (fun result => (decide (result.1 = .panic), result.2.session.log.count .close)) = some (true, 0)
  := by
  decide +kernel

end Connection

end GoSmtp.Server
