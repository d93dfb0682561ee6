import GoSmtp.Client.Abreast
import GoSmtp.Sasl.Initiator

/-!
# The trace tells nothing of credentials

Two sessions with the same calls, except for the credentials of AUTH.  If the server's
replies differ in the contents of challenges only, and every AUTH call ends at the same step,
the trace is told the same, also of exchanges that are cancelled or fail.
-/

namespace GoSmtp.Client

open Exec

variable {φ ω α β μ : Type}
variable {s s' : Conn φ ω} {m m' : μ} {env : Env φ ω} {initial : Option Bytes}

open Sasl

/-! ### The steps of an exchange -/

/-- The response to a challenge, unless the challenge or the mechanism makes it fail. -/
def authStep (crypto : Crypto) (mech : Mechanism μ) (r : Reply) (m : μ) :
    Option (Bytes × Bool × μ) :=
  match decodeChallenge crypto r.text with
  | .error _ => none
  | .ok challenge =>
    match mech.next challenge m with
    | (.error _, _) => none
    | (.ok (response, done), m) => some (response, done, m)

/-- A response and the reply to it. -/
def authRound (opts : Options) (env : Env φ ω) (crypto : Crypto) (response : Bytes) :
    Call φ ω Reply := do
  authResponse env (encodeSASL crypto response)
  read opts env (ascii "AUTH")

/-- Which steps of `exchange` succeed: the response to a challenge, and the check that a final
response is not followed by another challenge. -/
def exchangeSteps (opts : Options) (env : Env φ ω) (crypto : Crypto) (mech : Mechanism μ) :
    Nat → Reply → μ → Conn φ ω → List Bool
  | 0, _, _, _ => []
  | n + 1, r, m, s =>
    if r.code ≠ 334 then []
    else
      match authStep crypto mech r m with
      | none => [false]
      | some (response, done, m) =>
        match authRound opts env crypto response s with
        | (.ok r, s) =>
          if done && r.code = 334 then [true, false]
          else true :: true :: exchangeSteps opts env crypto mech n r m s
        | _ => [true]

section Exchange

variable {opts : Options} {env : Env φ ω} {crypto : Crypto} {mech : Mechanism μ} {r : Reply}
  {m : μ}

variable (opts env) in
theorem exchange_cancels (name : Bytes) (n : Nat) (hr : r.code = 334)
    (hstep : authStep crypto mech r m = none) :
  ∃ e, exchange opts env crypto name mech (n + 1) r m = cancelAuth opts env e
  := by
  cases hdecoded : decodeChallenge crypto r.text with
  | error e =>
    use .transport (ascii "AUTH") (.message e)
    simp only [exchange, hr, hdecoded, ne_eq, not_true_eq_false, if_false]
  | ok challenge =>
    rcases hnext : mech.next challenge m with ⟨e | ⟨response, done⟩, m'⟩
    · use .message (ascii "smtpclient: AUTH " ++ name ++ ascii ": " ++ e)
      simp only [exchange, hr, hdecoded, hnext, ne_eq, not_true_eq_false, if_false]
    · simp [authStep, hdecoded, hnext] at hstep

theorem exchange_responds (name : Bytes) (n : Nat) (hr : r.code = 334) {response : Bytes}
    {done : Bool} (hstep : authStep crypto mech r m = some (response, done, m')) :
  exchange opts env crypto name mech (n + 1) r m = (do
    let r ← authRound opts env crypto response
    if done && r.code = 334 then
      poisoned (.transport (ascii "AUTH") (.message
        (ascii "server requested an unexpected additional SASL response")))
    else exchange opts env crypto name mech n r m')
  := by
  simp only [exchange, hr, ne_eq, not_true_eq_false, if_false, authRound, Exec.bind_bind]
  rw [authStep] at hstep
  split at hstep
  · cases hstep
  · next h =>
    split at hstep
    · cases hstep
    · next h' =>
      cases hstep
      simp only [h, h']

theorem exchangeSteps_cancels (n : Nat) (hr : r.code = 334)
    (hstep : authStep crypto mech r m = none) (s : Conn φ ω) :
  exchangeSteps opts env crypto mech (n + 1) r m s = [false]
  := by
  simp only [exchangeSteps, hr, ne_eq, not_true_eq_false, if_false, hstep]

theorem exchangeSteps_responds (n : Nat) (hr : r.code = 334) {response : Bytes} {done : Bool}
    (hstep : authStep crypto mech r m = some (response, done, m')) (s : Conn φ ω) :
  exchangeSteps opts env crypto mech (n + 1) r m s
    = match authRound opts env crypto response s with
      | (.ok r, s) =>
        if done && r.code = 334 then [true, false]
        else true :: true :: exchangeSteps opts env crypto mech n r m' s
      | _ => [true]
  := by
  simp only [exchangeSteps, hr, ne_eq, not_true_eq_false, if_false, hstep]

theorem exchangeSteps_head (n : Nat) (hr : r.code = 334) {x : Bytes × Bool × μ}
    (hstep : authStep crypto mech r m = some x) (s : Conn φ ω) :
  (exchangeSteps opts env crypto mech (n + 1) r m s).head? = some true
  := by
  rw [exchangeSteps_responds n hr hstep]
  split
  · split <;> rfl
  · rfl

end Exchange

/-! ### The path of an AUTH call -/

/-- Which steps of AUTH succeed with the mechanism that was selected: its start, the fit of the
command into the pipeline, and those of the exchange. -/
def selectedSteps (opts : Options) (env : Env φ ω) (crypto : Crypto) (mech : Mechanism μ)
    (name : Bytes) (s : Conn φ ω) : List Bool :=
  match mech.start with
  | (.error _, _) => [false]
  | (.ok initial, m) =>
    if (authCommand crypto name initial).upper.length > maxPipelineBytes then [true, false]
    else
      match executeOne opts env (authCommand crypto name initial) s with
      | (.ok r, t) =>
        true :: true :: exchangeSteps opts env crypto mech (s.replies.length + 1) r m t
      | _ => [true, true]

theorem selectedSteps_head {opts : Options} {crypto : Crypto} {mech : Mechanism μ}
    (hstart : mech.start = (.ok initial, m)) (name : Bytes) (s : Conn φ ω) :
  (selectedSteps opts env crypto mech name s).head? = some true
  := by
  rw [selectedSteps, hstart]
  dsimp only
  split
  · rfl
  · split <;> rfl

theorem selectedSteps_long (opts : Options) (env : Env φ ω) (crypto : Crypto) {mech : Mechanism μ}
    (hstart : mech.start = (.ok initial, m)) (name : Bytes) (s : Conn φ ω) :
  selectedSteps opts env crypto mech name s = [true, false]
    ↔ (authCommand crypto name initial).upper.length > maxPipelineBytes
  := by
  rw [selectedSteps, hstart]
  dsimp only
  split
  · next h => simp [h]
  · next h =>
    simp only [h, iff_false]
    split <;> simp

theorem not_long_of_executeOne {opts : Options} {c : QueuedCommand} {r : Reply}
    {t : Conn φ ω} (h : executeOne opts env c s = (.ok r, t)) :
  ¬ c.upper.length > maxPipelineBytes
  := by
  intro hlong
  rw [executeOne_eq, Exec.read_bind, if_pos hlong] at h
  split at h <;> cases h

/-- The mechanism that AUTH selects, and which of its further steps succeed. -/
def authPath (opts : Options) (env : Env φ ω) (crypto : Crypto)
    (select : Bytes → Except (ClientError φ) Bytes) (mech : Mechanism μ) (s : Conn φ ω) :
    Option Bytes × List Bool :=
  if (env.canceled .before s.log s.world).1 then (none, [])
  else if s.state ∉ [.greeted, .tls] then (none, [])
  else
    match authAdvertisement s.ext with
    | none => (none, [])
    | some params =>
      match select params with
      | .error _ => (none, [])
      | .ok name =>
        (some name, selectedSteps opts env crypto mech name (canceled env .before s).2)

/-! ### Exchanges side by side -/

section Abreast

variable {v : View ω} {opts : Options} {env : Env φ ω} {crypto : Crypto}
  {mech mech' : Mechanism μ} (henv : v.Uniform env) (hhide : v.hide = true)
  (hvalid : ∀ w, validCommandToken (crypto.encode64 w) = true)
include henv hhide hvalid

omit henv hhide in
theorem valid_encodeSASL (w : Bytes) :
  validCommandToken (encodeSASL crypto w) = true
  := by
  rw [encodeSASL]
  split
  · decide
  · apply hvalid

variable (opts) in
theorem twins_authRound (response response' : Bytes) :
  v.Twins (Reply.Alike v.hide) (authRound opts env crypto response)
    (authRound opts env crypto response')
  := by
  have hline : v.Twins (fun _ _ => True) (authResponse env (encodeSASL crypto response))
      (authResponse env (encodeSASL crypto response')) :=
    View.twins_authResponse henv (by rw [valid_encodeSASL hvalid, valid_encodeSASL hvalid])
      (fun h => by rw [hhide] at h; cases h)
  apply hline.bind
  intro _ _ _
  apply View.twins_read henv

theorem exchange_abreast (name : Bytes) {n : Nat} {r r' : Reply} (hr : r.Alike v.hide r')
    (hs : v.Twin s s') (hsteps : exchangeSteps opts env crypto mech n r m s
      = exchangeSteps opts env crypto mech' n r' m' s') :
  (exchange opts env crypto name mech n r m s).1.Rel (Reply.Alike v.hide) (Veiled v.hide)
      (exchange opts env crypto name mech' n r' m' s').1
    ∧ v.Twin (exchange opts env crypto name mech n r m s).2
        (exchange opts env crypto name mech' n r' m' s').2
  := by
  have hveiled {a b : ClientError φ} : Veiled v.hide a b := by
    intro h
    rw [hhide] at h
    cases h
  induction n generalizing r r' m m' s s' with
  | zero => exact ⟨.panic, hs⟩
  | succ n ih =>
    by_cases h334 : r.code = 334
    swap
    · simp only [exchange, ← hr.code_eq, h334, ne_eq, not_false_eq_true, if_true]
      exact ⟨.ok hr, hs⟩
    have h334' : r'.code = 334 := hr.code_eq ▸ h334
    have hhead := congrArg List.head? hsteps
    cases hstep : authStep crypto mech r m <;> cases hstep' : authStep crypto mech' r' m'
    · obtain ⟨e, he⟩ := exchange_cancels opts env name n h334 hstep
      obtain ⟨e', he'⟩ := exchange_cancels opts env name n h334' hstep'
      rw [he, he']
      apply View.twins_cancelAuth henv opts hveiled s s' hs
    · rw [exchangeSteps_cancels n h334 hstep, exchangeSteps_head n h334' hstep'] at hhead
      cases hhead
    · rw [exchangeSteps_cancels n h334' hstep', exchangeSteps_head n h334 hstep] at hhead
      cases hhead
    · next x x' =>
      obtain ⟨response, done, m₁⟩ := x
      obtain ⟨response', done', m₁'⟩ := x'
      rw [exchange_responds name n h334 hstep, exchange_responds name n h334' hstep']
      rw [exchangeSteps_responds n h334 hstep, exchangeSteps_responds n h334' hstep'] at hsteps
      rcases (twins_authRound opts henv hhide hvalid response response').ends hs with
        ⟨r₁, r₁', s₁, s₁', hround, hround', hr₁, hs₁⟩
          | ⟨e, e', s₁, s₁', hround, hround', he, hs₁⟩ | ⟨s₁, s₁', hround, hround', hs₁⟩ <;>
        simp only [hround, hround'] at hsteps <;> simp only [Bind.bind, hround, hround']
      · have hcode := hr₁.code_eq
        by_cases hextra : (done && decide (r₁.code = 334)) = true <;>
          by_cases hextra' : (done' && decide (r₁'.code = 334)) = true <;>
          simp only [hextra, hextra', if_true, if_false, Bool.false_eq_true] at hsteps ⊢
        · apply View.twins_poisoned hveiled s₁ s₁' hs₁
        · simp at hsteps
        · simp at hsteps
        · apply ih hr₁ hs₁
          simpa using hsteps
      · exact ⟨.err he, hs₁⟩
      · exact ⟨.panic, hs₁⟩

omit henv in
theorem authCommand_alike (name : Bytes) {initial' : Option Bytes}
    (h : initial.isSome = initial'.isSome) :
  (authCommand crypto name initial).upper.Alike v.hide (authCommand crypto name initial').upper
  := by
  have hauth : toUpper (ascii "AUTH") = ascii "AUTH" := by decide
  cases initial <;> cases initial' <;> try cases h
  · apply QueuedCommand.Alike.refl
  · next w w' =>
    constructor
    · constructor
      · rfl
      · simp [QueuedCommand.valid, QueuedCommand.upper, authCommand, valid_encodeSASL hvalid]
      · right
        rw [QueuedCommand.kind, if_pos]
        exact hauth
      · intro hshown
        rw [hhide] at hshown
        cases hshown
    · rfl
    · simp only [traceCommandLine, QueuedCommand.upper, authCommand, hauth, if_true,
        Option.map_some, Option.toList_some, List.take_succ_cons, List.take_zero, List.drop_succ_cons,
        List.drop_zero, List.map_cons, List.map_nil]

theorem authenticate_started (name : Bytes) {initial' : Option Bytes}
    (hkind : initial.isSome = initial'.isSome) (hlength :
      (authCommand crypto name initial).upper.length > maxPipelineBytes
        ↔ (authCommand crypto name initial').upper.length > maxPipelineBytes) (n : Nat)
    (hs : v.Twin s s')
    (hsteps : ∀ r r' t t', executeOne opts env (authCommand crypto name initial) s = (.ok r, t) →
      executeOne opts env (authCommand crypto name initial') s' = (.ok r', t') →
      exchangeSteps opts env crypto mech n r m t = exchangeSteps opts env crypto mech' n r' m' t') :
  Exec.Twins (fun a b => a = s ∧ b = s') (fun _ _ => True) (Veiled v.hide) v.Twin
    (do
      let r ← executeOne opts env (authCommand crypto name initial)
      let r ← exchange opts env crypto name mech n r m
      expectReply opts (ascii "AUTH") r [235]
      unlessClosed fun s => { s with state := .authenticated })
    (do
      let r ← executeOne opts env (authCommand crypto name initial')
      let r ← exchange opts env crypto name mech' n r m'
      expectReply opts (ascii "AUTH") r [235]
      unlessClosed fun s => { s with state := .authenticated })
  := by
  rintro _ _ ⟨rfl, rfl⟩
  have hcommand := View.twins_executeOne henv opts
    (authCommand_alike hhide hvalid name hkind) hlength
  rcases hcommand.ends hs with ⟨r, r', t, t', hr, hr', halike, ht⟩
      | ⟨e, e', t, t', hr, hr', he, ht⟩ | ⟨t, t', hr, hr', ht⟩ <;> simp only [Bind.bind, hr, hr']
  · have hexchange := exchange_abreast henv hhide hvalid name halike ht
      (hsteps r r' t t' hr hr')
    have hfinal : Exec.Twins (fun a b => a = t ∧ b = t') (Reply.Alike v.hide) (Veiled v.hide) v.Twin
        (exchange opts env crypto name mech n r m) (exchange opts env crypto name mech' n r' m') := by
      rintro _ _ ⟨rfl, rfl⟩
      apply hexchange
    apply hfinal.chain (fun _ _ h => h) _ t t' ⟨rfl, rfl⟩
    intro r r' hr
    apply (View.twins_expectReply opts _ hr _).bind
    intro _ _ _
    apply View.twins_unlessClosed
    intro s s' hs
    apply hs.assign rfl hs.transactionBase_eq hs.ext_eq hs.recipients_eq hs.smtpUTF8_eq
      hs.binaryMIME_eq
  · exact ⟨.err he, ht⟩
  · exact ⟨.panic, ht⟩

theorem authenticate_abreast (select select' : Bytes → Except (ClientError φ) Bytes)
    (hkind : ∀ i m i' m', mech.start = (.ok i, m) → mech'.start = (.ok i', m') →
      i.isSome = i'.isSome) (hs : v.Twin s s')
    (hpath : authPath opts env crypto select mech s = authPath opts env crypto select' mech' s') :
  Exec.Twins (fun a b => a = s ∧ b = s') (fun _ _ => True) (Veiled v.hide) v.Twin
    (authenticate opts env crypto select mech) (authenticate opts env crypto select' mech')
  := by
  have hveiled {a b : ClientError φ} : Veiled v.hide a b := by
    intro h
    rw [hhide] at h
    cases h
  obtain ⟨hanswer, hworlds⟩ := henv.canceled .before hs.logs hs.worlds
  have hs₁ : v.Twin (canceled env .before s).2 (canceled env .before s').2 :=
    ⟨hs.replies, hworlds, hs.state, hs.settings, hs.logs⟩
  have hfail (e e' : ClientError φ) : Exec.Twins (fun a b => a = (canceled env .before s).2
      ∧ b = (canceled env .before s').2) (fun _ _ => True) (Veiled v.hide) v.Twin
      (Exec.fail e : Call φ ω Unit) (Exec.fail e' : Call φ ω Unit) := by
    rintro _ _ ⟨rfl, rfl⟩
    exact ⟨.err hveiled, hs₁⟩
  apply Twins.after
    (V := fun a b => a = (env.canceled .before s.log s.world).1 ∧ b = a)
    (S := fun a b => a = (canceled env .before s).2 ∧ b = (canceled env .before s').2)
  · rintro _ _ ⟨rfl, rfl⟩
    exact ⟨_, _, _, _, rfl, rfl, ⟨rfl, hanswer.symm⟩, rfl, rfl⟩
  rintro answer _ ⟨rfl, rfl⟩
  apply Twins.cond Iff.rfl
  · intro _
    apply hfail
  intro hgo
  have hgo' : (env.canceled .before s'.log s'.world).1 = false := by
    rw [← hanswer]
    simpa using hgo
  simp only [authPath, hgo, hgo', ← hs.state, ← hs.ext_eq, Bool.false_eq_true, if_false] at hpath
  by_cases hstate : s.state ∈ [.greeted, .tls]
  swap
  · rintro _ _ ⟨rfl, rfl⟩
    have hrefused {t : Conn φ ω} (ht : t.state = s.state) :
        ∃ e, (requireState (ascii "AUTH") [.greeted, .tls] : Call φ ω Unit) t = (.err e, t) := by
      simp only [requireState, Bind.bind, Exec.read, ht, if_neg hstate]
      exact ⟨_, rfl⟩
    obtain ⟨e, he⟩ := hrefused (t := (canceled env .before s).2) rfl
    obtain ⟨e', he'⟩ := hrefused (t := (canceled env .before s').2) hs.state.symm
    simp only [Bind.bind, he, he']
    exact ⟨.err hveiled, hs₁⟩
  simp only [hstate, not_true_eq_false, if_false] at hpath
  apply Twins.after (V := fun _ _ => True)
    (S := fun a b => a = (canceled env .before s).2 ∧ b = (canceled env .before s').2)
  · rintro _ _ ⟨rfl, rfl⟩
    have hallowed {t : Conn φ ω} (ht : t.state = s.state) :
        (requireState (ascii "AUTH") [.greeted, .tls] : Call φ ω Unit) t = (.ok (), t) := by
      simp only [requireState, Bind.bind, Exec.read, ht, if_pos hstate]
      rfl
    exact ⟨_, _, _, _, hallowed rfl, hallowed hs.state.symm, trivial, rfl, rfl⟩
  intro _ _ _
  apply Twins.read
  rintro _ _ ⟨rfl, rfl⟩
  have hext : (canceled env .before s').2.ext = s.ext := hs.ext_eq.symm
  have hlength : (canceled env .before s').2.replies.length = s.replies.length :=
    hs.replies.length_eq.symm
  rw [hext, hlength]
  change Exec.Twins _ _ _ _ (match authAdvertisement s.ext with | none => _ | some params => _) _
  cases hadvertised : authAdvertisement s.ext with
  | none => apply hfail
  | some params =>
    simp only [hadvertised] at hpath
    cases hselect : select params <;> cases hselect' : select' params <;>
      simp only [hselect, hselect', Prod.mk.injEq, Option.some.injEq, reduceCtorEq,
        false_and] at hpath ⊢
    · apply hfail
    · next name _ =>
      obtain ⟨rfl, hsteps⟩ := hpath
      have hhead := congrArg List.head? hsteps
      rcases hstart : mech.start with ⟨e | initial, m⟩ <;>
        rcases hstart' : mech'.start with ⟨e' | initial', m'⟩ <;> dsimp only
      · apply hfail
      · rw [selectedSteps_head hstart', selectedSteps, hstart] at hhead
        cases hhead
      · rw [selectedSteps_head hstart, selectedSteps, hstart'] at hhead
        cases hhead
      have hsame := hkind initial m initial' m' hstart hstart'
      have hlong := selectedSteps_long opts env crypto hstart name (canceled env .before s).2
      have hlong' := selectedSteps_long opts env crypto hstart' name (canceled env .before s').2
      rw [← hsteps, hlong] at hlong'
      apply authenticate_started henv hhide hvalid name hsame hlong' _ hs₁
      intro r r' t t' hr hr'
      have hfits := not_long_of_executeOne hr
      have hfits' := not_long_of_executeOne hr'
      simp only [selectedSteps, hstart, hstart', hfits, hfits', if_false, hr, hr', hlength,
        List.cons.injEq, true_and] at hsteps
      exact hsteps

theorem auth_abreast (select select' : Bytes → Except (ClientError φ) Bytes)
    (hkind : ∀ i m i' m', mech.start = (.ok i, m) → mech'.start = (.ok i', m') →
      i.isSome = i'.isSome) (hs : v.Twin s s')
    (hpath : authPath opts env crypto select mech s = authPath opts env crypto select' mech' s') :
  Exec.Twins (fun a b => a = s ∧ b = s') (fun _ _ => True) (Veiled v.hide) v.Twin
    (auth opts env crypto select mech) (auth opts env crypto select' mech')
  := by
  apply (authenticate_abreast henv hhide hvalid select select' hkind hs hpath).chain
    (fun _ _ h => h)
  intro _ _ _
  apply View.twins_ehloLocked henv

end Abreast

/-! ### What the trace is told -/

/-- The environment, with a list of what the trace is told. -/
def Env.traced (env : Env φ ω) : Env φ (ω × List TraceEvent) where
  canceled c log w := ((env.canceled c log w.1).1, (env.canceled c log w.1).2, w.2)
  write octets w := ((env.write octets w.1).1, (env.write octets w.1).2, w.2)
  watcher w := ((env.watcher w.1).1, (env.watcher w.1).2, w.2)
  handshake w := ((env.handshake w.1).1, (env.handshake w.1).2, w.2)
  extraReply w := ((env.extraReply w.1).1, (env.extraReply w.1).2, w.2)
  trace e w := (env.trace e w.1, w.2 ++ [e])

/-- The view of two sessions that differ in the contents of AUTH exchanges. -/
def View.secret (worlds : ω → ω → Prop) : View ω where
  hide := true
  worlds := worlds
  logs := List.Forall₂ (WireEvent.Alike true)

/-- The trace has been told the same in both sessions. -/
def View.traced (v : View ω) : View (ω × List TraceEvent) where
  hide := v.hide
  worlds w w' := v.worlds w.1 w'.1 ∧ w.2 = w'.2
  logs := v.logs

theorem View.Uniform.traced {v : View ω} (h : v.Uniform env) :
  v.traced.Uniform env.traced
  where
  canceled c _ _ _ _ hl hw :=
    ⟨(h.canceled c hl hw.1).1, (h.canceled c hl hw.1).2, hw.2⟩
  write ho hw := ⟨(h.write ho hw.1).1, (h.write ho hw.1).2, hw.2⟩
  watcher hw := ⟨(h.watcher hw.1).1, (h.watcher hw.1).2, hw.2⟩
  handshake hw := ⟨(h.handshake hw.1).1, (h.handshake hw.1).2, hw.2⟩
  extraReply hw := ⟨(h.extraReply hw.1).1, (h.extraReply hw.1).2, hw.2⟩
  trace e _ _ hw := ⟨h.trace e hw.1, congrArg (· ++ [e]) hw.2⟩
  log he hl := h.log he hl

/-- The same calls, except for the credentials of AUTH. -/
inductive CallAlike (sasl : ServerCrypto) (hmacMD5 : Bytes → Bytes → Bytes) :
    ClientCall φ ω Scram → ClientCall φ ω Scram → Prop where
  | same {c : ClientCall φ ω Scram} (hovert : View.OvertCall c)
      (hauth : ∀ select mech, c ≠ .auth select mech) : CallAlike sasl hmacMD5 c c
  | auth (mechanism : ServerMechanism) (select select' : Bytes → Except (ClientError φ) Bytes)
      (cfg cfg' : Config) :
      CallAlike sasl hmacMD5 (.auth select (initiator sasl hmacMD5 cfg mechanism))
        (.auth select' (initiator sasl hmacMD5 cfg' mechanism))

/-- The path of a call, if it is AUTH. -/
def callPath (opts : Options) (env : Env φ ω) (crypto : Crypto) (s : Conn φ ω) :
    ClientCall φ ω μ → Option (Option Bytes × List Bool)
  | .auth select mech => some (authPath opts env crypto select mech s)
  | _ => none

/-- In both sessions, AUTH selects the same mechanism and ends at the same step, every time. -/
def SameEnds (opts : Options) (env : Env φ ω) (crypto : Crypto) :
    List (ClientCall φ ω μ) → List (ClientCall φ ω μ) → Conn φ ω → Conn φ ω → Prop
  | c :: calls, c' :: calls', s, s' =>
    callPath opts env crypto s c = callPath opts env crypto s' c'
      ∧ SameEnds opts env crypto calls calls' (perform opts env crypto c s).2
          (perform opts env crypto c' s').2
  | _, _, _, _ => True

section Sessions

variable {v : View ω} {opts : Options} {env : Env φ ω} {crypto : Crypto} {sasl : ServerCrypto}
  {hmacMD5 : Bytes → Bytes → Bytes} (henv : v.Uniform env) (hhide : v.hide = true)
  (hvalid : ∀ w, validCommandToken (crypto.encode64 w) = true)
include henv hhide hvalid

theorem perform_abreast {c c' : ClientCall φ ω Scram} (hc : CallAlike sasl hmacMD5 c c')
    (hs : v.Twin s s') (hpath : callPath opts env crypto s c = callPath opts env crypto s' c') :
  v.Twin (perform opts env crypto c s).2 (perform opts env crypto c' s').2
  := by
  cases hc with
  | same hovert hauth =>
    have htwins := View.twins_perform henv opts crypto hovert
      fun select mech h => absurd h (hauth select mech)
    apply (htwins s s' hs).2
  | auth mechanism select select' cfg cfg' =>
    have hkind : ∀ i m i' m',
        (initiator sasl hmacMD5 cfg mechanism).start = (.ok i, m) →
        (initiator sasl hmacMD5 cfg' mechanism).start = (.ok i', m') →
        i.isSome = i'.isSome := by
      intro i m i' m' h h'
      obtain ⟨j, _, hj, hsome⟩ := initiator_start sasl hmacMD5 cfg mechanism
      obtain ⟨j', _, hj', hsome'⟩ := initiator_start sasl hmacMD5 cfg' mechanism
      rw [hj] at h
      rw [hj'] at h'
      cases h
      cases h'
      rw [hsome, hsome']
    have htwins := auth_abreast henv hhide hvalid select select' hkind hs
      (Option.some.inj hpath)
    apply (View.twins_simple htwins s s' ⟨rfl, rfl⟩).2

theorem run_abreast {calls calls' : List (ClientCall φ ω Scram)}
    (hcalls : List.Forall₂ (CallAlike sasl hmacMD5) calls calls')
    (hs : v.Twin s s') (hends : SameEnds opts env crypto calls calls' s s') :
  v.Twin (run opts env crypto calls s) (run opts env crypto calls' s')
  := by
  induction hcalls generalizing s s' with
  | nil => exact hs
  | cons hc _ ih =>
    apply ih _ hends.2
    apply perform_abreast henv hhide hvalid hc hs hends.1

end Sessions

/-- Two sessions with the same calls, except for the credentials of AUTH, on connections that
differ in the contents of challenges only.  The outside answers both alike, and every AUTH call
selects the same mechanism and ends at the same step.  Then the trace is told the same. -/
theorem trace_independent_of_credentials (opts : Options) (env : Env φ ω) (crypto : Crypto)
    (sasl : ServerCrypto) (hmacMD5 : Bytes → Bytes → Bytes) (worlds : ω → ω → Prop)
    (henv : (View.secret worlds).Uniform env)
    (hvalid : ∀ w, validCommandToken (crypto.encode64 w) = true)
    {calls calls' : List (ClientCall φ (ω × List TraceEvent) Scram)}
    (hcalls : List.Forall₂ (CallAlike sasl hmacMD5) calls calls')
    {s s' : Conn φ (ω × List TraceEvent)} (hs : (View.secret worlds).traced.Twin s s')
    (hends : SameEnds opts env.traced crypto calls calls' s s') :
  (run opts env.traced crypto calls s).world.2 = (run opts env.traced crypto calls' s').world.2
  := (run_abreast henv.traced rfl hvalid hcalls hs hends).worlds.2

theorem plain_uniform :
  (View.secret fun _ _ => True).Uniform (Env.plain : Env φ ω)
  where
  canceled _ _ _ _ _ _ _ := ⟨rfl, trivial⟩
  write _ _ := ⟨rfl, trivial⟩
  watcher _ := ⟨rfl, trivial⟩
  handshake _ := ⟨.ok .nil, trivial⟩
  extraReply _ := ⟨rfl, trivial⟩
  trace _ _ _ _ := trivial
  log he hl := List.rel_append hl (.cons he .nil)

/-- A connection on which the server asks for a user and a password in its own words. -/
def Conn.asked (user password : String) : Conn Empty (Unit × List TraceEvent) :=
  Conn.scripted .tls ["AUTH"] [] [(334, user), (334, password), (235, "ok"), (250, "b")] ((), [])

theorem trace_independent_of_credentials_login :
  let crypto := { Crypto.plain with encode64 := fun _ => ascii "x" }
  let select : Bytes → Except (ClientError Empty) Bytes := fun _ => .ok (ascii "LOGIN")
  let login cfg : ClientCall Empty (Unit × List TraceEvent) Scram :=
    .auth select (initiator .plain (fun _ _ => []) cfg .login)
  (run (.plain false) Env.plain.traced crypto [login { username := ascii "a" }]
      (Conn.asked "u" "p")).world.2
    = (run (.plain false) Env.plain.traced crypto
        [login { username := ascii "b", password := ascii "c" }] (Conn.asked "v" "q")).world.2
  := by
  intro crypto select login
  have hvalid : validCommandToken (ascii "x") = true := by decide
  apply trace_independent_of_credentials (.plain false) .plain crypto .plain (fun _ _ => [])
    (fun _ _ => True) plain_uniform (fun _ => hvalid)
    (.cons (.auth .login select select _ _) .nil)
  · constructor
    · have hask (a b : String) : EventAlike true
          (.item ⟨334, ascii a, [ascii a]⟩ : Event Reply Empty)
          (.item ⟨334, ascii b, [ascii b]⟩) := .item (.challenge rfl rfl rfl)
      exact .cons (hask "u" "v") (.cons (hask "p" "q") (FeedAlike.refl true _))
    · exact ⟨trivial, rfl⟩
    · rfl
    · rfl
    · exact .nil
  · exact ⟨by decide +kernel, trivial⟩

end GoSmtp.Client
