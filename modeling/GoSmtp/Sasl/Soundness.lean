import GoSmtp.Sasl.Responder

/-!
# The responder is sound

`Move` lists what a call can do to a responder that is in a state of its mechanism.  Whether
an exchange is accepted follows from the moves alone: the backend has accepted the request
that was raised last, and with SCRAM the client has proved that it knows the password.
-/

namespace GoSmtp.Sasl

variable {initial : Option Bytes} {o : Outcome ResponderError ResponderStep} {hash : ScramHash}
  {calls : List ResponderCall} {name : Bytes} {cfg : ResponderConfig}

variable {state : ResponderState} {r : Responder} {keys : ScramKeys} {c : ResponderCall}

variable {random : Option Bytes} {q : VerificationRequest} {v : Verification} {r' : Responder}

/-! ### Moves -/

/-- The states of a mechanism. -/
def ResponderState.fits (m : ServerMechanism) : ResponderState → Bool
  | .plain => m = .plain
  | .loginUser | .loginPassword => m = .login
  | .cram => m = .cramMD5
  | .external => m = .external
  | .oauth | .oauthDummy => m = .oauthBearer || m = .xoauth2
  | .scramFirst | .scramProof | .scramEmpty => m.newHash.isSome
  | .new | .verify | .done => true

theorem ResponderState.newHash_of_fits {m : ServerMechanism} (h : state.fits m)
    (hstate : state ∈ [.plain, .loginUser, .loginPassword, .cram, .external, .oauth, .oauthDummy]) :
  m.newHash = none
  := by
  cases m with
  | scram hash plus => cases state <;> simp [fits] at h hstate
  | _ => rfl

/-- A responder in a state of its mechanism. -/
structure Responder.Sane (r : Responder) : Prop where
  fits : r.state.fits r.mechanism
  request : ∀ q, r.request = some q → (q.kind = .scramKeys ↔ r.mechanism.newHash.isSome)
  keys : r.state = .scramProof → r.keys ≠ none

/-- The message of the client in a call. -/
def ResponderCall.payload : ResponderCall → Option Bytes
  | .start initial _ => initial
  | .next response => some response
  | .answer .. => none

/-- Whether a call comes from the client, and not from the backend. -/
def ResponderCall.isMessage : ResponderCall → Bool
  | .start .. | .next _ => true
  | .answer .. => false

/-- The states in which a first message is awaited. -/
def ResponderState.early (state : ResponderState) : Prop :=
  state ∈ [ResponderState.plain, .loginUser, .loginPassword, .cram, .external, .oauth, .scramFirst]

/-- Nothing was asked of the backend yet. -/
def Responder.Open (r : Responder) : Prop := r.state = .new ∨ r.state.early

/-- How many steps are left at most. -/
def ResponderState.rank : ResponderState → Nat
  | .new => 6
  | .loginUser => 5
  | .plain | .loginPassword | .cram | .external | .oauth | .scramFirst => 4
  | .verify => 3
  | .scramProof => 2
  | .scramEmpty | .oauthDummy => 1
  | .done => 0

theorem Responder.Open.rank (h : r.Open) :
  4 ≤ r.state.rank
  := by
  rcases h with h | h
  · simp [h, ResponderState.rank]
  · rcases hstate : r.state <;> simp [ResponderState.early, hstate, ResponderState.rank] at h ⊢

/-- What a call can do. -/
inductive Move (crypto : ServerCrypto) (r : Responder) :
    ResponderCall → Outcome ResponderError ResponderStep → Responder → Prop where
  /-- A call out of order changes nothing. -/
  | refused (c : ResponderCall) : Move crypto r c (.err .state) r
  /-- The client aborts. -/
  | aborted {c : ResponderCall} (hc : c.payload = some Responder.abort) :
      Move crypto r c (.err .aborted) { r with state := .done }
  /-- A message that is refused; a name may have been noted. -/
  | malformed {c : ResponderCall} {e : ResponderError} (name : Bytes)
      (hc : c.isMessage) (he : e ≠ .state ∧ e ≠ .aborted) :
      Move crypto r c (.err e) { r with username := name }
  /-- A challenge before anything is asked of the backend. -/
  | asked {c : ResponderCall} {state : ResponderState} (name nonce challenge : Bytes)
      (hopen : r.Open) (hc : c.isMessage) (hstate : state.early)
      (hfits : state.fits r.mechanism) (hrank : state.rank < r.state.rank) :
      Move crypto r c (.ok (Responder.challengeStep challenge))
        { r with username := name, challenge := nonce, state := state }
  /-- A request that is no SCRAM one. -/
  | raised {c : ResponderCall} {q : VerificationRequest} (hopen : r.Open) (hc : c.isMessage)
      (hkind : q.kind ≠ .scramKeys) (hmechanism : r.mechanism.newHash = none) :
      Move crypto r c (.ok { verification := some q }) { r with request := some q, state := .verify }
  /-- A client-first message. -/
  | first {c : ResponderCall} {q : VerificationRequest} {payload gs2 bare authzid nonce name : Bytes}
      (hopen : r.Open) (hc : c.payload = some payload)
      (hparse : parseSCRAMClientFirst payload r.mechanism.plus = some (gs2, bare, authzid))
      (hfields : Responder.parseFirstFields bare = some (nonce, name))
      (hkind : q.kind = .scramKeys) (hmechanism : r.mechanism.newHash.isSome) :
      Move crypto r c (.ok { verification := some q })
        { r with gs2Header := gs2, clientFirst := bare, combinedNonce := nonce,
                 request := some q, state := .verify }
  /-- The backend refuses. -/
  | denied {v : Verification} {random : Option Bytes} {q : VerificationRequest}
      {o : Outcome ResponderError ResponderStep} {state : ResponderState}
      (hv : v.accepted = false) (hverify : r.state = .verify) (hq : r.request = some q)
      (ho : ∀ step, o = .ok step → step.accepted = false ∧ step.verification = none)
      (hstate : state = .done ∨ state = .oauthDummy ∧ state.fits r.mechanism)
      (herror : o ≠ .err .state ∧ o ≠ .err .aborted ∧ o ≠ .panic) :
      Move crypto r (.answer v random) o { r with request := none, state := state }
  /-- The backend accepts, but its keys are of no use. -/
  | stuck {v : Verification} {random : Option Bytes} {q : VerificationRequest} {e : ResponderError}
      (hverify : r.state = .verify) (hq : r.request = some q) (hv : v.accepted = true)
      (he : e ≠ .state ∧ e ≠ .aborted) :
      Move crypto r (.answer v random) (.err e) { r with request := none }
  /-- The backend accepts, and the mechanism has no further steps. -/
  | granted {v : Verification} {random : Option Bytes} {q : VerificationRequest}
      (hverify : r.state = .verify) (hq : r.request = some q) (hv : v.accepted = true)
      (hmechanism : r.mechanism.newHash = none) :
      Move crypto r (.answer v random) (.ok { done := true, accepted := true })
        { r with request := none, state := .done }
  /-- The backend has keys for the client. -/
  | serverFirst {v : Verification} {random : Option Bytes} {q : VerificationRequest}
      {keys : ScramKeys} (nonce : Bytes) (hverify : r.state = .verify) (hq : r.request = some q)
      (hv : v.accepted = true) (hkeys : v.keys = some keys) (hmechanism : r.mechanism.newHash.isSome) :
      Move crypto r (.answer v random)
        (.ok (Responder.challengeStep
          (Responder.serverFirstMessage crypto (r.combinedNonce ++ nonce) keys)))
        { r with
          request := none, combinedNonce := r.combinedNonce ++ nonce, keys := some keys
          serverFirst := Responder.serverFirstMessage crypto (r.combinedNonce ++ nonce) keys
          state := .scramProof }
  /-- The exchange ends without success. -/
  | failed {payload : Bytes} :
      Move crypto r (.next payload) (.ok { done := true, accepted := false })
        { r with state := .done }
  /-- A client-final message with a proof. -/
  | proved {payload withoutProof proof64 proof challenge : Bytes} {keys : ScramKeys}
      {hash : ScramHash} (hstate : r.state = .scramProof) (hhash : r.mechanism.newHash = some hash)
      (hkeys : r.keys = some keys)
      (hparse : Responder.parseClientFinal crypto r.combinedNonce payload = some (withoutProof,
        r.gs2Header ++ (if r.mechanism.plus then r.cfg.channelBinding else []), proof64))
      (hproof : crypto.decode64 proof64 = some proof)
      (hproves : Responder.provesKey crypto hash keys.storedKey proof
        (r.clientFirst ++ comma :: r.serverFirst ++ comma :: withoutProof)) :
      Move crypto r (.next payload) (.ok (Responder.challengeStep challenge))
        { r with state := .scramEmpty }
  /-- The client has nothing to add to its proof. -/
  | accepted {payload : Bytes} (hstate : r.state = .scramEmpty) :
      Move crypto r (.next payload) (.ok { done := true, accepted := true })
        { r with state := .done }

/-! ### Every call is a move -/

/-- The call `m` makes the moves of `c`. -/
def Makes (crypto : ServerCrypto) (r : Responder) (c : ResponderCall) (m : Respond ResponderStep)
    (s : Responder) : Prop :=
  wp m (fun step r' => Move crypto r c (.ok step) r')
    (fun e r' => ∃ e', e = some e' ∧ Move crypto r c (.err e') r') s

namespace Responder

section Messages

variable {crypto : ServerCrypto} {r : Responder} {c : ResponderCall}
  (hc : c.isMessage)
include hc

theorem makes_fail (name : Bytes) :
  Makes crypto r c (Exec.fail .payload) { r with username := name }
  := ⟨_, rfl, .malformed name hc ⟨by simp, by simp⟩⟩

theorem makes_expect {α : Type} {x : Option α} {k : α → Respond ResponderStep}
    (hk : ∀ a, x = some a → Makes crypto r c (k a) r) :
  Makes crypto r c (expect x >>= k) r
  := by
  rw [Makes, wp_bind]
  cases x with
  | none => apply makes_fail hc r.username
  | some a => apply hk a rfl

theorem makes_ask (hopen : r.Open) (name nonce challenge : Bytes)
    (hstate : state.early) (hfits : state.fits r.mechanism) (hrank : state.rank < r.state.rank) :
  Makes crypto r c (ask state challenge) { r with username := name, challenge := nonce }
  := Move.asked name nonce challenge hopen hc hstate hfits hrank

theorem makes_verifyCredentials (hopen : r.Open) (credentials : Credentials)
    (hm : r.mechanism.newHash = none) :
  Makes crypto r c (verifyCredentials credentials) r
  := Move.raised hopen hc (by simp) hm

theorem makes_plain (hopen : r.Open) (payload : Bytes) (hm : r.mechanism.newHash = none) :
  Makes crypto r c (plain payload) r
  := by
  rw [plain]
  split
  · rw [Makes, wp_ite]
    constructor
    · intro _
      apply makes_fail hc r.username
    · intro _
      apply makes_verifyCredentials hc hopen _ hm
  · apply makes_fail hc r.username

theorem makes_oauth (hopen : r.Open) (payload : Bytes) (hm : r.mechanism.newHash = none) :
  Makes crypto r c (oauth payload) r
  := by
  rw [oauth, Makes, wp_bind, wp_read]
  apply makes_expect hc
  intro credentials _
  apply makes_verifyCredentials hc hopen _ hm

theorem makes_scramFirst (hopen : r.Open) {payload : Bytes} (hpayload : c.payload = some payload)
    (hm : r.mechanism.newHash.isSome) :
  Makes crypto r c (scramFirst payload) r
  := by
  rw [scramFirst, Makes, wp_bind, wp_read]
  apply makes_expect hc
  rintro ⟨gs2, bare, authzid⟩ hparse
  apply makes_expect hc
  rintro ⟨nonce, username⟩ hfields
  exact Move.first hopen hpayload hparse hfields rfl hm

theorem makes_cram (hnew : r.state = .new) (hm : r.mechanism = .cramMD5) :
  Makes crypto r c (do
    let challenge ← cramChallenge crypto random
    Exec.update fun r => { r with challenge := challenge }
    ask .cram challenge) r
  := by
  have hask (nonce : Bytes) :
      Makes crypto r c (ask .cram nonce) { r with challenge := nonce } := by
    apply makes_ask hc (.inl hnew) r.username nonce <;>
      simp [ResponderState.early, ResponderState.fits, ResponderState.rank, hm, hnew]
  rw [Makes, wp_bind, cramChallenge, wp_bind, wp_read]
  rcases r.cfg.cramChallenge with _ | challenge
  · rcases random with _ | nonce
    · exact ⟨_, rfl, .malformed r.username hc ⟨by simp, by simp⟩⟩
    · apply hask
  · apply hask

theorem makes_begin (hnew : r.state = .new) (hpayload : c.payload = initial) :
  Makes crypto r c (begin crypto random initial) r
  := by
  have hopen : r.Open := .inl hnew
  have hrank (state : ResponderState) (hstate : state.early) : state.rank < r.state.rank := by
    cases state <;> simp [ResponderState.early, ResponderState.rank, hnew] at hstate ⊢
  have hself (state : ResponderState) (challenge : Bytes) (hstate : state.early)
      (hfits : state.fits r.mechanism) : Makes crypto r c (ask state challenge) r :=
    makes_ask hc hopen r.username r.challenge challenge hstate hfits (hrank state hstate)
  rw [begin, Makes, wp_bind, wp_read]
  rcases hm : r.mechanism with _ | _ | _ | _ | _ | _ | ⟨hash, plus⟩ <;>
    rcases initial with _ | payload
  · apply hself <;> simp [ResponderState.early, ResponderState.fits, hm]
  · apply makes_plain hc hopen
    rw [hm]
    rfl
  · apply hself <;> simp [ResponderState.early, ResponderState.fits, hm]
  · rw [wp_bind, wp_update, wp_ite]
    constructor
    · intro _
      apply makes_fail hc payload
    · intro _
      apply makes_ask hc hopen payload r.challenge <;>
        simp [ResponderState.early, ResponderState.fits, ResponderState.rank, hm, hnew]
  · apply makes_cram hc hnew hm
  · apply makes_fail hc r.username
  · apply hself <;> simp [ResponderState.early, ResponderState.fits, hm]
  · apply makes_verifyCredentials hc hopen
    rw [hm]
    rfl
  · apply hself <;> simp [ResponderState.early, ResponderState.fits, hm]
  · apply makes_oauth hc hopen
    rw [hm]
    rfl
  · apply hself <;> simp [ResponderState.early, ResponderState.fits, hm]
  · apply makes_oauth hc hopen
    rw [hm]
    rfl
  · apply hself <;> simp [ResponderState.early, ResponderState.fits, hm, ServerMechanism.newHash]
  · apply makes_scramFirst hc hopen hpayload
    rw [hm]
    rfl

end Messages

section Calls

variable {crypto : ServerCrypto} {r : Responder}

theorem makes_start :
  Makes crypto r (.start initial random) (start crypto random initial) r
  := by
  have hc : (ResponderCall.start initial random).isMessage := rfl
  rw [start, Makes, wp_bind, wp_read, wp_ite]
  refine ⟨fun _ => ⟨_, rfl, .refused _⟩, fun hnew => ?_⟩
  rw [wp_ite]
  refine ⟨fun _ => makes_fail hc r.username, fun _ => ?_⟩
  rw [wp_ite]
  refine ⟨fun habort => ⟨_, rfl, .aborted habort⟩, fun _ => ?_⟩
  apply makes_begin hc (not_not.mp hnew) rfl

theorem makes_scramProof {payload : Bytes} (hsane : r.Sane) (hstate : r.state = .scramProof) :
  Makes crypto r (.next payload) (scramProof crypto payload) r
  := by
  have hc : (ResponderCall.next payload).isMessage := rfl
  obtain ⟨keys, hkeys⟩ := Option.ne_none_iff_exists'.mp (hsane.keys hstate)
  have hfits := hsane.fits
  rw [hstate] at hfits
  obtain ⟨hash, hhash⟩ := Option.isSome_iff_exists.mp hfits
  rw [scramProof, Makes, wp_bind, wp_read]
  apply makes_expect hc
  rintro ⟨withoutProof, channel, proof64⟩ hparse
  rw [Makes, wp_ite]
  refine ⟨fun _ => .failed, fun hchannel => ?_⟩
  apply makes_expect hc
  intro proof hproof
  rw [Makes, wp_bind, hashFunction, wp_bind, wp_read]
  simp only [hhash, hkeys]
  rw [wp_pure, wp_ite]
  refine ⟨fun _ => makes_fail hc r.username, fun _ => ?_⟩
  rw [wp_ite]
  refine ⟨fun _ => .failed, fun hproves => ?_⟩
  rw [not_not] at hchannel
  rw [hchannel] at hparse
  exact Move.proved hstate hhash hkeys hparse hproof (by simpa using hproves)

theorem makes_next {response : Bytes} (hsane : r.Sane) :
  Makes crypto r (.next response) (next crypto response) r
  := by
  have hc : (ResponderCall.next response).isMessage := rfl
  have hfits := hsane.fits
  rw [next, Makes, wp_bind, wp_read, wp_ite]
  refine ⟨fun habort => ⟨_, rfl, .aborted (by rw [habort]; rfl)⟩, fun _ => ?_⟩
  rw [wp_ite]
  refine ⟨fun _ => makes_fail hc r.username, fun _ => ?_⟩
  have hnone (hstate : r.state ∈
      [.plain, .loginUser, .loginPassword, .cram, .external, .oauth, .oauthDummy]) :
      r.mechanism.newHash = none := ResponderState.newHash_of_fits hfits hstate
  have hopen (h : r.state ∈
      [ResponderState.plain, .loginUser, .loginPassword, .cram, .external, .oauth, .scramFirst]) :
      r.Open := .inr h
  rcases hstate : r.state <;> simp only [hstate] at hnone hfits hopen ⊢
  case plain => apply makes_plain hc (hopen (by decide)) _ (hnone (by decide))
  case loginUser =>
      rw [wp_ite]
      refine ⟨fun _ => makes_fail hc r.username, fun _ => ?_⟩
      rw [wp_bind, wp_update]
      exact makes_ask hc (hopen (by decide)) response r.challenge _ (by simp [ResponderState.early])
        hfits (by simp [ResponderState.rank, hstate])
  case loginPassword => apply makes_verifyCredentials hc (hopen (by decide)) _ (hnone (by decide))
  case cram =>
      rw [wp_ite]
      refine ⟨fun _ => makes_fail hc r.username, fun _ => ?_⟩
      exact Move.raised (hopen (by decide)) hc (by simp) (hnone (by decide))
  case external => apply makes_verifyCredentials hc (hopen (by decide)) _ (hnone (by decide))
  case oauth => apply makes_oauth hc (hopen (by decide)) _ (hnone (by decide))
  case oauthDummy =>
      rw [wp_ite]
      exact ⟨fun _ => makes_fail hc r.username, fun _ => .failed⟩
  case scramFirst => apply makes_scramFirst hc (hopen (by decide)) rfl hfits
  case scramProof => apply makes_scramProof hsane hstate
  case scramEmpty =>
      rw [wp_ite]
      exact ⟨fun _ => makes_fail hc r.username, fun _ => .accepted hstate⟩
  all_goals exact ⟨_, rfl, .refused _⟩

theorem makes_scramServerFirst (hverify : r.state = .verify) (hq : r.request = some q)
    (hv : v.accepted = true) (hkeys : v.keys = some keys) (hm : r.mechanism.newHash.isSome) :
  Makes crypto r (.answer v random) (scramServerFirst crypto random keys) { r with request := none }
  := by
  have hstuck (e : ResponderError) (he : e ≠ .state ∧ e ≠ .aborted) :
      Makes crypto r (.answer v random) (Exec.fail e) { r with request := none } :=
    ⟨e, rfl, .stuck hverify hq hv he⟩
  obtain ⟨hash, hhash⟩ := Option.isSome_iff_exists.mp hm
  rw [scramServerFirst, Makes, wp_bind, hashFunction, wp_bind, wp_read]
  simp only [hhash]
  rw [wp_pure, wp_ite]
  refine ⟨fun _ => hstuck _ ⟨by simp, by simp⟩, fun _ => ?_⟩
  rw [wp_bind, serverNonce.eq_def, wp_bind, wp_read, wp_ite]
  constructor
  · intro _
    exact Move.serverFirst r.cfg.testNonce hverify hq hv hkeys hm
  · intro _
    rcases random with _ | octets
    · exact hstuck _ ⟨by simp, by simp⟩
    · exact Move.serverFirst (crypto.rawEncode64 octets) hverify hq hv hkeys hm

theorem makes_denied {step : ResponderStep} (hv : v.accepted = false)
    (hverify : r.state = .verify) (hq : r.request = some q)
    (hstate : state = .done ∨ state = .oauthDummy ∧ state.fits r.mechanism)
    (hstep : step.accepted = false ∧ step.verification = none) :
  Makes crypto r (.answer v random) (do
    setState state
    pure step) { r with request := none }
  := by
  refine Move.denied hv hverify hq ?_ hstate ⟨by simp, by simp, by simp⟩
  rintro _ ⟨⟩
  exact hstep

theorem makes_finish
    (hverify : r.state = .verify) (hq : r.request = some q) (hm : r.mechanism.newHash = none) :
  Makes crypto r (.answer v random) (finish v.accepted) { r with request := none }
  := by
  cases hv : v.accepted with
  | true => exact Move.granted hverify hq hv hm
  | false =>
    apply makes_denied hv hverify hq (.inl rfl)
    exact ⟨rfl, rfl⟩

theorem makes_continueWith (hsane : r.Sane) :
  Makes crypto r (.answer v random) (continueWith crypto random v) r
  := by
  rw [continueWith, Makes, wp_bind, wp_read]
  split
  · next q hverify hq =>
    have hkind := hsane.request q hq
    rw [wp_bind, wp_update, answered, wp_bind, wp_read, wp_ite]
    constructor
    · intro hscram
      rw [wp_ite]
      constructor
      · intro hv
        apply makes_denied (by simpa using hv) hverify hq (.inl rfl)
        exact ⟨rfl, rfl⟩
      · intro hv
        have hv : v.accepted = true := by simpa using hv
        split
        · exact ⟨_, rfl, .stuck hverify hq hv ⟨by simp, by simp⟩⟩
        · next keys hkeys =>
          apply makes_scramServerFirst hverify hq hv hkeys (hkind.mp hscram)
    · intro hother
      have hm : r.mechanism.newHash = none := by
        rw [hkind] at hother
        simpa using hother
      split
      · apply makes_finish hverify hq hm
      · next challenge _ =>
        rw [wp_ite]
        constructor
        · rintro ⟨hv, hoauth⟩
          have hv : v.accepted = false := by simpa using hv
          have hfits : ResponderState.oauthDummy.fits r.mechanism := by
            simpa [ResponderState.fits] using hoauth
          rw [wp_ite]
          constructor
          · intro _
            exact ⟨_, rfl, .denied hv hverify hq (by simp) (.inl rfl) ⟨by simp, by simp, by simp⟩⟩
          · intro _
            apply makes_denied hv hverify hq (.inr ⟨rfl, hfits⟩)
            exact ⟨rfl, rfl⟩
        · intro _
          apply makes_finish hverify hq hm
  · exact ⟨_, rfl, .refused _⟩

theorem move_call (crypto : ServerCrypto) (hsane : r.Sane) (c : ResponderCall) :
  Move crypto r c (call crypto c r).1 (call crypto c r).2
  := by
  have hmakes : Makes crypto r c (call crypto c) r := by
    cases c with
    | start initial random => apply makes_start
    | next response => apply makes_next hsane
    | answer v random => apply makes_continueWith hsane
  simp only [Makes, wp] at hmakes
  rcases hcall : call crypto c r with ⟨step | e | _, r'⟩ <;> rw [hcall] at hmakes
  · exact hmakes
  · obtain ⟨_, ⟨⟩, hmove⟩ := hmakes
    exact hmove
  · obtain ⟨_, ⟨⟩, -⟩ := hmakes

end Calls

end Responder

section Moves

variable {crypto : ServerCrypto} {r r' : Responder} {c : ResponderCall}
  {o : Outcome ResponderError ResponderStep}

theorem Move.mechanism (h : Move crypto r c o r') :
  r'.mechanism = r.mechanism ∧ r'.cfg = r.cfg
  := by
  cases h <;> exact ⟨rfl, rfl⟩

theorem Move.rank {step : ResponderStep} (h : Move crypto r c (.ok step) r')
    (hstep : step.verification ≠ none ∨ step.challenge ≠ none) :
  r'.state.rank < r.state.rank
  := by
  cases h with
  | asked _ _ _ _ _ _ _ hrank => exact hrank
  | raised hopen => exact hopen.rank
  | first hopen => exact hopen.rank
  | denied _ hverify _ _ hstate =>
    rcases hstate with rfl | ⟨rfl, -⟩ <;> simp [ResponderState.rank, hverify]
  | serverFirst _ hverify => simp [ResponderState.rank, hverify]
  | proved hstate => simp [ResponderState.rank, hstate]
  | granted | failed | accepted => simp at hstep

theorem Move.sane (h : Move crypto r c o r') (hsane : r.Sane) :
  r'.Sane
  := by
  obtain ⟨hfits, hrequest, hkeys⟩ := hsane
  cases h with
  | refused => exact ⟨hfits, hrequest, hkeys⟩
  | aborted => exact ⟨rfl, hrequest, by simp⟩
  | malformed => exact ⟨hfits, hrequest, hkeys⟩
  | asked name nonce challenge _ _ hstate hfits =>
    refine ⟨hfits, hrequest, ?_⟩
    rintro rfl
    simp [ResponderState.early] at hstate
  | raised _ _ hkind hmechanism =>
    refine ⟨rfl, ?_, by simp⟩
    rintro _ ⟨⟩
    simp [hkind, hmechanism]
  | first _ _ _ _ hkind hmechanism =>
    refine ⟨rfl, ?_, by simp⟩
    rintro _ ⟨⟩
    simp [hkind, hmechanism]
  | denied _ _ _ _ hstate =>
    rcases hstate with rfl | ⟨rfl, hstate⟩
    · exact ⟨rfl, by simp, by simp⟩
    · exact ⟨hstate, by simp, by simp⟩
  | stuck => exact ⟨hfits, by simp, hkeys⟩
  | granted => exact ⟨rfl, by simp, by simp⟩
  | serverFirst _ _ _ _ _ hmechanism => exact ⟨hmechanism, by simp, by simp⟩
  | failed => exact ⟨rfl, hrequest, by simp⟩
  | proved hstate =>
    rw [hstate] at hfits
    exact ⟨hfits, hrequest, by simp⟩
  | accepted => exact ⟨rfl, hrequest, by simp⟩

end Moves

/-! ### Histories -/

/-- A call, and how it ended. -/
abbrev ResponderEvent := ResponderCall × Outcome ResponderError ResponderStep

namespace ResponderEvent

/-- The request that is raised. -/
def raised (e : ResponderEvent) : Option VerificationRequest :=
  match e.2 with
  | .ok step => step.verification
  | _ => none

/-- The exchange is accepted. -/
def accepted (e : ResponderEvent) : Bool :=
  match e.2 with
  | .ok step => step.done && step.accepted
  | _ => false

/-- The client has aborted the exchange. -/
def aborted (e : ResponderEvent) : Bool := e.2 = .err .aborted

/-- The backend has refused a request. -/
def denied (e : ResponderEvent) : Bool :=
  match e with
  | (.answer v _, o) => !v.accepted && o ≠ .err .state
  | _ => false

end ResponderEvent

/-- The calls on a responder, and how they end. -/
def converse (crypto : ServerCrypto) : List ResponderCall → Responder → List ResponderEvent
  | [], _ => []
  | c :: calls, r =>
    (c, (r.call crypto c).1) :: converse crypto calls (r.call crypto c).2

/-- The event `e` raises the request `q`, and no later event raises one. -/
def LastRaised (t : List ResponderEvent) (e : ResponderEvent) (q : VerificationRequest) : Prop :=
  ∃ a b, t = a ++ e :: b ∧ e.raised = some q ∧ ∀ e' ∈ b, e'.raised = none

/-- The backend accepts the request `q` that was raised last, with the answer `v` that leads to
the step `o`.  The events `b` happened since. -/
def AnsweredBy (t : List ResponderEvent) (e : ResponderEvent) (q : VerificationRequest)
    (v : Verification) (o : ResponderStep) (b : List ResponderEvent) : Prop :=
  ∃ a random, t = a ++ (.answer v random, .ok o) :: b ∧ v.accepted = true ∧ LastRaised a e q ∧
    o.verification = none ∧ ∀ e' ∈ b, e'.raised = none

theorem LastRaised.snoc {t : List ResponderEvent} {e e' : ResponderEvent}
    (h : LastRaised t e q) (he' : e'.raised = none) :
  LastRaised (t ++ [e']) e q
  := by
  obtain ⟨a, b, rfl, he, hb⟩ := h
  refine ⟨a, b ++ [e'], by simp, he, ?_⟩
  intro e'' hmem
  rcases List.mem_append.mp hmem with hmem | hmem
  · exact hb e'' hmem
  · rwa [List.mem_singleton.mp hmem]

theorem lastRaised_snoc {t : List ResponderEvent} {e : ResponderEvent} (he : e.raised = some q) :
  LastRaised (t ++ [e]) e q
  := ⟨t, [], rfl, he, List.forall_mem_nil _⟩

theorem AnsweredBy.snoc {t b : List ResponderEvent} {e e' : ResponderEvent} {o : ResponderStep}
    (h : AnsweredBy t e q v o b) (he' : e'.raised = none) :
  AnsweredBy (t ++ [e']) e q v o (b ++ [e'])
  := by
  obtain ⟨a, random, rfl, hv, hlast, ho, hb⟩ := h
  refine ⟨a, random, by simp, hv, hlast, ho, ?_⟩
  intro e'' hmem
  rcases List.mem_append.mp hmem with hmem | hmem
  · exact hb e'' hmem
  · rwa [List.mem_singleton.mp hmem]

/-! ### Transcripts -/

/-- The messages of a SCRAM exchange up to the server-first message. -/
structure Transcript where
  /-- The client-first message, and its parts. -/
  payload : Bytes
  gs2 : Bytes
  bare : Bytes
  nonce : Bytes
  keys : ScramKeys
  /-- What the server adds to the nonce. -/
  added : Bytes

/-- The nonce of both sides. -/
def Transcript.combined (x : Transcript) : Bytes := x.nonce ++ x.added

def Transcript.serverFirst (x : Transcript) (crypto : ServerCrypto) : Bytes :=
  Responder.serverFirstMessage crypto x.combined x.keys

/-- The message has a header, a bare part and a nonce. -/
def FirstMessage (plus : Bool) (payload gs2 bare nonce : Bytes) : Prop :=
  ∃ authzid name, parseSCRAMClientFirst payload plus = some (gs2, bare, authzid) ∧
    Responder.parseFirstFields bare = some (nonce, name)

/-- The transcript is the one of the event `e`, which presents the client-first message, and of
the answer `v`, which leads to the challenge in `o`. -/
structure Exchanged (crypto : ServerCrypto) (plus : Bool) (x : Transcript) (e : ResponderEvent)
    (v : Verification) (o : ResponderStep) : Prop where
  payload : e.1.payload = some x.payload
  first : FirstMessage plus x.payload x.gs2 x.bare x.nonce
  keys : v.keys = some x.keys
  sent : o.challenge = some (x.serverFirst crypto)

/-- Among the events is a client-final message with the nonce of both sides, with a channel
binding that decodes to the header and the binding, and with a proof that hashes to the stored
key over the messages. -/
def Proved (crypto : ServerCrypto) (hash : ScramHash) (binding : Bytes) (x : Transcript)
    (b : List ResponderEvent) : Prop :=
  ∃ final o withoutProof proof64 proof, (.next final, .ok o) ∈ b ∧
    Responder.parseClientFinal crypto x.combined final =
      some (withoutProof, x.gs2 ++ binding, proof64) ∧
    crypto.decode64 proof64 = some proof ∧
    Responder.provesKey crypto hash x.keys.storedKey proof
      (x.bare ++ comma :: x.serverFirst crypto ++ comma :: withoutProof)

/-- The binding that a mechanism asks for. -/
def Responder.binding (r : Responder) : Bytes :=
  if r.mechanism.plus then r.cfg.channelBinding else []

/-- A SCRAM exchange has got past the server-first message, and the responder knows its
transcript. -/
structure Started (crypto : ServerCrypto) (r : Responder) (t b : List ResponderEvent)
    (x : Transcript) : Prop where
  answered : ∃ e q v o, AnsweredBy t e q v o b ∧ Exchanged crypto r.mechanism.plus x e v o
  gs2 : r.gs2Header = x.gs2
  bare : r.clientFirst = x.bare
  nonce : r.combinedNonce = x.combined
  serverFirst : r.serverFirst = x.serverFirst crypto
  keys : r.keys = some x.keys

/-- What the history tells about the state that it led to. -/
structure Trail (crypto : ServerCrypto) (t : List ResponderEvent) (r : Responder) : Prop where
  sane : r.Sane
  unaccepted : r.state ≠ .done → ∀ e ∈ t, e.accepted = false ∧ e.aborted = false
  undenied : r.state ≠ .done → r.state ≠ .oauthDummy → ∀ e ∈ t, e.denied = false
  pending : ∀ q, r.request = some q → ∃ e, LastRaised t e q ∧
    (r.mechanism.newHash.isSome → ∃ payload, e.1.payload = some payload ∧
      FirstMessage r.mechanism.plus payload r.gs2Header r.clientFirst r.combinedNonce)
  started : r.state = .scramProof → ∃ b x, Started crypto r t b x
  proved : r.state = .scramEmpty → ∃ b x hash, Started crypto r t b x ∧
    r.mechanism.newHash = some hash ∧ Proved crypto hash r.binding x b

section Trails

variable {crypto : ServerCrypto} {t : List ResponderEvent} {r : Responder} {e : ResponderEvent}

theorem forall_snoc {P : ResponderEvent → Prop} (h : ∀ e ∈ t, P e) (he : P e) :
  ∀ e' ∈ t ++ [e], P e'
  := by
  intro e' hmem
  rcases List.mem_append.mp hmem with hmem | hmem
  · exact h e' hmem
  · rwa [List.mem_singleton.mp hmem]

theorem denied_message (hc : c.isMessage) :
  ResponderEvent.denied (c, o) = false
  := by
  cases c <;> first | rfl | cases hc

theorem isMessage_of_payload {payload : Bytes} (hc : c.payload = some payload) :
  c.isMessage
  := by
  cases c <;> first | rfl | cases hc

theorem Trail.pending_snoc (h : Trail crypto t r) (he : e.raised = none) (q : VerificationRequest)
    (hq : r.request = some q) :
  ∃ e', LastRaised (t ++ [e]) e' q ∧
    (r.mechanism.newHash.isSome → ∃ payload, e'.1.payload = some payload ∧
      FirstMessage r.mechanism.plus payload r.gs2Header r.clientFirst r.combinedNonce)
  := by
  obtain ⟨e', hlast, hfirst⟩ := h.pending q hq
  exact ⟨e', hlast.snoc he, hfirst⟩

theorem Started.snoc {b : List ResponderEvent} {x : Transcript} (h : Started crypto r t b x)
    (he : e.raised = none) :
  Started crypto r (t ++ [e]) (b ++ [e]) x
  := by
  obtain ⟨⟨e', q, v, o, hanswered, hexchanged⟩, hgs2, hbare, hnonce, hserver, hkeys⟩ := h
  exact ⟨⟨e', q, v, o, hanswered.snoc he, hexchanged⟩, hgs2, hbare, hnonce, hserver, hkeys⟩

theorem Proved.mono {binding : Bytes} {x : Transcript} {b b' : List ResponderEvent}
    (h : Proved crypto hash binding x b) (hb : b ⊆ b') :
  Proved crypto hash binding x b'
  := by
  obtain ⟨final, o, withoutProof, proof64, proof, hmem, hproof⟩ := h
  exact ⟨final, o, withoutProof, proof64, proof, hb hmem, hproof⟩

theorem Trail.idle (h : Trail crypto t r) (name : Bytes) (he : e.raised = none)
    (haccepted : e.accepted = false ∧ e.aborted = false) (hdenied : e.denied = false) :
  Trail crypto (t ++ [e]) { r with username := name }
  := by
  obtain ⟨hfits, hrequest, hkeys⟩ := h.sane
  constructor
  · exact ⟨hfits, hrequest, hkeys⟩
  · intro hstate
    exact forall_snoc (h.unaccepted hstate) haccepted
  · intro hstate hdummy
    exact forall_snoc (h.undenied hstate hdummy) hdenied
  · exact h.pending_snoc he
  · intro hstate
    obtain ⟨b, x, hstarted⟩ := h.started hstate
    obtain ⟨hanswered, hgs2, hbare, hnonce, hserver, hkeys⟩ := hstarted.snoc he
    exact ⟨_, x, hanswered, hgs2, hbare, hnonce, hserver, hkeys⟩
  · intro hstate
    obtain ⟨b, x, hash, hstarted, hhash, hproved⟩ := h.proved hstate
    obtain ⟨hanswered, hgs2, hbare, hnonce, hserver, hkeys⟩ := hstarted.snoc he
    exact ⟨_, x, hash, ⟨hanswered, hgs2, hbare, hnonce, hserver, hkeys⟩, hhash,
      hproved.mono (List.subset_append_left _ _)⟩

theorem Trail.over (h : Trail crypto t r) {request : Option VerificationRequest}
    (he : e.raised = none) (hrequest : request = r.request ∨ request = none) :
  Trail crypto (t ++ [e]) { r with request := request, state := .done }
  := by
  have hsub (q : VerificationRequest) (hq : request = some q) : r.request = some q := by
    rcases hrequest with rfl | rfl
    · exact hq
    · cases hq
  constructor
  · exact ⟨rfl, fun q hq => h.sane.request q (hsub q hq), by simp⟩
  · intro hstate
    exact absurd rfl hstate
  · intro hstate
    exact absurd rfl hstate
  · intro q hq
    exact h.pending_snoc he q (hsub q hq)
  · simp
  · simp

theorem Responder.Open.ne (h : r.Open) :
  r.state ≠ .done ∧ r.state ≠ .oauthDummy
  := by
  rcases h with h | h
  · rw [h]
    exact ⟨by simp, by simp⟩
  · constructor <;> intro heq <;> rw [heq] at h <;> simp [ResponderState.early] at h

theorem Trail.early (h : Trail crypto t r) (hopen : r.Open) (hsane : r'.Sane)
    (haccepted : e.accepted = false ∧ e.aborted = false) (hdenied : e.denied = false)
    (hpending : ∀ q, r'.request = some q → ∃ e', LastRaised (t ++ [e]) e' q ∧
      (r'.mechanism.newHash.isSome → ∃ payload, e'.1.payload = some payload ∧
        FirstMessage r'.mechanism.plus payload r'.gs2Header r'.clientFirst r'.combinedNonce))
    (hstate : r'.state ≠ .scramProof ∧ r'.state ≠ .scramEmpty) :
  Trail crypto (t ++ [e]) r'
  := by
  obtain ⟨hdone, hdummy⟩ := hopen.ne
  refine ⟨hsane, ?_, ?_, hpending, ?_, ?_⟩
  · intro _
    exact forall_snoc (h.unaccepted hdone) haccepted
  · intro _ _
    exact forall_snoc (h.undenied hdone hdummy) hdenied
  · intro hproof
    exact absurd hproof hstate.1
  · intro hempty
    exact absurd hempty hstate.2

theorem Trail.serverFirst (h : Trail crypto t r) (nonce : Bytes) (hsane : r'.Sane)
    (hverify : r.state = .verify) (hq : r.request = some q) (hv : v.accepted = true)
    (hkeys : v.keys = some keys) (hmechanism : r.mechanism.newHash.isSome) (hr' : r' = { r with
      request := none, combinedNonce := r.combinedNonce ++ nonce, keys := some keys
      serverFirst := Responder.serverFirstMessage crypto (r.combinedNonce ++ nonce) keys
      state := .scramProof }) :
  Trail crypto (t ++ [(.answer v random, .ok (Responder.challengeStep r'.serverFirst))]) r'
  := by
  subst hr'
  have hdone : r.state ≠ .done := by simp [hverify]
  have hdummy : r.state ≠ .oauthDummy := by simp [hverify]
  obtain ⟨e, hlast, hfirst⟩ := h.pending q hq
  obtain ⟨payload, hpayload, hfirst⟩ := hfirst hmechanism
  refine ⟨hsane, ?_, ?_, by simp, ?_, by simp⟩
  · intro _
    exact forall_snoc (h.unaccepted hdone) ⟨rfl, rfl⟩
  · intro _ _
    apply forall_snoc (h.undenied hdone hdummy)
    simp [ResponderEvent.denied, hv]
  · intro _
    refine ⟨[], ⟨payload, r.gs2Header, r.clientFirst, r.combinedNonce, keys, nonce⟩, ?_⟩
    constructor
    · refine ⟨e, q, v, _, ⟨t, random, rfl, hv, hlast, rfl, List.forall_mem_nil _⟩, ?_⟩
      exact ⟨hpayload, hfirst, hkeys, rfl⟩
    all_goals rfl

theorem Trail.provedBy (h : Trail crypto t r) {payload withoutProof proof64 proof challenge : Bytes}
    (hsane : r'.Sane) (hstate : r.state = .scramProof) (hhash : r.mechanism.newHash = some hash)
    (hkeys : r.keys = some keys)
    (hparse : Responder.parseClientFinal crypto r.combinedNonce payload =
      some (withoutProof, r.gs2Header ++ r.binding, proof64))
    (hproof : crypto.decode64 proof64 = some proof)
    (hproves : Responder.provesKey crypto hash keys.storedKey proof
      (r.clientFirst ++ comma :: r.serverFirst ++ comma :: withoutProof))
    (hr' : r' = { r with state := .scramEmpty }) :
  Trail crypto (t ++ [(.next payload, .ok (Responder.challengeStep challenge))]) r'
  := by
  subst hr'
  have hdone : r.state ≠ .done := by simp [hstate]
  have hdummy : r.state ≠ .oauthDummy := by simp [hstate]
  obtain ⟨b, x, hstarted⟩ := h.started hstate
  have he : ResponderEvent.raised (.next payload, .ok (Responder.challengeStep challenge)) = none :=
    rfl
  refine ⟨hsane, ?_, ?_, h.pending_snoc he, by simp, ?_⟩
  · intro _
    exact forall_snoc (h.unaccepted hdone) ⟨rfl, rfl⟩
  · intro _ _
    exact forall_snoc (h.undenied hdone hdummy) rfl
  · intro _
    obtain ⟨hanswered, hgs2, hbare, hnonce, hserver, hkeys'⟩ := hstarted.snoc he
    refine ⟨_, x, hash, ⟨hanswered, hgs2, hbare, hnonce, hserver, hkeys'⟩, hhash, ?_⟩
    obtain rfl : keys = x.keys := Option.some.inj (hkeys.symm.trans hkeys')
    rw [hnonce, hgs2] at hparse
    rw [hbare, hserver] at hproves
    exact ⟨payload, _, withoutProof, proof64, proof, List.mem_append_right _ (List.mem_singleton_self _),
      hparse, hproof, hproves⟩

theorem Trail.step (h : Trail crypto t r) {r' : Responder} (hmove : Move crypto r c o r') :
  Trail crypto (t ++ [(c, o)]) r'
  := by
  have hsane := hmove.sane h.sane
  cases hmove with
  | refused =>
    apply h.idle r.username rfl ⟨rfl, rfl⟩
    cases c <;> simp [ResponderEvent.denied]
  | aborted => exact h.over rfl (.inl rfl)
  | malformed name hc he =>
    apply h.idle name rfl ⟨rfl, _⟩ (denied_message hc)
    simpa [ResponderEvent.aborted] using he.2
  | asked name nonce challenge hopen hc hstate hfits =>
    apply h.early hopen hsane ⟨rfl, rfl⟩ (denied_message hc) (h.pending_snoc rfl)
    constructor <;> rintro rfl <;> simp [ResponderState.early] at hstate
  | raised hopen hc hkind hmechanism =>
    apply h.early hopen hsane ⟨rfl, rfl⟩ (denied_message hc) _ ⟨by simp, by simp⟩
    rintro _ ⟨⟩
    refine ⟨_, lastRaised_snoc rfl, fun hsome => ?_⟩
    simp [hmechanism] at hsome
  | first hopen hc hparse hfields =>
    apply h.early hopen hsane ⟨rfl, rfl⟩ (denied_message (isMessage_of_payload hc)) _
      ⟨by simp, by simp⟩
    rintro _ ⟨⟩
    exact ⟨_, lastRaised_snoc rfl, fun _ => ⟨_, hc, _, _, hparse, hfields⟩⟩
  | denied hv hverify hq ho hstate herror =>
    have he : ∀ v random, ResponderEvent.raised (.answer v random, o) = none := by
      intro _ _
      rcases o with step | e | _
      · exact (ho step rfl).2
      · rfl
      · rfl
    rcases hstate with rfl | ⟨rfl, -⟩
    · exact h.over (he _ _) (.inr rfl)
    · refine ⟨hsane, ?_, ?_, by simp, by simp, by simp⟩
      · intro _
        apply forall_snoc (h.unaccepted (by simp [hverify]))
        rcases o with step | e | _
        · simp [ResponderEvent.accepted, ResponderEvent.aborted, ho step rfl]
        · simpa [ResponderEvent.accepted, ResponderEvent.aborted] using herror.2.1
        · exact ⟨rfl, rfl⟩
      · intro _ hdummy
        exact absurd rfl hdummy
  | @stuck v random q e hverify hq hv he =>
    refine ⟨hsane, ?_, ?_, by simp, ?_, ?_⟩
    · intro _
      apply forall_snoc (h.unaccepted (by simp [hverify])) ⟨rfl, _⟩
      simpa [ResponderEvent.aborted] using he.2
    · intro _ _
      apply forall_snoc (h.undenied (by simp [hverify]) (by simp [hverify]))
      simp [ResponderEvent.denied, hv]
    · simp [hverify]
    · simp [hverify]
  | granted => exact h.over rfl (.inr rfl)
  | serverFirst nonce hverify hq hv hkeys hmechanism =>
    exact h.serverFirst nonce hsane hverify hq hv hkeys hmechanism rfl
  | failed => exact h.over rfl (.inl rfl)
  | proved hstate hhash hkeys hparse hproof hproves =>
    exact h.provedBy hsane hstate hhash hkeys hparse hproof hproves rfl
  | accepted => exact h.over rfl (.inl rfl)

end Trails

/-! ### Acceptance -/

/-- The exchange is accepted by the event `e`, with the events `before` and `after` it: this is
the only time, nothing was aborted or refused, and the backend has accepted the request that
was raised last.  With SCRAM the client has proved that it knows the password, over the messages
that were exchanged. -/
structure Sound (crypto : ServerCrypto) (r : Responder) (before : List ResponderEvent)
    (e : ResponderEvent) (after : List ResponderEvent) : Prop where
  once : ∀ e' ∈ before ++ after, e'.accepted = false
  unaborted : ∀ e' ∈ before, e'.aborted = false
  undenied : ∀ e' ∈ before, e'.denied = false
  granted : ∃ e' q v o b, AnsweredBy (before ++ [e]) e' q v o b ∧
    ∀ hash, r.mechanism.newHash = some hash →
      ∃ x, Exchanged crypto r.mechanism.plus x e' v o ∧ Proved crypto hash r.binding x b

/-- The calls that were not refused as out of order. -/
def inOrder (t : List ResponderEvent) : List ResponderEvent := t.filter (·.2 ≠ .err .state)

section Acceptance

variable {crypto : ServerCrypto} {r r' : Responder} {c : ResponderCall}
  {o : Outcome ResponderError ResponderStep}

theorem Move.done (h : Move crypto r c o r') (hdone : r.state = .done) :
  r'.state = .done ∧ ResponderEvent.accepted (c, o) = false
  := by
  cases h with
  | refused => exact ⟨hdone, rfl⟩
  | aborted => exact ⟨rfl, rfl⟩
  | malformed => exact ⟨hdone, rfl⟩
  | asked _ _ _ hopen => exact absurd hdone hopen.ne.1
  | raised hopen => exact absurd hdone hopen.ne.1
  | first hopen => exact absurd hdone hopen.ne.1
  | failed => exact ⟨rfl, rfl⟩
  | _ => simp_all

theorem converse_done (hsane : r.Sane) (hdone : r.state = .done) :
  ∀ e ∈ converse crypto calls r, e.accepted = false
  := by
  induction calls generalizing r with
  | nil => exact List.forall_mem_nil _
  | cons c calls ih =>
    have hmove := Responder.move_call crypto hsane c
    obtain ⟨hdone', haccepted⟩ := hmove.done hdone
    intro e hmem
    rcases List.mem_cons.mp hmem with rfl | hmem
    · exact haccepted
    · exact ih (hmove.sane hsane) hdone' e hmem

theorem Move.unchanged (h : Move crypto r c o r') (ho : o = .err .state) :
  r' = r
  := by
  cases h with
  | refused => rfl
  | malformed _ _ he => exact absurd (Outcome.err.inj ho) he.1
  | denied _ _ _ _ _ herror => exact absurd ho herror.1
  | stuck _ _ _ he => exact absurd (Outcome.err.inj ho) he.1
  | _ => cases ho

theorem converse_inOrder (calls : List ResponderCall) (hsane : r.Sane) :
  converse crypto ((inOrder (converse crypto calls r)).map (·.1)) r
    = inOrder (converse crypto calls r)
  := by
  induction calls generalizing r with
  | nil => rfl
  | cons c calls ih =>
    have hmove := Responder.move_call crypto hsane c
    have hrest := ih (hmove.sane hsane)
    by_cases ho : (r.call crypto c).1 = .err .state
    · rw [hmove.unchanged ho] at hrest
      simpa [converse, inOrder, ho, hmove.unchanged ho] using hrest
    · simpa [converse, inOrder, ho] using hrest

theorem Trail.grant {t : List ResponderEvent} (h : Trail crypto t r) (hmove : Move crypto r c o r')
    (haccepted : ResponderEvent.accepted (c, o)) :
  r.state ≠ .done ∧ r.state ≠ .oauthDummy ∧ r'.state = .done ∧
    ∃ e q v step b, AnsweredBy (t ++ [(c, o)]) e q v step b ∧
      ∀ hash, r.mechanism.newHash = some hash →
        ∃ x, Exchanged crypto r.mechanism.plus x e v step ∧ Proved crypto hash r.binding x b
  := by
  cases hmove with
  | denied _ _ _ ho =>
    rcases o with step | e | _
    · simp [ResponderEvent.accepted, ho step rfl] at haccepted
    · cases haccepted
    · cases haccepted
  | @granted v random q hverify hq hv hmechanism =>
    obtain ⟨e, hlast, -⟩ := h.pending q hq
    have hanswered : AnsweredBy (t ++ [(.answer v random, .ok { done := true, accepted := true })])
        e q v { done := true, accepted := true } [] :=
      ⟨t, random, rfl, hv, hlast, rfl, List.forall_mem_nil _⟩
    refine ⟨by simp [hverify], by simp [hverify], rfl, e, q, v, _, [], hanswered, ?_⟩
    simp [hmechanism]
  | accepted hstate =>
    obtain ⟨b, x, hash, hstarted, hhash, hproved⟩ := h.proved hstate
    obtain ⟨e, q, v, step, hanswered, hexchanged⟩ := hstarted.answered
    refine ⟨by simp [hstate], by simp [hstate], rfl, e, q, v, step, _, hanswered.snoc rfl, ?_⟩
    intro hash' hhash'
    obtain rfl : hash = hash' := Option.some.inj (hhash.symm.trans hhash')
    exact ⟨x, hexchanged, hproved.mono (List.subset_append_left _ _)⟩
  | _ => cases haccepted

theorem sound_converse {t before after : List ResponderEvent} {e : ResponderEvent}
    (h : Trail crypto t r)
    (hsplit : converse crypto calls r = before ++ e :: after) (haccepted : e.accepted) :
  Sound crypto r (t ++ before) e after
  := by
  induction before generalizing t r calls with
  | nil =>
    cases calls with
    | nil => cases hsplit
    | cons c calls =>
      obtain ⟨rfl, rfl⟩ := List.cons.inj hsplit
      have hmove := Responder.move_call crypto h.sane c
      obtain ⟨hdone, hdummy, hdone', hgranted⟩ := h.grant hmove haccepted
      have hafter : ∀ e' ∈ converse crypto calls (r.call crypto c).2,
          ResponderEvent.accepted e' = false := converse_done (hmove.sane h.sane) hdone'
      rw [List.append_nil]
      refine ⟨?_, fun e' hmem => (h.unaccepted hdone e' hmem).2, h.undenied hdone hdummy, hgranted⟩
      intro e' hmem
      rcases List.mem_append.mp hmem with hmem | hmem
      · exact (h.unaccepted hdone e' hmem).1
      · exact hafter e' hmem
  | cons e' before ih =>
    cases calls with
    | nil => cases hsplit
    | cons c calls =>
      obtain ⟨rfl, hrest⟩ := List.cons.inj hsplit
      have hmove := Responder.move_call crypto h.sane c
      obtain ⟨hmechanism, hcfg⟩ := hmove.mechanism
      have hsound := ih (h.step hmove) hrest
      rw [List.append_assoc] at hsound
      obtain ⟨honce, hunaborted, hundenied, hgranted⟩ := hsound
      rw [hmechanism, Responder.binding, hmechanism, hcfg] at hgranted
      exact ⟨honce, hunaborted, hundenied, hgranted⟩

end Acceptance

theorem newResponder_some (h : newResponder name cfg = some r) :
  ∃ mechanism, r = { mechanism := mechanism, cfg := cfg }
  := by
  obtain ⟨mechanism, -, h⟩ := Option.bind_eq_some_iff.mp h
  obtain ⟨-, -, h⟩ := Option.bind_eq_some_iff.mp h
  exact ⟨mechanism, (Option.some.inj h).symm⟩

theorem trail_new (crypto : ServerCrypto) (h : newResponder name cfg = some r) :
  Trail crypto [] r
  := by
  obtain ⟨mechanism, rfl⟩ := newResponder_some h
  constructor
  · exact ⟨rfl, by simp, by simp⟩
  · intro _
    apply List.forall_mem_nil
  · intro _ _
    apply List.forall_mem_nil
  · simp
  · simp
  · simp

/-- Every acceptance of every conversation is sound, and calls out of order have no part in
it. -/
theorem responder_sound (crypto : ServerCrypto) (name : Bytes) (cfg : ResponderConfig)
    (r : Responder) (hnew : newResponder name cfg = some r) (calls : List ResponderCall) :
  (∀ before e after, converse crypto calls r = before ++ e :: after → e.accepted →
    Sound crypto r before e after) ∧
  converse crypto ((inOrder (converse crypto calls r)).map (·.1)) r
    = inOrder (converse crypto calls r)
  := by
  have htrail := trail_new crypto hnew
  constructor
  · intro before e after hsplit haccepted
    exact sound_converse htrail hsplit haccepted
  · exact converse_inOrder calls htrail.sane

/-- A SCRAM exchange with a call out of order. -/
def scramCalls : List ResponderCall :=
  [ .start (some (ascii "n,,n=u,r=a")) none,
    .next (ascii "x"),
    .answer ⟨true, none, some ⟨ascii "s", 1, ascii "k", ascii "k"⟩⟩ (some (ascii "b")),
    .next (ascii "c=biws,r=ab,p=k"),
    .next [] ]

theorem responder_sound_scram :
  ∃ r before e, newResponder (ascii "scram-sha-256") {} = some r ∧
    converse .plain scramCalls r = before ++ [e] ∧ e.accepted ∧ Sound .plain r before e []
  := by
  have hnew : newResponder (ascii "scram-sha-256") {}
      = some { mechanism := .scram .sha256 false, cfg := {} } := by decide +kernel
  let t := converse .plain scramCalls { mechanism := .scram .sha256 false, cfg := {} }
  have hsplit : t = t.take 4 ++ [(.next [], .ok { done := true, accepted := true })] := by
    decide +kernel
  exact ⟨_, t.take 4, _, hnew, hsplit, rfl,
    (responder_sound .plain _ _ _ hnew scramCalls).1 _ _ _ hsplit rfl⟩

end GoSmtp.Sasl
