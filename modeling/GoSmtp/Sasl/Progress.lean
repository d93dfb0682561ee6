import GoSmtp.Sasl.Soundness

/-!
# The responder makes progress

A responder that is called in order asks the client, asks the backend or ends the exchange.  If it
does not, the message of the client is at fault: the errors that the responder has of its own come
from missing random octets, and from keys of the backend that do not fit the mechanism.
-/

namespace GoSmtp.Sasl

variable {random : Option Bytes} {q : VerificationRequest}

/-- A message of the client is awaited. -/
def ResponderState.awaits (state : ResponderState) : Bool :=
  state ∉ [ResponderState.new, .verify, .done]

/-- The step fits the state that the responder is in after it. -/
inductive Poised : ResponderStep → Responder → Prop where
  | asks {r : Responder} (challenge : Bytes) (h : r.state.awaits) :
      Poised (Responder.challengeStep challenge) r
  | raises {r : Responder} {q : VerificationRequest} (hstate : r.state = .verify)
      (hrequest : r.request = some q) (hmechanism : q.mechanism = r.mechanism) :
      Poised { verification := some q } r
  | ends {r : Responder} (accepted : Bool) : Poised { done := true, accepted := accepted } r

/-- The call leads to a step that fits, unless the client is at fault. -/
def Proceeds (m : Respond ResponderStep) (r : Responder) : Prop :=
  wp m Poised (fun e _ => e = some .payload ∨ e = some .aborted) r

namespace Responder

variable {crypto : ServerCrypto} {r : Responder}

theorem proceeds_fail :
  Proceeds (Exec.fail .payload) r
  := .inl rfl

theorem proceeds_ask {state : ResponderState} (h : state.awaits) (challenge : Bytes) :
  Proceeds (ask state challenge) r
  := .asks challenge h

theorem proceeds_finish (accepted : Bool) :
  Proceeds (finish accepted) r
  := .ends accepted

theorem proceeds_verify (h : q.mechanism = r.mechanism) :
  Proceeds (verify q) r
  := .raises rfl rfl h

theorem proceeds_verifyCredentials (credentials : Credentials) :
  Proceeds (verifyCredentials credentials) r
  := proceeds_verify rfl

theorem proceeds_expect {α : Type} {x : Option α} {k : α → Respond ResponderStep}
    (hk : ∀ a, x = some a → Proceeds (k a) r) :
  Proceeds (expect x >>= k) r
  := by
  rw [Proceeds, wp_bind]
  cases x with
  | none => exact proceeds_fail (r := r)
  | some a => exact hk a rfl

theorem proceeds_plain (payload : Bytes) :
  Proceeds (plain payload) r
  := by
  rw [plain]
  split
  · rw [Proceeds, wp_ite]
    exact ⟨fun _ => proceeds_fail (r := r), fun _ => proceeds_verifyCredentials _⟩
  · exact proceeds_fail

theorem proceeds_oauth (payload : Bytes) :
  Proceeds (oauth payload) r
  := by
  rw [oauth, Proceeds, wp_bind, wp_read]
  exact proceeds_expect fun credentials _ => proceeds_verifyCredentials credentials

theorem proceeds_scramFirst (payload : Bytes) :
  Proceeds (scramFirst payload) r
  := by
  rw [scramFirst, Proceeds, wp_bind, wp_read]
  apply proceeds_expect
  rintro ⟨gs2, bare, authzid⟩ _
  apply proceeds_expect
  rintro ⟨nonce, username⟩ _
  exact .raises rfl rfl rfl

theorem proceeds_cram (hrandom : random.isSome) :
  Proceeds (do
    let challenge ← cramChallenge crypto random
    Exec.update fun r => { r with challenge := challenge }
    ask .cram challenge) r
  := by
  obtain ⟨nonce, rfl⟩ := Option.isSome_iff_exists.mp hrandom
  rw [Proceeds, wp_bind, cramChallenge, wp_bind, wp_read]
  rcases r.cfg.cramChallenge with _ | challenge
  · exact .asks _ rfl
  · exact .asks _ rfl

theorem proceeds_begin {initial : Option Bytes} (hrandom : random.isSome) :
  Proceeds (begin crypto random initial) r
  := by
  rw [begin, Proceeds, wp_bind, wp_read]
  split
  · exact proceeds_ask rfl _
  · exact proceeds_plain _
  · exact proceeds_ask rfl _
  · rw [wp_bind, wp_update, wp_ite]
    exact ⟨fun _ => .inl rfl, fun _ => .asks _ rfl⟩
  · exact proceeds_fail (r := r)
  · exact proceeds_cram hrandom
  · exact proceeds_ask rfl _
  · exact proceeds_verifyCredentials _
  · exact proceeds_ask rfl _
  · exact proceeds_ask rfl _
  · exact proceeds_oauth _
  · exact proceeds_oauth _
  · exact proceeds_ask rfl _
  · exact proceeds_scramFirst _

theorem proceeds_start (hnew : r.state = .new) (hrandom : random.isSome) (initial : Option Bytes) :
  Proceeds (start crypto random initial) r
  := by
  rw [start, Proceeds, wp_bind, wp_read, wp_ite]
  refine ⟨fun hne => absurd hnew hne, fun _ => ?_⟩
  rw [wp_ite]
  refine ⟨fun _ => .inl rfl, fun _ => ?_⟩
  rw [wp_ite]
  exact ⟨fun _ => .inr rfl, fun _ => proceeds_begin hrandom⟩

theorem proceeds_scramProof (hsane : r.Sane) (hstate : r.state = .scramProof) (payload : Bytes) :
  Proceeds (scramProof crypto payload) r
  := by
  obtain ⟨keys, hkeys⟩ := Option.ne_none_iff_exists'.mp (hsane.keys hstate)
  have hfits := hsane.fits
  rw [hstate] at hfits
  obtain ⟨hash, hhash⟩ := Option.isSome_iff_exists.mp hfits
  rw [scramProof, Proceeds, wp_bind, wp_read]
  apply proceeds_expect
  rintro ⟨withoutProof, channel, proof64⟩ _
  rw [Proceeds, wp_ite]
  refine ⟨fun _ => proceeds_finish _, fun _ => ?_⟩
  apply proceeds_expect
  intro proof _
  rw [Proceeds, wp_bind, hashFunction, wp_bind, wp_read]
  simp only [hhash, hkeys]
  rw [wp_pure, wp_ite]
  refine ⟨fun _ => .inl rfl, fun _ => ?_⟩
  rw [wp_ite]
  exact ⟨fun _ => proceeds_finish _, fun _ => proceeds_ask rfl _⟩

theorem proceeds_next (hsane : r.Sane) (hawaits : r.state.awaits) (response : Bytes) :
  Proceeds (next crypto response) r
  := by
  rw [next, Proceeds, wp_bind, wp_read, wp_ite]
  refine ⟨fun _ => .inr rfl, fun _ => ?_⟩
  rw [wp_ite]
  refine ⟨fun _ => .inl rfl, fun _ => ?_⟩
  rcases hstate : r.state <;> rw [hstate] at hawaits <;> dsimp only
  case plain => exact proceeds_plain response
  case loginUser =>
      rw [wp_ite]
      exact ⟨fun _ => .inl rfl, fun _ => .asks _ rfl⟩
  case loginPassword => exact proceeds_verifyCredentials _
  case cram =>
      rw [wp_ite]
      exact ⟨fun _ => .inl rfl, fun _ => .raises rfl rfl rfl⟩
  case external => exact proceeds_verifyCredentials _
  case oauth => exact proceeds_oauth response
  case oauthDummy =>
      rw [wp_ite]
      exact ⟨fun _ => .inl rfl, fun _ => proceeds_finish _⟩
  case scramFirst => exact proceeds_scramFirst response
  case scramProof => exact proceeds_scramProof hsane hstate response
  case scramEmpty =>
      rw [wp_ite]
      exact ⟨fun _ => .inl rfl, fun _ => proceeds_finish _⟩
  all_goals cases hawaits

/-- The answer to a request for keys carries keys that fit. -/
def Fitting (crypto : ServerCrypto) (q : VerificationRequest) (v : Verification) : Prop :=
  q.kind = .scramKeys → v.accepted = true →
    ∃ keys, v.keys = some keys ∧ ∀ hash ∈ q.mechanism.newHash, validKeys (crypto.size hash) keys

theorem proceeds_scramServerFirst (hrandom : random.isSome) {keys : ScramKeys} {hash : ScramHash}
    (hhash : r.mechanism.newHash = some hash) (hkeys : validKeys (crypto.size hash) keys) :
  Proceeds (scramServerFirst crypto random keys) r
  := by
  obtain ⟨octets, rfl⟩ := Option.isSome_iff_exists.mp hrandom
  rw [scramServerFirst, Proceeds, wp_bind, hashFunction, wp_bind, wp_read]
  simp only [hhash]
  rw [wp_pure, wp_ite]
  refine ⟨fun hbad => by simp [hkeys] at hbad, fun _ => ?_⟩
  rw [wp_bind, serverNonce.eq_def, wp_bind, wp_read, wp_ite]
  exact ⟨fun _ => .asks _ rfl, fun _ => .asks _ rfl⟩

theorem proceeds_continueWith (hsane : r.Sane) (hstate : r.state = .verify)
    (hq : r.request = some q) (hmechanism : q.mechanism = r.mechanism) {v : Verification}
    (hrandom : random.isSome) (hv : Fitting crypto q v) :
  Proceeds (continueWith crypto random v) r
  := by
  rw [continueWith, Proceeds, wp_bind, wp_read]
  simp only [hstate, hq]
  rw [wp_bind, wp_update, answered, wp_bind, wp_read, wp_ite]
  constructor
  · intro hkind
    rw [wp_ite]
    refine ⟨fun _ => proceeds_finish _, fun haccepted => ?_⟩
    obtain ⟨keys, hkeys, hvalid⟩ := hv hkind (by simpa using haccepted)
    obtain ⟨hash, hhash⟩ := Option.isSome_iff_exists.mp ((hsane.request q hq).mp hkind)
    rw [hkeys]
    exact proceeds_scramServerFirst hrandom hhash (hvalid hash (by rw [hmechanism]; exact hhash))
  · intro _
    split
    · exact proceeds_finish _
    · rw [wp_ite]
      refine ⟨fun _ => ?_, fun _ => proceeds_finish _⟩
      rw [wp_ite]
      exact ⟨fun _ => .inl rfl, fun _ => proceeds_ask rfl _⟩

end Responder

end GoSmtp.Sasl
