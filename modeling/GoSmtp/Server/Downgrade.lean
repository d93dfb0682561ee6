import GoSmtp.Server.AuthReplies

/-!
# SCRAM without channel binding

When a SCRAM exchange without channel binding authenticates the session.  The client may say that it
supports channel binding and believes the server does not; the exchange does not depend on whether
that is true.
-/

namespace GoSmtp.Server

open Sasl (ScramHash ScramKeys Verification VerificationRequest Responder ResponderStep
  comma parseSCRAMClientFirst)

variable {φ ω : Type}
variable {authoritative : Option AuthResult} {random : Option Bytes} {s' : Session φ ω}
  {response : Bytes} {q : VerificationRequest} {v : Verification}
variable {w world : ω} {n : Nat} {crypto : Sasl.ServerCrypto} {step : ResponderStep}
  {r' : Responder} {payload text : Bytes}

namespace Session

variable {env : Env φ ω} {s : Session φ ω}

/-! ### What a dialog comes to -/

/-- The dialog authenticates the session. -/
def Authenticates (env : Env φ ω) (dialog : AuthDialog ω) (s : Session φ ω) : Prop :=
  (runDialog env dialog s).2.state.authenticated = true

/-- A session that can be authenticated. -/
structure Authenticable (s : Session φ ω) : Prop where
  ready : s.state.phase = .ready
  anonymous : s.state.authenticated = false

theorem state_reply (env : Env φ ω) (r : WireReply) :
  Exec.Keeps state (writeReply env r)
  := keeps_writeReply (fun _ _ => rfl) (fun _ _ => rfl) env r

theorem listen_state (env : Env φ ω) (s : Session φ ω) (text : Bytes) (world : ω) :
  (listen env text world s).2.state = s.state
  := by
  apply wp_state (I := fun s' : Session φ ω => s'.state = s.state)
  rw [listen, wp_bind, wp_update, wp_bind]
  refine wp_writeReply (fun w => ?_) fun _ _ => rfl
  rw [wp_bind]
  refine wp_transport (fun w => ?_) fun _ _ => rfl
  rw [wp_bind]
  exact wp_await (fun w => rfl) fun _ _ => rfl

namespace Authenticable

variable (h : s.Authenticable)
include h

theorem of_state (heq : s'.state = s.state) :
  s'.Authenticable
  := ⟨heq ▸ h.ready, heq ▸ h.anonymous⟩

theorem called (c : AuthCall) (world : ω) :
  (s.called c world).Authenticable
  := ⟨h.ready, h.anonymous⟩

theorem heard {o : Outcome (SessionError φ) (Except (CommandError φ) Bytes)}
    (hlisten : listen env text world s = (o, s')) :
  s'.Authenticable
  := by
  apply h.of_state
  rw [← listen_state env s text world, hlisten]

theorem challenge {k : Bytes → ω → AuthDialog ω} :
  Authenticates env (.challenge text world k) s ↔
    ∃ line s', listen env text world s = (.ok (.ok line), s') ∧ s'.Authenticable ∧
      Authenticates env (k line s'.world) s'
  := by
  have hquiet {s' : Session φ ω} (heq : s'.state = s.state) {m : Call φ ω CommandAction}
      (hm : Exec.Keeps state m) : ¬ (m s').2.state.authenticated = true := by
    rw [show (m s').2.state = s'.state from hm s', heq, h.anonymous]
    simp
  have hstate : (listen env text world s).2.state = s.state := listen_state env s text world
  rw [Authenticates, runDialog_challenge]
  simp only [Bind.bind]
  rcases hlisten : listen env text world s with ⟨(e | line) | e | _, s'⟩ <;>
    rw [hlisten] at hstate <;> change s'.state = s.state at hstate
  · refine iff_of_false ?_ (by simp)
    cases e with
    | lineTooLong => exact hquiet hstate ((state_reply env _).bind fun _ => .pure _)
    | _ => exact hquiet hstate (.fail _)
  · constructor
    · exact fun hauth => ⟨line, s', rfl, h.of_state hstate, hauth⟩
    · rintro ⟨_, _, ⟨⟩, -, hauth⟩
      exact hauth
  · exact iff_of_false (hquiet hstate (.fail e)) (by simp)
  · exact iff_of_false (hquiet hstate (m := fun s => (.panic, s)) fun _ => rfl) (by simp)

theorem accepted :
  Authenticates env (.accepted world) s
  := by
  have hmem : s.state.phase ∈ (phaseTransitions .authenticated).1 := by
    simp [h.ready, phaseTransitions]
  apply wp_state (I := fun s' : Session φ ω => s'.state.authenticated = true)
  rw [runDialog, wp_bind, wp_update, wp_bind]
  refine (wp_transition_of_mem ?_).mpr ?_
  · exact hmem
  · rw [wp_bind, wp_record, wp_bind]
    exact wp_writeReply (fun _ => rfl) fun _ _ => rfl

theorem refused {r : WireReply} :
  ¬ Authenticates env (.refused r world) s
  := by
  have hstate : (runDialog env (.refused r world) s).2.state = s.state :=
    ((state_reply env r).bind fun _ => .pure sync) { s with world := world }
  rw [Authenticates, hstate, h.anonymous]
  simp

theorem failed :
  ¬ Authenticates env (.failed world) s
  := by
  change ¬ s.state.authenticated = true
  simp [h.anonymous]

theorem panic :
  ¬ Authenticates env (.panic world) s
  := by
  change ¬ s.state.authenticated = true
  simp [h.anonymous]

theorem follow {x : Outcome Sasl.ResponderError ResponderStep × Responder}
    {k : ResponderStep → Responder → AuthDialog ω} :
  Authenticates env (AuthBackend.follow x w k) s ↔
    ∃ step r, x = (.ok step, r) ∧ Authenticates env (k step r) s
  := by
  rcases x with ⟨step | e | _, r⟩
  · constructor
    · exact fun hauth => ⟨step, r, rfl, hauth⟩
    · rintro ⟨_, _, ⟨⟩, hauth⟩
      exact hauth
  · refine iff_of_false ?_ (by simp)
    cases e with
    | aborted => exact h.refused
    | payload => exact h.refused
    | _ => exact h.failed
  · exact iff_of_false h.panic (by simp)

end Authenticable

/-! ### The messages of SCRAM -/

/-- The last response is empty, and the backend takes note of the success. -/
def Commits (env : Env φ ω) (b : AuthBackend ω) (text : Bytes) (result : AuthResult) (w : ω)
    (s : Session φ ω) : Prop :=
  ∃ line s', listen env text w s = (.ok (.ok line), s') ∧ b.decodeSASLResponse line = some [] ∧
    ∃ commit w', b.commitAuth = some commit ∧ commit result s'.world = (false, w')

/-- The message over which the client and the server prove their knowledge. -/
def authMessage (bare serverFirst withoutProof : Bytes) : Bytes :=
  bare ++ comma :: serverFirst ++ comma :: withoutProof

/-- The client-final message proves the knowledge of the keys. -/
structure Convinces (crypto : Sasl.ServerCrypto) (hash : ScramHash)
    (gs2 bare nonce serverFirst : Bytes) (keys : ScramKeys)
    (payload withoutProof proof64 proof : Bytes) : Prop where
  parse : Responder.parseClientFinal crypto nonce payload = some (withoutProof, gs2, proof64)
  decode : crypto.decode64 proof64 = some proof
  length : proof.length = crypto.size hash
  proves : Responder.provesKey crypto hash keys.storedKey proof
    (authMessage bare serverFirst withoutProof) = true

/-- The message that proves the knowledge of the server. -/
def serverFinal (crypto : Sasl.ServerCrypto) (hash : ScramHash) (keys : ScramKeys)
    (message : Bytes) : Bytes :=
  ascii "v=" ++ crypto.encode64 (crypto.hmac hash keys.serverKey message)

/-- The client proves that it knows the keys, and then the last response follows. -/
def ProvesKeys (env : Env φ ω) (b : AuthBackend ω) (hash : ScramHash) (gs2 bare nonce : Bytes)
    (keys : ScramKeys) (result : AuthResult) (w : ω) (s : Session φ ω) : Prop :=
  let serverFirst := Responder.serverFirstMessage b.crypto nonce keys
  ∃ line s' final, listen env (b.crypto.encode64 serverFirst) w s = (.ok (.ok line), s') ∧
    b.decodeSASLResponse line = some final ∧
    ∃ withoutProof proof64 proof,
      Convinces b.crypto hash gs2 bare nonce serverFirst keys final withoutProof proof64 proof ∧
      Commits env b (b.crypto.encode64 (serverFinal b.crypto hash keys
        (authMessage bare serverFirst withoutProof))) result s'.world s'

/-- The request for keys that a client-first message leads to. -/
def keysRequest (hash : ScramHash) (name authzid : Bytes) : VerificationRequest where
  kind := .scramKeys
  mechanism := .scram hash false
  credentials := { authenticationID := name, authorizationID := authzid }

/-- The client-first message names a user, the backend has keys for that user, and the client proves
that it knows them. -/
def ScramSucceeds (env : Env φ ω) (b : AuthBackend ω) (hash : ScramHash) (first : Bytes) (w : ω)
    (s : Session φ ω) : Prop :=
  ∃ gs2 bare authzid nonce name, parseSCRAMClientFirst first false = some (gs2, bare, authzid) ∧
    Responder.parseFirstFields bare = some (nonce, name) ∧
    ∃ v result w' keys octets,
      b.verifyAUTH (keysRequest hash name authzid) w = (.ok (v, result), w') ∧
      v.accepted = true ∧ v.keys = some keys ∧
      Responder.validKeys (b.crypto.size hash) keys = true ∧ (b.random w').1 = some octets ∧
      ProvesKeys env b hash gs2 bare (nonce ++ b.crypto.rawEncode64 octets) keys result
        (b.random w').2 (s.called (.verify (some result)) (b.random w').2)

/-! ### When an exchange succeeds -/

section Exchange

variable {b : AuthBackend ω} {hash : ScramHash} {r : Responder} {result : AuthResult}

theorem authenticates_finalize (h : s.Authenticable) (hresult : result.failure = none) :
  Authenticates env (b.finalizeAuthentication (some result) w) s ↔
    ∃ commit w', b.commitAuth = some commit ∧ commit result w = (false, w')
  := by
  simp only [AuthBackend.finalizeAuthentication, hresult, Option.isSome_none, Bool.false_eq_true,
    if_false]
  cases b.commitAuth with
  | none => exact iff_of_false h.refused (by simp)
  | some commit =>
    rcases hcommit : commit result w with ⟨_ | _, w'⟩ <;> simp only [hcommit]
    · apply iff_of_true _ ⟨commit, w', rfl, hcommit⟩
      exact (h.called (.commit result) w').accepted
    · apply iff_of_false _ (by simp [hcommit])
      have hpanic : ¬ Authenticates env (.panic w') (s.called (.commit result) w') :=
        (h.called (.commit result) w').panic
      exact hpanic

theorem authenticates_challenge (h : s.Authenticable) :
  Authenticates env (b.loop (n + 1) (Responder.challengeStep text) r authoritative w) s ↔
    ∃ line s' response, listen env (b.crypto.encode64 text) w s = (.ok (.ok line), s') ∧
      b.decodeSASLResponse line = some response ∧ s'.Authenticable ∧
      ∃ step r', Responder.next b.crypto response r = (.ok step, r') ∧
        Authenticates env (b.loop n step r' authoritative s'.world) s'
  := by
  refine h.challenge.trans ?_
  constructor
  · rintro ⟨line, s', hlisten, h', hauth⟩
    cases hdecode : b.decodeSASLResponse line with
    | none =>
      rw [hdecode] at hauth
      exact absurd hauth h'.failed
    | some response =>
      rw [hdecode] at hauth
      exact ⟨line, s', response, hlisten, hdecode, h', h'.follow.mp hauth⟩
  · rintro ⟨line, s', response, hlisten, hdecode, h', hnext⟩
    use line, s', hlisten, h'
    rw [hdecode]
    exact h'.follow.mpr hnext

theorem decodeSASLResponse_length {line : Bytes} (h : b.decodeSASLResponse line = some response) :
  response.length ≤ Sasl.maxResponderPayload
  := by
  rw [AuthBackend.decodeSASLResponse] at h
  split at h
  · cases h
    decide
  · split at h
    · cases h
      decide
    · exact of_decide_eq_true (Option.filter_eq_some_iff.mp h).2

theorem next_scramEmpty (hstate : r.state = .scramEmpty) :
  Responder.next crypto response r = (.ok step, r') ↔
    response = [] ∧ step = { done := true, accepted := true } ∧ r' = { r with state := .done }
  := by
  rw [Responder.next, Exec.read_bind, hstate]
  by_cases habort : response = Responder.abort
  · subst habort
    exact iff_of_false (by rintro ⟨⟩) fun h => by cases h.1
  · rw [if_neg habort]
    by_cases hlong : response.length > Sasl.maxResponderPayload
    · rw [if_pos hlong]
      apply iff_of_false (by rintro ⟨⟩)
      rintro ⟨rfl, -⟩
      cases hlong
    · rw [if_neg hlong]
      cases response with
      | nil =>
        simp [Responder.finish, Responder.setState, Exec.update, Bind.bind, Pure.pure, eq_comm]
      | cons b response => exact iff_of_false (by rintro ⟨⟩) (by simp)

theorem authenticates_last (h : s.Authenticable) (hresult : result.failure = none)
    (hstate : r.state = .scramEmpty) :
  Authenticates env (b.loop (n + 2) (Responder.challengeStep text) r (some result) w) s ↔
    Commits env b (b.crypto.encode64 text) result w s
  := by
  rw [authenticates_challenge h]
  constructor
  · rintro ⟨line, s', response, hlisten, hdecode, h', step, r', hnext, hauth⟩
    obtain ⟨rfl, rfl, rfl⟩ := (next_scramEmpty hstate).mp hnext
    exact ⟨line, s', hlisten, hdecode, (authenticates_finalize h' hresult).mp hauth⟩
  · rintro ⟨line, s', hlisten, hdecode, hcommit⟩
    have h' := h.heard hlisten
    refine ⟨line, s', [], hlisten, hdecode, h', _, _, (next_scramEmpty hstate).mpr ⟨rfl, rfl, rfl⟩, ?_⟩
    exact (authenticates_finalize h' hresult).mpr hcommit

theorem wp_expect {α β : Type} {x : Option α} {k : α → Sasl.Respond β} {Q : β → Responder → Prop}
    (hk : ∀ a, x = some a → wp (k a) Q (fun _ _ => True) r) :
  wp (Responder.expect x >>= k) Q (fun _ _ => True) r
  := by
  rw [wp_bind]
  cases x with
  | none => trivial
  | some a => exact hk a rfl

section Proof

variable {crypto : Sasl.ServerCrypto} {payload : Bytes} {keys : ScramKeys}
  (hstate : r.state = .scramProof) (hmechanism : r.mechanism = .scram hash false)
  (hkeys : r.keys = some keys)
include hstate hmechanism hkeys

theorem next_convinced {withoutProof proof64 proof : Bytes}
    (hpayload : payload.length ≤ Sasl.maxResponderPayload)
    (h : Convinces crypto hash r.gs2Header r.clientFirst r.combinedNonce r.serverFirst keys payload
      withoutProof proof64 proof) :
  Responder.next crypto payload r =
    (.ok (Responder.challengeStep (serverFinal crypto hash keys
      (authMessage r.clientFirst r.serverFirst withoutProof))),
      { r with state := .scramEmpty })
  := by
  have habort : payload ≠ Responder.abort := by
    rintro rfl
    cases h.parse
  rw [Responder.next, Exec.read_bind, if_neg habort, if_neg (Nat.not_lt.mpr hpayload), hstate]
  have hproves := h.proves
  simp only [authMessage, List.append_assoc, List.cons_append] at hproves
  simp [Responder.scramProof, Responder.expect, Responder.hashFunction, Responder.ask,
    Responder.setState, Bind.bind, Pure.pure, Exec.read, Exec.update, h.parse, h.decode, h.length,
    hmechanism, hkeys, Sasl.ServerMechanism.plus, Sasl.ServerMechanism.newHash, hproves, serverFinal,
    authMessage]

theorem next_scramProof (h : Responder.next crypto payload r = (.ok step, r')) :
  step = { done := true, accepted := false } ∨
    ∃ withoutProof proof64 proof, Convinces crypto hash r.gs2Header r.clientFirst r.combinedNonce
      r.serverFirst keys payload withoutProof proof64 proof
  := by
  have hwp : wp (Responder.next crypto payload)
      (fun step _ => step = { done := true, accepted := false } ∨ ∃ withoutProof proof64 proof,
        Convinces crypto hash r.gs2Header r.clientFirst r.combinedNonce r.serverFirst keys payload
          withoutProof proof64 proof) (fun _ _ => True) r := by
    rw [Responder.next, wp_bind, wp_read, wp_ite]
    refine ⟨fun _ => trivial, fun _ => ?_⟩
    rw [wp_ite]
    refine ⟨fun _ => trivial, fun _ => ?_⟩
    rw [hstate, Responder.scramProof, wp_bind, wp_read]
    apply wp_expect
    rintro ⟨withoutProof, channel, proof64⟩ hparse
    rw [wp_ite]
    refine ⟨fun _ => .inl rfl, fun hchannel => ?_⟩
    apply wp_expect
    intro proof hproof
    rw [wp_bind, Responder.hashFunction, wp_bind, wp_read]
    simp only [hmechanism, hkeys, Sasl.ServerMechanism.newHash]
    rw [wp_pure, wp_ite]
    refine ⟨fun _ => trivial, fun hlength => ?_⟩
    rw [wp_ite]
    refine ⟨fun _ => .inl rfl, fun hproves => ?_⟩
    have heq : channel = r.gs2Header := by
      simpa [hmechanism, Sasl.ServerMechanism.plus] using hchannel
    subst heq
    exact .inr ⟨withoutProof, proof64, proof, hparse, hproof, not_not.mp hlength,
      by simpa [authMessage] using hproves⟩
  rw [wp, h] at hwp
  exact hwp

end Proof

theorem not_authenticates_done (h : s.Authenticable) :
  ¬ Authenticates env (b.loop (n + 1) { done := true, accepted := false } r authoritative w) s
  := h.refused

theorem authenticates_proof (h : s.Authenticable) (hresult : result.failure = none)
    {keys : ScramKeys} (hstate : r.state = .scramProof)
    (hmechanism : r.mechanism = .scram hash false) (hkeys : r.keys = some keys)
    (hfirst : r.serverFirst = Responder.serverFirstMessage b.crypto r.combinedNonce keys) :
  Authenticates env (b.loop (n + 3) (Responder.challengeStep r.serverFirst) r (some result) w) s ↔
    ProvesKeys env b hash r.gs2Header r.clientFirst r.combinedNonce keys result w s
  := by
  rw [authenticates_challenge h, ProvesKeys, ← hfirst]
  constructor
  · rintro ⟨line, s', final, hlisten, hdecode, h', step, r', hnext, hauth⟩
    rcases next_scramProof hstate hmechanism hkeys hnext with rfl | ⟨withoutProof, proof64, proof, hproof⟩
    · exact absurd hauth (not_authenticates_done h')
    · have hlength := decodeSASLResponse_length hdecode
      rw [next_convinced hstate hmechanism hkeys hlength hproof] at hnext
      cases hnext
      exact ⟨line, s', final, hlisten, hdecode, withoutProof, proof64, proof, hproof,
        (authenticates_last h' hresult rfl).mp hauth⟩
  · rintro ⟨line, s', final, hlisten, hdecode, withoutProof, proof64, proof, hproof, hcommits⟩
    have h' := h.heard hlisten
    have hlength := decodeSASLResponse_length hdecode
    refine ⟨line, s', final, hlisten, hdecode, h', _, _,
      next_convinced hstate hmechanism hkeys hlength hproof, ?_⟩
    exact (authenticates_last h' hresult rfl).mpr hcommits

/-- The responder that has sent its server-first message. -/
def challenged (crypto : Sasl.ServerCrypto) (keys : ScramKeys) (octets : Bytes) (r : Responder) :
    Responder :=
  let nonce := r.combinedNonce ++ crypto.rawEncode64 octets
  { r with request := none, combinedNonce := nonce, keys := some keys, state := .scramProof
           serverFirst := Responder.serverFirstMessage crypto nonce keys }

theorem authenticates_serverFirst (h : s.Authenticable) (hresult : result.failure = none)
    (hmechanism : r.mechanism = .scram hash false) (keys : ScramKeys) (octets : Bytes) :
  Authenticates env (b.loop (n + 3)
      (Responder.challengeStep (challenged b.crypto keys octets r).serverFirst)
      (challenged b.crypto keys octets r) (some result) w) s ↔
    ProvesKeys env b hash r.gs2Header r.clientFirst (r.combinedNonce ++ b.crypto.rawEncode64 octets)
      keys result w s
  := authenticates_proof (r := challenged b.crypto keys octets r) h hresult rfl hmechanism rfl rfl

theorem continueWith_keys (hstate : r.state = .verify) (hrequest : r.request = some q)
    (hkind : q.kind = .scramKeys) (hmechanism : r.mechanism = .scram hash false)
    (hnonce : r.cfg.testNonce = []) (haccepted : v.accepted = true) :
  Responder.continueWith crypto random v r = (.ok step, r') ↔
    ∃ keys octets, v.keys = some keys ∧ Responder.validKeys (crypto.size hash) keys = true ∧
      random = some octets ∧
      step = Responder.challengeStep (challenged crypto keys octets r).serverFirst ∧
      r' = challenged crypto keys octets r
  := by
  rw [Responder.continueWith, Exec.read_bind, hstate, hrequest]
  cases hkeys : v.keys with
  | none =>
    simp [Responder.answered, hkind, haccepted, hkeys, Bind.bind, Exec.update, Exec.read, Exec.fail]
  | some keys =>
    cases hvalid : Responder.validKeys (crypto.size hash) keys with
    | false =>
      simp [Responder.answered, Responder.scramServerFirst, Responder.hashFunction, hkind,
        haccepted, hkeys, hmechanism, hvalid, Sasl.ServerMechanism.newHash, Bind.bind, Pure.pure,
        Exec.update, Exec.read, Exec.fail]
    | true =>
      cases random with
      | none =>
        simp [Responder.answered, Responder.scramServerFirst, Responder.hashFunction,
          Responder.serverNonce, hkind, haccepted, hkeys, hmechanism, hvalid, hnonce,
          Sasl.ServerMechanism.newHash, Bind.bind, Pure.pure, Exec.update, Exec.read, Exec.fail]
      | some octets =>
        constructor
        · intro heq
          simp [Responder.answered, Responder.scramServerFirst, Responder.hashFunction,
            Responder.serverNonce, Responder.ask, Responder.setState, hkind, haccepted, hkeys,
            hmechanism, hvalid, hnonce, Sasl.ServerMechanism.newHash, Bind.bind, Pure.pure,
            Exec.update, Exec.read] at heq
          exact ⟨keys, octets, rfl, hvalid, rfl, heq.1.symm,
            by simp [← heq.2, hmechanism, challenged]⟩
        · rintro ⟨_, _, ⟨⟩, -, ⟨⟩, rfl, rfl⟩
          simp [Responder.answered, Responder.scramServerFirst, Responder.hashFunction,
            Responder.serverNonce, Responder.ask, Responder.setState, hkind, haccepted, hkeys,
            hmechanism, hvalid, hnonce, Sasl.ServerMechanism.newHash, Bind.bind, Pure.pure,
            Exec.update, Exec.read, challenged]

theorem continueWith_denied (hstate : r.state = .verify) (hrequest : r.request = some q)
    (hkind : q.kind = .scramKeys) (haccepted : v.accepted = false) :
  Responder.continueWith crypto random v r =
    (.ok { done := true, accepted := false }, { r with request := none, state := .done })
  := by
  simp [Responder.continueWith, hstate, hrequest, Responder.answered, hkind, haccepted,
    Responder.finish, Responder.setState, Bind.bind, Pure.pure, Exec.update, Exec.read]

theorem authenticates_keys (h : s.Authenticable) {name authzid : Bytes} (hstate : r.state = .verify)
    (hrequest : r.request = some (keysRequest hash name authzid))
    (hmechanism : r.mechanism = .scram hash false) (hnonce : r.cfg.testNonce = []) :
  Authenticates env (b.loop (n + 4) { verification := some (keysRequest hash name authzid) } r
      authoritative w) s ↔
    ∃ v result w' keys octets, b.verifyAUTH (keysRequest hash name authzid) w = (.ok (v, result), w') ∧
      v.accepted = true ∧ v.keys = some keys ∧
      Responder.validKeys (b.crypto.size hash) keys = true ∧ (b.random w').1 = some octets ∧
      ProvesKeys env b hash r.gs2Header r.clientFirst (r.combinedNonce ++ b.crypto.rawEncode64 octets)
        keys result (b.random w').2 (s.called (.verify (some result)) (b.random w').2)
  := by
  rw [AuthBackend.loop]
  dsimp only
  rcases hverify : b.verifyAUTH (keysRequest hash name authzid) w with ⟨⟨v, result⟩ | e | _, w'⟩
  · have h' := h.called (.verify (some result)) (b.random w').2
    refine h'.follow.trans ?_
    cases haccepted : v.accepted with
    | false =>
      apply iff_of_false
      · rintro ⟨step, r', hcontinue, hauth⟩
        rw [continueWith_denied hstate hrequest rfl haccepted] at hcontinue
        cases hcontinue
        exact not_authenticates_done h' hauth
      · rintro ⟨_, _, _, _, _, ⟨⟩, hv, -⟩
        rw [haccepted] at hv
        cases hv
    | true =>
      have hresult : result.failure = none := b.accepted_verifyAUTH hverify haccepted
      constructor
      · rintro ⟨step, r', hcontinue, hauth⟩
        obtain ⟨keys, octets, hkeys, hvalid, hoctets, rfl, rfl⟩ :=
          (continueWith_keys hstate hrequest rfl hmechanism hnonce haccepted).mp hcontinue
        exact ⟨v, result, w', keys, octets, rfl, haccepted, hkeys, hvalid, hoctets,
          (authenticates_serverFirst h' hresult hmechanism keys octets).mp hauth⟩
      · rintro ⟨_, _, _, keys, octets, ⟨⟩, -, hkeys, hvalid, hoctets, hproves⟩
        exact ⟨_, _, (continueWith_keys hstate hrequest rfl hmechanism hnonce haccepted).mpr
          ⟨keys, octets, hkeys, hvalid, hoctets, rfl, rfl⟩,
          (authenticates_serverFirst h' hresult hmechanism keys octets).mpr hproves⟩
  · refine iff_of_false ?_ (by simp)
    exact fun hauth => (h.called (.verify none) w').refused hauth
  · exact iff_of_false h.panic (by simp)

/-- The responder that has read a client-first message. -/
def introduced (gs2 bare nonce : Bytes) (q : VerificationRequest) (r : Responder) : Responder :=
  { r with gs2Header := gs2, clientFirst := bare, combinedNonce := nonce, request := some q
           state := .verify }

theorem scramFirst_ok (hmechanism : r.mechanism = .scram hash false) :
  Responder.scramFirst payload r = (.ok step, r') ↔
    ∃ gs2 bare authzid nonce name, parseSCRAMClientFirst payload false = some (gs2, bare, authzid) ∧
      Responder.parseFirstFields bare = some (nonce, name) ∧
      step = { verification := some (keysRequest hash name authzid) } ∧
      r' = introduced gs2 bare nonce (keysRequest hash name authzid) r
  := by
  rcases hparse : parseSCRAMClientFirst payload false with _ | ⟨gs2, bare, authzid⟩
  · simp [Responder.scramFirst, Responder.expect, hmechanism, Sasl.ServerMechanism.plus, hparse,
      Bind.bind, Exec.read, Exec.fail]
  · rcases hfields : Responder.parseFirstFields bare with _ | ⟨nonce, name⟩
    · simp [Responder.scramFirst, Responder.expect, hmechanism, Sasl.ServerMechanism.plus, hparse,
        hfields, Bind.bind, Pure.pure, Exec.read, Exec.fail]
    · constructor
      · intro heq
        simp [Responder.scramFirst, Responder.expect, Responder.verify, hmechanism,
          Sasl.ServerMechanism.plus, hparse, hfields, Bind.bind, Pure.pure, Exec.read,
          Exec.update] at heq
        exact ⟨gs2, bare, authzid, nonce, name, rfl, hfields, heq.1.symm,
          by simp [← heq.2, introduced, keysRequest, hmechanism]⟩
      · rintro ⟨_, _, _, _, _, ⟨⟩, hfields', rfl, rfl⟩
        rw [hfields] at hfields'
        cases hfields'
        simp [Responder.scramFirst, Responder.expect, Responder.verify, hmechanism,
          Sasl.ServerMechanism.plus, hparse, hfields, Bind.bind, Pure.pure, Exec.read,
          Exec.update, introduced, keysRequest]

theorem authenticates_first (h : s.Authenticable) (hmechanism : r.mechanism = .scram hash false)
    (hnonce : r.cfg.testNonce = []) {call : Sasl.Respond ResponderStep}
    (hcall : ∀ step r', call r = (.ok step, r') ↔ Responder.scramFirst payload r = (.ok step, r')) :
  Authenticates env (AuthBackend.follow (call r) w fun step r => b.loop (n + 4) step r none w) s ↔
    ScramSucceeds env b hash payload w s
  := by
  rw [h.follow]
  constructor
  · rintro ⟨step, r', hfirst, hauth⟩
    obtain ⟨gs2, bare, authzid, nonce, name, hparse, hfields, rfl, rfl⟩ :=
      (scramFirst_ok hmechanism).mp ((hcall _ _).mp hfirst)
    refine ⟨gs2, bare, authzid, nonce, name, hparse, hfields, ?_⟩
    exact (authenticates_keys (r := introduced gs2 bare nonce _ r) h rfl rfl hmechanism hnonce).mp
      hauth
  · rintro ⟨gs2, bare, authzid, nonce, name, hparse, hfields, hkeys⟩
    refine ⟨_, _, (hcall _ _).mpr ((scramFirst_ok hmechanism).mpr
      ⟨gs2, bare, authzid, nonce, name, hparse, hfields, rfl, rfl⟩), ?_⟩
    exact (authenticates_keys (r := introduced gs2 bare nonce _ r) h rfl rfl hmechanism hnonce).mpr
      hkeys

theorem not_scramFirst_abort (hmechanism : r.mechanism = .scram hash false) :
  ¬ Responder.scramFirst Responder.abort r = (.ok step, r')
  := by
  rw [scramFirst_ok hmechanism]
  rintro ⟨_, _, _, _, _, hparse, -⟩
  cases hparse

theorem start_scramFirst (hmechanism : r.mechanism = .scram hash false) (hstate : r.state = .new)
    (hpayload : payload.length ≤ Sasl.maxResponderPayload) (step : ResponderStep) (r' : Responder) :
  Responder.start crypto random (some payload) r = (.ok step, r') ↔
    Responder.scramFirst payload r = (.ok step, r')
  := by
  rw [Responder.start, Exec.read_bind, hstate, if_neg (by simp), if_neg (by simpa using hpayload)]
  by_cases habort : payload = Responder.abort
  · subst habort
    exact iff_of_false (by rintro ⟨⟩) (not_scramFirst_abort hmechanism)
  · rw [if_neg (by simpa using habort), Responder.begin, Exec.read_bind, hmechanism]

theorem next_scramFirst (hmechanism : r.mechanism = .scram hash false)
    (hstate : r.state = .scramFirst) (hpayload : payload.length ≤ Sasl.maxResponderPayload)
    (step : ResponderStep) (r' : Responder) :
  Responder.next crypto payload r = (.ok step, r') ↔
    Responder.scramFirst payload r = (.ok step, r')
  := by
  rw [Responder.next, Exec.read_bind, hstate]
  by_cases habort : payload = Responder.abort
  · subst habort
    exact iff_of_false (by rintro ⟨⟩) (not_scramFirst_abort hmechanism)
  · rw [if_neg habort, if_neg (by omega)]

/-- The client-first message of an exchange, and the world and the session in which it is there. -/
def clientFirst (env : Env φ ω) (b : AuthBackend ω) (mechanism : Bytes) (initial : Option Bytes)
    (s : Session φ ω) : Option (Bytes × ω × Session φ ω) :=
  match b.channelBinding mechanism s.world with
  | (.error _, _) => none
  | (.ok _, w) =>
    match initial with
    | some text => (b.decodeSASLResponse text).map fun first => (first, (b.random w).2, s)
    | none =>
      match listen env (b.crypto.encode64 []) (b.random w).2 s with
      | (.ok (.ok line), s') => (b.decodeSASLResponse line).map fun first => (first, s'.world, s')
      | _ => none

/-- The exchange authenticates the session if its client-first message is there and leads to
success. -/
theorem authenticates_dialog (h : s.Authenticable) {mechanism : Bytes} {initial : Option Bytes}
    (hmechanism : Sasl.ServerMechanism.ofName mechanism = some (.scram hash false)) :
  Authenticates env (b.dialog mechanism initial s.world) s ↔
    ∃ first w s', clientFirst env b mechanism initial s = some (first, w, s') ∧
      ScramSucceeds env b hash first w s'
  := by
  rw [AuthBackend.dialog, clientFirst]
  rcases b.channelBinding mechanism s.world with ⟨e | binding, w⟩
  · exact iff_of_false h.refused (by simp)
  · let r : Responder :=
      { mechanism := .scram hash false
        cfg := { hostname := b.hostname, channelBinding := binding } }
    have hnew : Sasl.newResponder mechanism
        { hostname := b.hostname, channelBinding := binding } = some r := by
      simp [Sasl.newResponder, hmechanism, Sasl.ServerMechanism.plus, r]
    simp only [hnew]
    cases initial with
    | some text =>
      cases hdecode : b.decodeSASLResponse text with
      | none =>
        simp only [Option.bind_some, hdecode]
        exact iff_of_false h.refused (by simp)
      | some first =>
        simp only [Option.bind_some, hdecode, Option.map_some, Option.some.injEq,
          Prod.mk.injEq]
        rw [authenticates_first (r := r) (n := 3) h rfl rfl
          (start_scramFirst rfl rfl (decodeSASLResponse_length hdecode))]
        constructor
        · exact fun hsucceeds => ⟨_, _, _, ⟨rfl, rfl, rfl⟩, hsucceeds⟩
        · rintro ⟨_, _, _, ⟨rfl, rfl, rfl⟩, hsucceeds⟩
          exact hsucceeds
    | none =>
      have hstart (random : Option Bytes) : Responder.start b.crypto random none r =
          (.ok (Responder.challengeStep []), { r with state := .scramFirst }) := rfl
      simp only [Option.bind_none, hstart, AuthBackend.follow]
      rw [authenticates_challenge (r := { r with state := .scramFirst }) (n := 6) h]
      constructor
      · rintro ⟨line, s', first, hlisten, hdecode, h', hnext⟩
        refine ⟨first, s'.world, s', by simp [hlisten, hdecode], ?_⟩
        apply (authenticates_first (r := { r with state := .scramFirst }) (n := 2) h' rfl rfl
          (next_scramFirst rfl rfl (decodeSASLResponse_length hdecode))).mp
        exact h'.follow.mpr hnext
      · rintro ⟨first, w', s', hfirst, hsucceeds⟩
        split at hfirst
        case h_2 => cases hfirst
        case h_1 line s₁ hlisten =>
          obtain ⟨_, hdecode, heq⟩ := Option.map_eq_some_iff.mp hfirst
          cases heq
          have h' := h.heard hlisten
          refine ⟨line, s', first, hlisten, hdecode, h', (h'.follow (w := s'.world)).mp ?_⟩
          exact (authenticates_first (r := { r with state := .scramFirst }) (n := 2) h' rfl rfl
            (next_scramFirst rfl rfl (decodeSASLResponse_length hdecode))).mpr hsucceeds

end Exchange

/-! ### The session -/

/-- The flag of a client that supports channel binding and believes that the server does not. -/
def Downgraded (first : Bytes) : Prop := ∃ rest, Sasl.cutComma first = some (ascii "y", rest)

theorem authenticable_of_legal (h : s.state.legality .auth = .allowed) :
  s.Authenticable
  := by
  obtain ⟨rule, hrule, hphase, hanonymous⟩ := ProtocolState.legality_allowed h
  cases hrule
  exact ⟨by simpa using hphase, hanonymous rfl⟩

theorem ofName_toUpper (w : Bytes) :
  Sasl.ServerMechanism.ofName (toUpper w) = Sasl.ServerMechanism.ofName w
  := by
  have hupper : toUpper (toUpper w) = toUpper w := by
    simp only [toUpper, List.map_map]
    apply List.map_congr_left
    intro b _
    grind
  rw [Sasl.ServerMechanism.ofName, Sasl.ServerMechanism.ofName, hupper]

/-- A server that offers SCRAM over TLS, with and without channel binding. -/
def bindingConfig : Config :=
  { Config.small 7 seven_lt with
    authMechanisms := fun st _ =>
      if st.tls then [ascii "SCRAM-SHA-256", ascii "SCRAM-SHA-256-PLUS"] else [] }

/-- A backend that has the keys of every user. -/
def keeper : AuthBackend Unit :=
  { AuthBackend.plain with
    crypto := { Sasl.ServerCrypto.plain with
      decode64 := fun v => if v = ascii "eSws" then some (ascii "y,,") else some v }
    channelBinding := fun _ w => (.ok (ascii "x"), w)
    random := fun w => (some (ascii "b"), w)
    scramCredentials := some fun _ w =>
      (.ok (some ⟨{ identity := ascii "u" }, ⟨ascii "s", 1, ascii "k", ascii "k"⟩⟩), w)
    commitAuth := some fun _ w => (false, w) }

/-- A session over TLS that has been greeted, and what is sent to it next. -/
def securedWith (lines : List String) : Session Empty Unit :=
  (serve bindingConfig (Env.plain.withAuth keeper) 1
    (Session.new bindingConfig SpoolManager.small true (script ("EHLO a" :: lines)) ())).1

/-- AUTH with the flag of a client that believes that the server does not support channel
binding. -/
def downgradedAuth : Command := ⟨ascii "AUTH", ascii "SCRAM-SHA-256 y,,n=u,r=a"⟩

end Session

end GoSmtp.Server
