import GoSmtp.Sasl.Soundness
import GoSmtp.Server.Commands

/-!
# The AUTH exchange

What `handleAUTH` of `smtpserver/cmd_auth.go` does once the mechanism is known to be offered: it
drives the responder of the mechanism, asks the backend for verification, and commits a
successful exchange (`smtpserver/authentication.go`).

The exchange is a dialog for the session to run.  An honest dialog commits only a result without
failure, and does so right before it is accepted.  The dialog of every backend is honest, since
the responder is sound.
-/

namespace GoSmtp.Server

open Sasl (ServerCrypto VerificationRequest Verification ScramKeys Responder ResponderStep
  ResponderError ResponderState ResponderCall Move)

variable {ω : Type}
variable {r r' : Responder} {step step' : ResponderStep} {authoritative : Option AuthResult}
  {w : ω} {v : Verification} {result : AuthResult} {c : ResponderCall}

/-! ### The backend -/

structure ScramCredentials where
  result : AuthResult
  keys : ScramKeys

/-- What an exchange needs from the outside.  A verifier that the backend does not have is
missing, and a result may be missing too. -/
structure AuthBackend (ω : Type) where
  crypto : ServerCrypto
  /-- The identity of the server. -/
  hostname : Bytes
  channelBinding : Bytes → ω → Except BackendError Bytes × ω
  random : ω → Option Bytes × ω
  authenticate :
    Option (VerificationRequest → ω → Outcome BackendError (Option AuthResult) × ω)
  challengeResponse :
    Option (VerificationRequest → ω → Outcome BackendError (Option AuthResult) × ω)
  scramCredentials :
    Option (VerificationRequest → ω → Outcome BackendError (Option ScramCredentials) × ω)
  /-- Whether the callback panics. -/
  commitAuth : Option (AuthResult → ω → Bool × ω)
  /-- The error document of OAuth, unless it cannot be encoded. -/
  oauthPayload : OAuthError → Option Bytes

/-- A backend that verifies nothing. -/
def AuthBackend.plain : AuthBackend ω where
  crypto := .plain
  hostname := ascii "b"
  channelBinding _ w := (.ok [], w)
  random w := (none, w)
  authenticate := none
  challengeResponse := none
  scramCredentials := none
  commitAuth := none
  oauthPayload _ := none

namespace AuthBackend

variable (b : AuthBackend ω)

def authVerification (result : AuthResult) : Verification where
  accepted := result.failure.isNone
  failureChallenge := (result.failure.bind (·.oauth)).bind b.oauthPayload

/-- A verifier that decides by itself. -/
def verifyWith (verifier : Option (VerificationRequest → ω →
    Outcome BackendError (Option AuthResult) × ω)) (request : VerificationRequest) (w : ω) :
    Outcome BackendError (Verification × AuthResult) × ω :=
  match verifier with
  | none => (.err .other, w)
  | some verifier =>
    match verifier request w with
    | (.ok (some result), w) => (.ok (b.authVerification result, result), w)
    | (.ok none, w) => (.err .other, w)
    | (.err e, w) => (.err e, w)
    | (.panic, w) => (.panic, w)

/-- A verifier that hands out keys. -/
def verifyScram (request : VerificationRequest) (w : ω) :
    Outcome BackendError (Verification × AuthResult) × ω :=
  match b.scramCredentials with
  | none => (.err .other, w)
  | some lookup =>
    match lookup request w with
    | (.ok (some credentials), w) =>
      let verification := b.authVerification credentials.result
      let keys := if verification.accepted then some credentials.keys else none
      (.ok ({ verification with keys := keys }, credentials.result), w)
    | (.ok none, w) => (.err .other, w)
    | (.err e, w) => (.err e, w)
    | (.panic, w) => (.panic, w)

def verifyAUTH (request : VerificationRequest) (w : ω) :
    Outcome BackendError (Verification × AuthResult) × ω :=
  match request.kind with
  | .credentials => b.verifyWith b.authenticate request w
  | .challengeResponse => b.verifyWith b.challengeResponse request w
  | .scramKeys => b.verifyScram request w

theorem accepted_verifyAUTH {request : VerificationRequest} {w' : ω}
    (h : b.verifyAUTH request w = (.ok (v, result), w')) (hv : v.accepted = true) :
  result.failure = none
  := by
  have hwith (verifier) (h : b.verifyWith verifier request w = (.ok (v, result), w')) :
      result.failure = none := by
    unfold verifyWith at h
    repeat' split at h
    all_goals cases h
    simpa [authVerification] using hv
  rw [verifyAUTH] at h
  split at h
  · exact hwith _ h
  · exact hwith _ h
  · unfold verifyScram at h
    repeat' split at h
    all_goals cases h
    simpa [authVerification] using hv

/-! ### The dialog -/

def temporaryFailureText : Bytes := ascii "Temporary authentication failure"

/-- The refusal for an error of the backend. -/
def temporaryFailure (e : BackendError) (w : ω) : AuthDialog ω :=
  .refused (Session.errorReply e 454 temporaryFailureText) w

def authFailure (result : Option AuthResult) : WireReply :=
  let text := ascii "Authentication credentials invalid"
  match (result.bind (·.failure)).bind (·.err) with
  | some e => Session.errorReply (.protocol e) 535 text
  | none => { code := 535, enhanced := ⟨5, 7, 8, []⟩, text := text }

/-- `authExchangeError`: an error that is not the fault of the client ends the session. -/
def authExchangeError (e : ResponderError) (w : ω) : AuthDialog ω :=
  match e with
  | .aborted | .payload =>
    .refused { code := 501, enhanced := ⟨5, 5, 2, []⟩,
               text := ascii "Authentication exchange cancelled or malformed" } w
  | _ => .failed w

def decodeSASLResponse (value : Bytes) : Option Bytes :=
  if value = ascii "=" ∨ value = [] then some []
  else if value = ascii "*" then some (ascii "*")
  else (b.crypto.decode64 value).filter (·.length ≤ 16384)

/-- `finalizeAuthentication`, for an exchange that is complete, and what follows it. -/
def finalizeAuthentication (authoritative : Option AuthResult) (w : ω) : AuthDialog ω :=
  let contract : AuthDialog ω :=
    .refused { code := 454, enhanced := ⟨4, 7, 0, []⟩, text := temporaryFailureText } w
  match authoritative with
  | none => contract
  | some result =>
    if result.failure.isSome then .accepted w
    else
      match b.commitAuth with
      | none => contract
      | some commit =>
        match commit result w with
        | (true, w) => .call (.commit result) w (.panic w)
        | (false, w) => .call (.commit result) w (.accepted w)

/-- The dialog after a call of the responder. -/
def follow (x : Outcome ResponderError ResponderStep × Responder) (w : ω)
    (k : ResponderStep → Responder → AuthDialog ω) : AuthDialog ω :=
  match x with
  | (.ok step, r) => k step r
  | (.err e, _) => authExchangeError e w
  | (.panic, _) => .panic w

/-- The loop of `handleAUTH`, for at most `n` steps. -/
def loop : Nat → ResponderStep → Responder → Option AuthResult → ω → AuthDialog ω
  | 0, _, _, _, w => .failed w
  | n + 1, step, r, authoritative, w =>
    match step.verification, step.challenge with
    | some request, _ =>
      match b.verifyAUTH request w with
      | (.panic, w) => .panic w
      | (.err e, w) => .call (.verify none) w (temporaryFailure e w)
      | (.ok (verification, result), w) =>
        let (random, w) := b.random w
        .call (.verify (some result)) w
          (follow (Responder.continueWith b.crypto random verification r) w fun step r =>
            loop n step r (some result) w)
    | none, some challenge =>
      .challenge (b.crypto.encode64 challenge) w fun line w =>
        match b.decodeSASLResponse line with
        | none => .failed w
        | some response =>
          follow (Responder.next b.crypto response r) w fun step r =>
            loop n step r authoritative w
    | none, none =>
      if !step.done then .failed w
      else if !step.accepted then .refused (authFailure authoritative) w
      else b.finalizeAuthentication authoritative w

/-- The exchange of a mechanism, with its initial response if there is one. -/
def dialog (mechanism : Bytes) (initial : Option Bytes) (w : ω) : AuthDialog ω :=
  match b.channelBinding mechanism w with
  | (.error e, w) => temporaryFailure e w
  | (.ok binding, w) =>
    match Sasl.newResponder mechanism { hostname := b.hostname, channelBinding := binding } with
    | none => temporaryFailure .other w
    | some r =>
      match initial, initial.bind b.decodeSASLResponse with
      | some _, none =>
        .refused { code := 501, enhanced := ⟨5, 5, 2, []⟩,
                   text := ascii "Invalid AUTH initial response" } w
      | _, response =>
        let (random, w) := b.random w
        follow (Responder.start b.crypto random response r) w fun step r =>
          b.loop 7 step r none w

end AuthBackend

/-- The world in which AUTH asks the given backend. -/
def Env.withAuth {φ : Type} (env : Env φ ω) (b : AuthBackend ω) : Env φ ω :=
  { env with auth := b.dialog }

/-! ### Honest dialogs -/

/-- A dialog that commits the result of its last verification, which is no failure, right before
it is accepted.  The parameter is the result so far. -/
inductive AuthDialog.Honest : Option AuthResult → AuthDialog ω → Prop where
  | challenge {last : Option AuthResult} {text : Bytes} {w : ω} {k : Bytes → ω → AuthDialog ω}
      (h : ∀ line w, Honest last (k line w)) : Honest last (.challenge text w k)
  | verify {last result : Option AuthResult} {w : ω} {k : AuthDialog ω} (h : Honest result k) :
      Honest last (.call (.verify result) w k)
  | commit {result : AuthResult} {w w' : ω} (h : result.failure = none) :
      Honest (some result) (.call (.commit result) w (.accepted w'))
  /-- The callback panics. -/
  | cut {result : AuthResult} {w w' : ω} (h : result.failure = none) :
      Honest (some result) (.call (.commit result) w (.panic w'))
  | refused {last : Option AuthResult} {r : WireReply} {w : ω} : Honest last (.refused r w)
  | failed {last : Option AuthResult} {w : ω} : Honest last (.failed w)
  | panic {last : Option AuthResult} {w : ω} : Honest last (.panic w)

namespace AuthBackend

variable {b : AuthBackend ω}

/-- What the loop knows about the responder: where it may still accept without asking the backend
again, or has done so, the backend has accepted. -/
structure Grounded (step : ResponderStep) (r : Responder) (authoritative : Option AuthResult) :
    Prop where
  sane : r.Sane
  proving : r.state = .scramProof ∨ r.state = .scramEmpty →
    ∃ result, authoritative = some result ∧ result.failure = none
  accepted : step.accepted = true → ∃ result, authoritative = some result ∧ result.failure = none

theorem Grounded.message (h : Grounded step r authoritative) (hc : c.isMessage)
    (hmove : Move b.crypto r c (.ok step') r') :
  Grounded step' r' authoritative
  := by
  have hsane := hmove.sane h.sane
  cases hmove with
  | asked _ _ _ _ _ hstate =>
    refine ⟨hsane, ?_, by intros; contradiction⟩
    rintro (rfl | rfl) <;> simp [ResponderState.early] at hstate
  | raised => exact ⟨hsane, by simp, by simp⟩
  | first => exact ⟨hsane, by simp, by simp⟩
  | denied => cases hc
  | granted => cases hc
  | serverFirst => cases hc
  | failed => exact ⟨hsane, by simp, by simp⟩
  | proved hstate => exact ⟨hsane, fun _ => h.proving (.inl hstate), by intros; contradiction⟩
  | accepted hstate => exact ⟨hsane, by simp, fun _ => h.proving (.inr hstate)⟩

theorem Grounded.answer (h : Grounded step r authoritative)
    {random : Option Bytes} (hv : v.accepted = true → result.failure = none)
    (hmove : Move b.crypto r (.answer v random) (.ok step') r') :
  Grounded step' r' (some result)
  := by
  have hsane := hmove.sane h.sane
  have hresult (hv' : v.accepted = true) :
      ∃ result', some result = some result' ∧ result'.failure = none := ⟨_, rfl, hv hv'⟩
  cases hmove with
  | asked _ _ _ _ hc => cases hc
  | raised _ hc => cases hc
  | first _ hc => cases hc
  | denied _ _ _ ho hstate =>
    refine ⟨hsane, ?_, fun haccepted => ?_⟩
    · rintro (rfl | rfl) <;> simp at hstate
    · simp [(ho _ rfl).1] at haccepted
  | granted _ _ hv' => exact ⟨hsane, by simp, fun _ => hresult hv'⟩
  | serverFirst _ _ _ hv' => exact ⟨hsane, fun _ => hresult hv', by intros; contradiction⟩

theorem honest_authExchangeError (last : Option AuthResult) (e : ResponderError) (w : ω) :
  (authExchangeError e w).Honest last
  := by
  cases e <;> constructor

theorem honest_follow {last : Option AuthResult} {k : ResponderStep → Responder → AuthDialog ω}
    (hsane : r.Sane) (hk : ∀ step r', Move b.crypto r c (.ok step) r' → (k step r').Honest last) :
  (follow (r.call b.crypto c) w k).Honest last
  := by
  have hmove := Responder.move_call b.crypto hsane c
  rw [follow.eq_def]
  rcases hcall : r.call b.crypto c with ⟨step | e | _, r'⟩ <;> rw [hcall] at hmove
  · exact hk step r' hmove
  · exact honest_authExchangeError last e w
  · exact .panic

theorem honest_loop (n : Nat) (h : Grounded step r authoritative) (w : ω) :
  (b.loop n step r authoritative w).Honest authoritative
  := by
  induction n generalizing step r authoritative w with
  | zero => exact .failed
  | succ n ih =>
    rw [loop]
    split
    · next request _ =>
      split
      · exact .panic
      · exact .verify .refused
      · next v result w hverify =>
        apply AuthDialog.Honest.verify
        apply honest_follow (c := .answer v _) h.sane
        intro step' r' hmove
        apply ih
        exact h.answer (b.accepted_verifyAUTH hverify) hmove
    · apply AuthDialog.Honest.challenge
      intro line w
      split
      · exact .failed
      · next response _ =>
        apply honest_follow (c := .next response) h.sane
        intro step' r' hmove
        exact ih (h.message rfl hmove) w
    · split
      · exact .failed
      · split
        · exact .refused
        · next haccepted =>
          obtain ⟨result, rfl, hresult⟩ := h.accepted (by simpa using haccepted)
          simp only [finalizeAuthentication, hresult, Option.isSome_none, Bool.false_eq_true,
            if_false]
          split
          · exact .refused
          · split
            · exact .cut hresult
            · exact .commit hresult

theorem honest_dialog (b : AuthBackend ω) (mechanism : Bytes) (initial : Option Bytes) (w : ω) :
  (b.dialog mechanism initial w).Honest none
  := by
  rw [dialog]
  split
  · exact .refused
  · split
    · exact .refused
    · next r hnew =>
      split
      · exact .refused
      · have hsane := (Sasl.trail_new b.crypto hnew).sane
        apply honest_follow (c := .start _ _) hsane
        intro step' r' hmove
        apply honest_loop
        obtain ⟨m, rfl⟩ := Sasl.newResponder_some hnew
        have hground : Grounded {} { mechanism := m, cfg := _ } none := ⟨hsane, by simp, by simp⟩
        exact hground.message rfl hmove

end AuthBackend

end GoSmtp.Server
