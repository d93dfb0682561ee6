import GoSmtp.Sasl.Progress
import GoSmtp.Server.Answers

/-!
# How AUTH exchanges end

An AUTH exchange is to end in one final reply, and the session to go on.  It does so if the backend
gives answers that can be passed on, and the client sends base64; a line that is no base64 ends the
session without a reply.
-/

namespace GoSmtp.Server

open Sasl (VerificationRequest Responder ResponderStep ResponderCall Poised Proceeds Move)

variable {φ ω : Type}
variable {e : BackendError} {authoritative : Option AuthResult} {r : Responder} {s' : Session φ ω}
  {dialog : AuthDialog ω}

/-! ### Answers of the backend -/

/-- The codes that AUTH ends with. -/
def conclusive (code : Int) : Bool := code = 235 || 400 ≤ code && code < 600

/-- The error leads to a reply with such a code. -/
def BackendError.conclusive : BackendError → Bool
  | .protocol e => e.code < 200 || Server.conclusive e.code
  | .other => true

/-- So does the failure, if there is one. -/
def AuthResult.conclusive (result : AuthResult) : Prop :=
  ∀ e ∈ result.failure.bind (·.err), (BackendError.protocol e).conclusive

theorem conclusive_errorReply (h : e.conclusive) {code : Int}
    (hcode : conclusive code) (text : Bytes) :
  conclusive (Session.errorReply e code text).code
  := by
  cases e with
  | other => exact hcode
  | protocol e =>
    rw [Session.errorReply]
    split
    · next hlarge =>
      have hsmall : ¬ e.code < 200 := Int.not_lt.mpr hlarge
      simpa [BackendError.conclusive, hsmall] using h
    · exact hcode

namespace AuthBackend

/-- The answers of the backend can be passed on: errors and failures have codes that refuse, keys
fit their mechanism, nothing panics, and there are random octets. -/
structure Proper (b : AuthBackend ω) : Prop where
  binding : ∀ mechanism w e, (b.channelBinding mechanism w).1 = .error e → e.conclusive
  random : ∀ w, (b.random w).1.isSome
  calm : ∀ q w, (b.verifyAUTH q w).1 ≠ .panic
  error : ∀ q w e, (b.verifyAUTH q w).1 = .err e → e.conclusive
  answer : ∀ q w v result, (b.verifyAUTH q w).1 = .ok (v, result) →
    result.conclusive ∧ Responder.Fitting b.crypto q v
  commit : ∀ f ∈ b.commitAuth, ∀ result w, (f result w).1 = false

/-- The line is a response. -/
def decodes (b : AuthBackend ω) (line : Bytes) : Bool := (b.decodeSASLResponse line).isSome

end AuthBackend

/-! ### Dialogs that conclude -/

/-- The dialog ends in a final reply, unless one of its lines is no response.  Then it fails. -/
inductive AuthDialog.Concludes (decodes : Bytes → Bool) : AuthDialog ω → Prop where
  | challenge {text : Bytes} {w : ω} {k : Bytes → ω → AuthDialog ω}
      (hresponse : ∀ line w, decodes line = true → Concludes decodes (k line w))
      (hother : ∀ line w, decodes line = false → ∃ w', k line w = .failed w') :
      Concludes decodes (.challenge text w k)
  | call {c : AuthCall} {w : ω} {k : AuthDialog ω} (h : Concludes decodes k) :
      Concludes decodes (.call c w k)
  | accepted {w : ω} : Concludes decodes (.accepted w)
  | refused {r : WireReply} {w : ω} (h : conclusive r.code) : Concludes decodes (.refused r w)

namespace AuthBackend

variable {b : AuthBackend ω}

theorem concludes_temporaryFailure (h : e.conclusive) (w : ω) :
  (temporaryFailure e w).Concludes b.decodes
  := .refused (conclusive_errorReply h rfl _)

theorem concludes_authFailure (h : ∀ result ∈ authoritative, result.conclusive) (w : ω) :
  (AuthDialog.refused (authFailure authoritative) w).Concludes b.decodes
  := by
  apply AuthDialog.Concludes.refused
  rw [authFailure.eq_def]
  split
  · next e he =>
    rw [Option.bind_assoc] at he
    obtain ⟨result, hresult, he⟩ := Option.bind_eq_some_iff.mp he
    exact conclusive_errorReply (h result hresult e he) rfl _
  · rfl

theorem concludes_follow {c : ResponderCall} {w : ω} {k : ResponderStep → Responder → AuthDialog ω}
    (hsane : r.Sane) (hcall : Proceeds (Responder.call b.crypto c) r)
    (hk : ∀ step r', Move b.crypto r c (.ok step) r' → Poised step r' →
      (k step r').Concludes b.decodes) :
  (follow (r.call b.crypto c) w k).Concludes b.decodes
  := by
  have hmove := Responder.move_call b.crypto hsane c
  rw [Proceeds, wp] at hcall
  rw [follow.eq_def]
  rcases hx : r.call b.crypto c with ⟨step | e | _, r'⟩ <;> rw [hx] at hmove hcall
  · exact hk step r' hmove hcall
  · rcases hcall with he | he <;> cases he <;> exact .refused rfl
  · rcases hcall with he | he <;> cases he

variable (hb : b.Proper)
include hb

theorem concludes_finalize (authoritative : Option AuthResult) (w : ω) :
  (b.finalizeAuthentication authoritative w).Concludes b.decodes
  := by
  rw [finalizeAuthentication.eq_def]
  split
  · exact .refused rfl
  · next result =>
    split
    · exact .accepted
    · split
      · exact .refused rfl
      · next commit hcommit =>
        have hcalm := hb.commit commit hcommit result w
        rcases hx : commit result w with ⟨_ | _, w'⟩
        · exact .call .accepted
        · rw [hx] at hcalm
          cases hcalm

theorem concludes_loop {n : Nat} {step : ResponderStep} (hsane : r.Sane) (hstep : Poised step r)
    (hrank : step.verification ≠ none ∨ step.challenge ≠ none → r.state.rank + 1 < n) (hn : 0 < n)
    (hresult : ∀ result ∈ authoritative, result.conclusive) (w : ω) :
  (b.loop n step r authoritative w).Concludes b.decodes
  := by
  induction n generalizing step r authoritative w with
  | zero => cases hn
  | succ n ih =>
    have hnext {c : ResponderCall} {step' : ResponderStep} {r' : Responder}
        (hasks : step.verification ≠ none ∨ step.challenge ≠ none)
        (hmove : Move b.crypto r c (.ok step') r') (hstep' : Poised step' r')
        {authoritative : Option AuthResult} (hresult : ∀ result ∈ authoritative, result.conclusive)
        (w : ω) : (b.loop n step' r' authoritative w).Concludes b.decodes := by
      have hless := hrank hasks
      apply ih (hmove.sane hsane) hstep' _ (by omega) hresult
      intro hstep'
      have hfewer := hmove.rank hstep'
      omega
    rw [loop]
    cases hstep with
    | asks challenge hawaits =>
      apply AuthDialog.Concludes.challenge
      · intro line w hline
        obtain ⟨response, hresponse⟩ := Option.isSome_iff_exists.mp hline
        rw [hresponse]
        apply concludes_follow (c := .next response) hsane
        · exact Responder.proceeds_next hsane hawaits response
        · exact fun step' r' hmove hstep' => hnext (.inr (by rintro ⟨⟩)) hmove hstep' hresult w
      · intro line w hline
        have hnone : b.decodeSASLResponse line = none := by simpa [decodes] using hline
        exact ⟨w, by rw [hnone]⟩
    | @raises _ q hstate hrequest hmechanism =>
      dsimp only
      rcases hverify : b.verifyAUTH q w with ⟨⟨v, result⟩ | e | _, w'⟩
      · have hanswer := hb.answer q w v result (congrArg Prod.fst hverify)
        apply AuthDialog.Concludes.call
        apply concludes_follow (c := .answer v (b.random w').1) hsane
        · exact Responder.proceeds_continueWith hsane hstate hrequest hmechanism (hb.random w')
            hanswer.2
        · intro step' r' hmove hstep'
          apply hnext (.inl (by simp)) hmove hstep'
          rintro _ ⟨⟩
          exact hanswer.1
      · exact .call (concludes_temporaryFailure (hb.error q w e (congrArg Prod.fst hverify)) w')
      · exact absurd (congrArg Prod.fst hverify) (hb.calm q w)
    | ends accepted =>
      cases accepted with
      | true => exact concludes_finalize hb authoritative w
      | false => exact concludes_authFailure hresult w

theorem concludes_dialog (mechanism : Bytes) (initial : Option Bytes) (w : ω) :
  (b.dialog mechanism initial w).Concludes b.decodes
  := by
  rw [dialog]
  split
  · next e w' hbinding =>
    exact concludes_temporaryFailure (hb.binding mechanism w e (congrArg Prod.fst hbinding)) w'
  · next binding w' _ =>
    split
    · exact concludes_temporaryFailure rfl w'
    · next r hnew =>
      split
      · exact .refused rfl
      · have hsane := (Sasl.trail_new b.crypto hnew).sane
        obtain ⟨m, rfl⟩ := Sasl.newResponder_some hnew
        apply concludes_follow (c := .start _ _) hsane
        · exact Responder.proceeds_start rfl (hb.random w') _
        · intro step r' hmove hstep
          apply concludes_loop hb (hmove.sane hsane) hstep _ (by decide) (by simp)
          intro hasks
          have hfewer := hmove.rank hasks
          simp only [Sasl.ResponderState.rank] at hfewer ⊢
          omega

end AuthBackend

/-! ### Exchanges -/

namespace Session

/-- A challenge is sent, and the line that answers it is read. -/
def listen (env : Env φ ω) (text : Bytes) (world : ω) :
    Call φ ω (Except (CommandError φ) Bytes) := do
  Exec.update fun s => { s with world := world }
  writeReply env { code := 334, text := text }
  transport env.flush
  await env .response
  let s ← Exec.read
  Exec.update fun s => { s with feed := (readSASLResponse s.feed).2 }
  pure (readSASLResponse s.feed).1

/-- The session after a call of the backend. -/
def called (c : AuthCall) (world : ω) (s : Session φ ω) : Session φ ω :=
  { s with world := world, log := s.log ++ [.auth c] }

/-- The continuation lines of an exchange. -/
def continuations (env : Env φ ω) : AuthDialog ω → Session φ ω → List Bytes
  | .challenge text world k, s =>
    match listen env text world s with
    | (.ok (.ok line), s') => line :: continuations env (k line s'.world) s'
    | _ => []
  | .call c world k, s => continuations env k (s.called c world)
  | _, _ => []

/-- Every continuation line of the exchange arrives: the transport does not fail, and the line is
complete, within its bounds and without control octets. -/
def heard (env : Env φ ω) : AuthDialog ω → Session φ ω → Bool
  | .challenge text world k, s =>
    match listen env text world s with
    | (.ok (.ok line), s') => heard env (k line s'.world) s'
    | _ => false
  | .call c world k, s => heard env k (s.called c world)
  | _, _ => true

/-- The replies other than challenges. -/
def finals (s : Session φ ω) : List WireReply := s.said.filter (·.code ≠ 334)

/-- The call has ended with one final reply, and the session is open and ready for the next
command. -/
def AuthAnswered (s : Session φ ω) : Outcome (SessionError φ) CommandAction × Session φ ω → Prop
  | (.ok action, s') =>
    action.closeConnection = false ∧ s'.state.phase = .ready ∧
      ∃ r, s'.finals = s.finals ++ [r] ∧ conclusive r.code
  | _ => False

variable {env : Env φ ω} {s : Session φ ω}

theorem answered_congr (h : s'.finals = s.finals)
    (x : Outcome (SessionError φ) CommandAction × Session φ ω) :
  s.AuthAnswered x ↔ s'.AuthAnswered x
  := by
  rcases x with ⟨action | e | _, s₁⟩ <;> simp only [AuthAnswered, h]

theorem answered_reply (henv : env.Reliable) (hphase : s.state.phase = .ready) {r : WireReply}
    (hr : conclusive r.code) :
  s.AuthAnswered ((do writeReply env r; pure sync : Call φ ω CommandAction) s)
  := by
  have hne : r.code ≠ 334 := by
    rintro heq
    simp [heq, conclusive] at hr
  simp only [Bind.bind, writeReply_takes (henv r s.world)]
  refine ⟨rfl, hphase, r, ?_, hr⟩
  simp [finals, said, replies, hne]

theorem runDialog_challenge (text : Bytes) (world : ω) (k : Bytes → ω → AuthDialog ω) :
  runDialog env (.challenge text world k) = (do
    match ← listen env text world with
    | .error .lineTooLong =>
      writeReply env { code := 500, enhanced := ⟨5, 5, 6, []⟩,
                       text := ascii "Authentication exchange line is too long" }
      pure { synchronizationPoint := true, closeConnection := true }
    | .error e => Exec.fail (.command e)
    | .ok line =>
      let s ← Exec.read
      runDialog env (k line s.world))
  := by
  rw [runDialog, listen]
  simp only [Exec.bind_bind]
  rfl

theorem listen_ok {text line : Bytes} {world : ω}
    (h : listen env text world s = (.ok (.ok line), s')) :
  s'.finals = s.finals ∧ s'.state = s.state
  := by
  have hlisten : wp (listen env text world)
      (fun _ s' => s'.finals = s.finals ∧ s'.state = s.state) (fun _ _ => True) s := by
    rw [listen, wp_bind, wp_update, wp_bind]
    refine wp_writeReply (fun w => ?_) fun _ _ => trivial
    rw [wp_bind]
    refine wp_transport (fun w => ?_) fun _ _ => trivial
    rw [wp_bind]
    refine wp_await (fun w => ?_) fun _ _ => trivial
    exact ⟨by simp [finals, said, replies], rfl⟩
  rw [wp, h] at hlisten
  exact hlisten

/-- An exchange whose dialog concludes ends in a final reply exactly if all of its lines are
responses. -/
theorem runDialog_answered_iff (henv : env.Reliable) {decodes : Bytes → Bool}
    (h : dialog.Concludes decodes) (hphase : s.state.phase = .ready) (hheard : heard env dialog s) :
  s.AuthAnswered (runDialog env dialog s) ↔ ∀ line ∈ continuations env dialog s, decodes line
  := by
  induction h generalizing s with
  | @challenge text w k hresponse hother ih =>
    rw [heard] at hheard
    rcases hlisten : listen env text w s with ⟨(e | line) | e | _, s'⟩ <;> rw [hlisten] at hheard
    case err | panic => cases hheard
    case ok.error => cases hheard
    obtain ⟨hfinals, hstate⟩ := listen_ok hlisten
    have hrun : runDialog env (.challenge text w k) s = runDialog env (k line s'.world) s' := by
      rw [runDialog_challenge]
      simp only [Bind.bind, hlisten]
      rfl
    rw [continuations, hlisten, hrun, answered_congr hfinals, List.forall_mem_cons]
    cases hline : decodes line with
    | true => simpa using ih line s'.world hline (hstate ▸ hphase) hheard
    | false =>
      obtain ⟨w', hfailed⟩ := hother line s'.world hline
      rw [hfailed]
      exact ⟨False.elim, fun h => absurd h.1 (by simp)⟩
  | @call c w k h ih =>
    have hfinals : (s.called c w).finals = s.finals := by simp [called, finals, said, replies]
    rw [answered_congr hfinals]
    exact ih (s := s.called c w) hphase hheard
  | @accepted w =>
    let s₁ : Session φ ω :=
      { s with world := w, state.authenticated := true, log := s.log ++ [.authenticated] }
    have hfinals : s₁.finals = s.finals := by simp [s₁, finals, said, replies]
    have hrun : runDialog env (.accepted w) s = (do
        writeReply env { code := 235, enhanced := ⟨2, 7, 0, []⟩,
                         text := ascii "Authentication successful" }
        pure sync : Call φ ω CommandAction) s₁ := by
      rw [runDialog]
      simp [Bind.bind, Exec.update, transition, Exec.read, ProtocolState.transition, record,
        ProtocolState.applyEvent, phaseTransitions, s₁, hphase]
    rw [hrun, answered_congr hfinals]
    exact iff_of_true (answered_reply (s := s₁) henv hphase rfl) (List.forall_mem_nil _)
  | @refused r w hr =>
    apply iff_of_true _ (List.forall_mem_nil _)
    let s₁ : Session φ ω := { s with world := w }
    have hfinals : s₁.finals = s.finals := rfl
    exact (answered_congr hfinals _).mpr (answered_reply (s := s₁) henv hphase hr)

/-- The mechanism is offered to the session. -/
def offers (cfg : Config) (s : Session φ ω) (mechanism : Bytes) : Bool :=
  ((cfg.authMechanisms s.state s.extended).map toUpper).contains (toUpper mechanism)

/-- The dialog of an AUTH command, if it comes to one. -/
def authDialog (cfg : Config) (env : Env φ ω) (c : Command) (s : Session φ ω) :
    Option (AuthDialog ω) :=
  let exchange (mechanism : Bytes) (initial : Option Bytes) : Option (AuthDialog ω) :=
    if s.offers cfg mechanism then some (env.auth (toUpper mechanism) initial s.world) else none
  match stringsFields c.argument with
  | [mechanism] => exchange mechanism none
  | [mechanism, initial] => exchange mechanism (some initial)
  | _ => none

theorem authDialog_eq_some {cfg : Config} {c : Command} (h : authDialog cfg env c s = some dialog) :
  ∃ mechanism initial, dialog = env.auth mechanism initial s.world
  := by
  rw [authDialog] at h
  split at h
  · obtain ⟨-, heq⟩ := Option.ite_none_right_eq_some.mp h
    exact ⟨_, _, (Option.some.inj heq).symm⟩
  · obtain ⟨-, heq⟩ := Option.ite_none_right_eq_some.mp h
    exact ⟨_, _, (Option.some.inj heq).symm⟩
  · cases h

theorem handleAUTH_cases (cfg : Config) (env : Env φ ω) (c : Command) (s : Session φ ω) :
  (∃ dialog, authDialog cfg env c s = some dialog ∧
    handleAUTH cfg env c s = runDialog env dialog s) ∨
  authDialog cfg env c s = none ∧ ∃ r, conclusive r.code ∧
    handleAUTH cfg env c s = (do writeReply env r; pure sync : Call φ ω CommandAction) s
  := by
  rw [handleAUTH, Exec.read_bind, authDialog]
  have hexchange (mechanism : Bytes) (initial : Option Bytes) :
      (∃ dialog, (if s.offers cfg mechanism then
          some (env.auth (toUpper mechanism) initial s.world) else none) = some dialog ∧
        handleAUTH.exchange env (s.offers cfg) mechanism initial s = runDialog env dialog s) ∨
      (if s.offers cfg mechanism then
        some (env.auth (toUpper mechanism) initial s.world) else none) = none ∧
      ∃ r, conclusive r.code ∧ handleAUTH.exchange env (s.offers cfg) mechanism initial s =
        (do writeReply env r; pure sync : Call φ ω CommandAction) s := by
    rw [handleAUTH.exchange, Exec.read_bind]
    cases s.offers cfg mechanism with
    | true => exact .inl ⟨_, rfl, rfl⟩
    | false => exact .inr ⟨rfl, _, by decide, rfl⟩
  rcases stringsFields c.argument with _ | ⟨mechanism, _ | ⟨initial, _ | ⟨_, _⟩⟩⟩
  · exact .inr ⟨rfl, _, by decide, rfl⟩
  · exact hexchange mechanism none
  · exact hexchange mechanism (some initial)
  · exact .inr ⟨rfl, _, by decide, rfl⟩

/-- A server that offers LOGIN. -/
def loginConfig : Config :=
  { Config.small 7 seven_lt with authMechanisms := fun _ _ => [ascii "LOGIN"] }

/-- A backend without verifiers, in which a line with an exclamation mark is no base64. -/
def unverified : AuthBackend Unit :=
  { AuthBackend.plain with
    crypto := { Sasl.ServerCrypto.plain with decode64 := fun v => if 33 ∈ v then none else some v }
    random := fun w => (some [], w) }

theorem proper_unverified :
  unverified.Proper
  where
  binding _ _ _ h := by cases h
  random _ := rfl
  calm q _ := by rcases q with ⟨_ | _ | _, _⟩ <;> rintro ⟨⟩
  error q _ e h := by rcases q with ⟨_ | _ | _, _⟩ <;> cases h <;> rfl
  answer q _ _ _ h := by rcases q with ⟨_ | _ | _, _⟩ <;> cases h
  commit _ h := by cases h

/-- A session that has been greeted, and what is sent to it next. -/
def greetedWith (lines : List String) : Session Empty Unit :=
  (serve loginConfig (Env.plain.withAuth unverified) 1
    (Session.new loginConfig SpoolManager.small false (script ("EHLO a" :: lines)) ())).1

end Session

end GoSmtp.Server
