import GoSmtp.Client.Pipeline
import GoSmtp.Sasl.Scram

/-!
# Negotiation and authentication

EHLO and HELO (`smtpclient/ehlo.go`), and the AUTH exchange with its cancellation
(`auth.go`), for any mechanism.
-/

namespace GoSmtp.Client

variable {φ ω α μ : Type}
variable (opts : Options) (env : Env φ ω) (crypto : Crypto)

open Sasl

/-! ### EHLO -/

def heloLocked : Call φ ω Unit := do
  let r ← executeOne opts env
    { verb := ascii "HELO", args := [opts.identity], syncPoint := true }
  match unexpectedReply opts (ascii "HELO") r false [250] with
  | some e => Exec.fail e
  | none => unlessClosed fun s => { s with ext := [] }

/-- The verb of the extended greeting. -/
def helloVerb : Bytes := if opts.lmtp then ascii "LHLO" else ascii "EHLO"

def ehloLocked : Call φ ω Unit := do
  let verb := helloVerb opts
  let r ← Exec.mapErr (ClientError.wrapped verb)
    (executeOne opts env { verb := verb, args := [opts.identity], syncPoint := true })
  if !opts.lmtp && (r.code = 500 || r.code = 502) then heloLocked opts env
  else
    match unexpectedReply opts verb r false [250] with
    | some e => Exec.fail e
    | none =>
      match opts.parseEHLO r.lines with
      | none => poisoned (.transport verb (.message (ascii "smtpwire: malformed EHLO reply")))
      | some exts => unlessClosed fun s => { s with ext := exts }

/-! ### AUTH -/

def maxAuthChallenge : Nat := 16384

def encodeSASL (v : Bytes) : Bytes :=
  if v.isEmpty then ascii "=" else crypto.encode64 v

def decodeChallenge (v : Bytes) : Except Bytes Bytes :=
  let v := trimSpace v
  if v.isEmpty || v = ascii "=" then .ok []
  else if v.length > maxAuthChallenge * 2 then .error (ascii "AUTH challenge exceeds limit")
  else
    match crypto.decode64 v with
    | none => .error (ascii "invalid AUTH challenge")
    | some out =>
      if out.length > maxAuthChallenge then .error (ascii "invalid AUTH challenge") else .ok out

/-- `authAdvertisement`: the parameters of AUTH, also in the historic form. -/
def authAdvertisement (ext : List (Bytes × Bytes)) : Option Bytes :=
  match ext.lookup (ascii "AUTH") with
  | some params => some params
  | none =>
    match ext.find? fun x => (ascii "AUTH=").isPrefixOf x.1 with
    | some x => some (trimSpace (x.1.drop 5 ++ sp :: x.2))
    | none => none

/-- `authResponse`.  The whole line is payload. -/
def authResponse (response : Bytes) : Call φ ω Unit :=
  writeLine env (ascii "AUTH") { verb := response } .auth redactedPayload

/-- `cancelAuth`: the exchange is cancelled, and the cause is what is returned. -/
def cancelAuth (cause : ClientError φ) : Call φ ω α := do
  match ← Exec.attempt (authResponse env (ascii "*")) with
  | .error _ => Exec.fail cause
  | .ok _ =>
    match ← Exec.attempt (read opts env (ascii "AUTH")) with
    | .error _ => Exec.fail cause
    | .ok r => if r.code ≠ 501 then poisoned cause else Exec.fail cause

/-- The loop of `Auth`: the first reply that is no challenge.  Every turn reads a reply. -/
def exchange (opts : Options) (env : Env φ ω) (crypto : Crypto) (name : Bytes)
    (mech : Mechanism μ) : Nat → Reply → μ → Call φ ω Reply
  | 0, _, _ => fun s => (.panic, s)
  | n + 1, r, m =>
    if r.code ≠ 334 then pure r
    else
      match decodeChallenge crypto r.text with
      | .error e => cancelAuth opts env (.transport (ascii "AUTH") (.message e))
      | .ok challenge =>
        match mech.next challenge m with
        | (.error e, _) =>
          cancelAuth opts env
            (.message (ascii "smtpclient: AUTH " ++ name ++ ascii ": " ++ e))
        | (.ok (response, done), m) => do
            authResponse env (encodeSASL crypto response)
            let r ← read opts env (ascii "AUTH")
            if done && r.code = 334 then
              poisoned (.transport (ascii "AUTH") (.message
                (ascii "server requested an unexpected additional SASL response")))
            else exchange opts env crypto name mech n r m

/-- The AUTH command. -/
def authCommand (name : Bytes) (initial : Option Bytes) : QueuedCommand where
  verb := ascii "AUTH"
  args := name :: (initial.map (encodeSASL crypto)).toList
  syncPoint := true

/-- The part of `Auth` that marks the session as authenticated.  `select` stands for the
preparation of the credentials and for the choice among the advertised mechanisms. -/
def authenticate
    (select : Bytes → Except (ClientError φ) Bytes) (mech : Mechanism μ) : Call φ ω Unit := do
  if ← canceled env .before then Exec.fail .canceled
  else
    requireState (ascii "AUTH") [.greeted, .tls]
    let s ← Exec.read
    match authAdvertisement s.ext with
    | none => Exec.fail (.message (ascii "smtpclient: server did not advertise AUTH"))
    | some params =>
      match select params with
      | .error e => Exec.fail e
      | .ok name =>
        match mech.start with
        | (.error e, _) =>
          Exec.fail (.message (ascii "smtpclient: AUTH " ++ name ++ ascii ": " ++ e))
        | (.ok initial, m) =>
          let r ← executeOne opts env (authCommand crypto name initial)
          let r ← exchange opts env crypto name mech (s.replies.length + 1) r m
          expectReply opts (ascii "AUTH") r [235]
          unlessClosed fun s => { s with state := .authenticated }

/-- `Client.Auth`. -/
def auth
    (select : Bytes → Except (ClientError φ) Bytes) (mech : Mechanism μ) : Call φ ω Unit := do
  authenticate opts env crypto select mech
  ehloLocked opts env

end GoSmtp.Client
