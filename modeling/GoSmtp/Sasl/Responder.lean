import GoSmtp.Lib.Exec
import GoSmtp.Sasl.Scram

/-!
# The responder

The server side of the mechanisms, `internal/smtpsasl/responder.go`: one state machine for
all of them, driven by `Start`, `Next` and `Continue`.  Hash functions, encodings and random
octets come from outside.
-/

namespace GoSmtp.Sasl

/-! ### Mechanisms -/

/-- The hash functions of SCRAM. -/
inductive ScramHash where
  | sha1
  | sha256
  deriving DecidableEq, Repr

/-- The mechanisms that have a responder. -/
inductive ServerMechanism where
  | plain
  | login
  | cramMD5
  | external
  | oauthBearer
  | xoauth2
  | scram (hash : ScramHash) (plus : Bool)
  deriving DecidableEq, Repr

namespace ServerMechanism

def all : List ServerMechanism :=
  [.plain, .login, .cramMD5, .external, .oauthBearer, .xoauth2, .scram .sha1 false,
    .scram .sha1 true, .scram .sha256 false, .scram .sha256 true]

def name : ServerMechanism → Bytes
  | .plain => ascii "PLAIN"
  | .login => ascii "LOGIN"
  | .cramMD5 => ascii "CRAM-MD5"
  | .external => ascii "EXTERNAL"
  | .oauthBearer => ascii "OAUTHBEARER"
  | .xoauth2 => ascii "XOAUTH2"
  | .scram .sha1 false => ascii "SCRAM-SHA-1"
  | .scram .sha1 true => ascii "SCRAM-SHA-1-PLUS"
  | .scram .sha256 false => ascii "SCRAM-SHA-256"
  | .scram .sha256 true => ascii "SCRAM-SHA-256-PLUS"

/-- The mechanism with the given name, in any case. -/
def ofName (w : Bytes) : Option ServerMechanism := all.find? fun m => m.name == toUpper w

def newHash : ServerMechanism → Option ScramHash
  | .scram hash _ => some hash
  | _ => none

def plus : ServerMechanism → Bool
  | .scram _ plus => plus
  | _ => false

end ServerMechanism

/-- The functions that the responder is built from. -/
structure ServerCrypto where
  hash : ScramHash → Bytes → Bytes
  /-- The key comes first. -/
  hmac : ScramHash → Bytes → Bytes → Bytes
  size : ScramHash → Nat
  hmac_length : ∀ h key v, (hmac h key v).length = size h
  /-- `base64.StdEncoding`. -/
  encode64 : Bytes → Bytes
  decode64 : Bytes → Option Bytes
  /-- `base64.RawStdEncoding`. -/
  rawEncode64 : Bytes → Bytes
  /-- `base64.RawURLEncoding`. -/
  urlEncode64 : Bytes → Bytes

/-- Functions that hide nothing.  Only the header without channel binding is encoded. -/
def ServerCrypto.plain : ServerCrypto where
  hash _ v := v
  hmac _ _ _ := [0]
  size _ := 1
  hmac_length _ _ _ := rfl
  encode64 v := v
  decode64 v := if v = ascii "biws" then some (ascii "n,,") else some v
  rawEncode64 v := v
  urlEncode64 v := v

/-! ### Requests and answers -/

inductive VerificationKind where
  | credentials
  | challengeResponse
  | scramKeys
  deriving DecidableEq, Repr

structure Credentials where
  authenticationID : Bytes := []
  authorizationID : Bytes := []
  password : Bytes := []
  token : Bytes := []
  deriving DecidableEq, Repr

/-- `VerificationRequest`: a question to the backend. -/
structure VerificationRequest where
  kind : VerificationKind
  mechanism : ServerMechanism
  credentials : Credentials := {}
  challenge : Bytes := []
  response : Bytes := []
  deriving DecidableEq, Repr

structure ScramKeys where
  salt : Bytes
  iterations : Int
  storedKey : Bytes
  serverKey : Bytes
  deriving DecidableEq, Repr

/-- `Verification`: the answer of the backend. -/
structure Verification where
  accepted : Bool := false
  failureChallenge : Option Bytes := none
  keys : Option ScramKeys := none
  deriving DecidableEq, Repr

/-- `ResponderStep`: what is to be done next. -/
structure ResponderStep where
  challenge : Option Bytes := none
  verification : Option VerificationRequest := none
  done : Bool := false
  accepted : Bool := false
  deriving DecidableEq, Repr

structure ResponderConfig where
  hostname : Bytes := []
  cramChallenge : Option Bytes := none
  channelBinding : Bytes := []
  testNonce : Bytes := []
  deriving DecidableEq, Repr

inductive ResponderError where
  /-- `ErrResponderState`. -/
  | state
  /-- `ErrResponderPayload`. -/
  | payload
  /-- `ErrResponderAborted`. -/
  | aborted
  /-- There are no random octets. -/
  | random
  | noKeys
  | invalidKeys
  deriving DecidableEq, Repr

/-! ### Messages -/

/-- The octets before and after the first comma. -/
def cutComma (w : Bytes) : Option (Bytes × Bytes) :=
  match w.dropWhile (· != comma) with
  | [] => none
  | _ :: rest => some (w.takeWhile (· != comma), rest)

def decodeSASLName : Bytes → Option Bytes
  | [] => some []
  | b :: w =>
    if b ≠ equals then (decodeSASLName w).map (b :: ·)
    else
      match w with
      | 50 :: 67 :: w => (decodeSASLName w).map (comma :: ·)
      | 51 :: 68 :: w => (decodeSASLName w).map (equals :: ·)
      | _ => none

/-- A value after `a=`, which may be missing. -/
def parseAuthzid (w : Bytes) : Option Bytes :=
  if w.isEmpty then some []
  else if !(ascii "a=").isPrefixOf w then none
  else decodeSASLName (w.drop 2)

/-- `parseSCRAMFields`: every field has another name. -/
def parseSCRAMFields (w : Bytes) : Option (List (UInt8 × Bytes)) :=
  collect (w.splitOn comma) []
  where
  collect : List Bytes → List (UInt8 × Bytes) → Option (List (UInt8 × Bytes))
    | [], out => some out
    | (name :: 61 :: b :: value) :: rest, out =>
      if (out.lookup name).isSome then none else collect rest ((name, b :: value) :: out)
    | _, _ => none

/-- The value of a field, empty if there is none. -/
def fieldOf (name : UInt8) (out : List (UInt8 × Bytes)) : Bytes := (out.lookup name).getD []

/-- `parseSCRAMClientFirst`: the header, the bare message and the authorization identity. -/
def parseSCRAMClientFirst (message : Bytes) (plus : Bool) : Option (Bytes × Bytes × Bytes) := do
  let (flag, rest) ← cutComma message
  let (authz, bare) ← cutComma rest
  if plus then guard (flag = ascii "p=tls-exporter")
  else guard (flag = ascii "n" ∨ flag = ascii "y")
  let authzid ← parseAuthzid authz
  guard (bare ≠ [])
  pure (flag ++ comma :: authz ++ [comma], bare, authzid)

/-- The message before its last `,p=`, and the proof after it, which has no comma. -/
def cutProof (message : Bytes) : Option (Bytes × Bytes) :=
  let proof := (message.reverse.takeWhile (· != comma)).reverse
  match message.reverse.dropWhile (· != comma) with
  | [] => none
  | _ :: before =>
    if (ascii "p=").isPrefixOf proof then some (before.reverse, proof.drop 2) else none

/-- The text after a beginning, of the last part that has it. -/
def lastAfter (beginning : Bytes) (parts : List Bytes) : Bytes :=
  match (parts.filter beginning.isPrefixOf).getLast? with
  | some part => part.drop beginning.length
  | none => []

/-- The parts of an OAuth message before its two empty ones. -/
def oauthParts (payload : Bytes) : Option (List Bytes) :=
  match (payload.splitOn 1).reverse with
  | [] :: [] :: part :: parts => some (part :: parts).reverse
  | _ => none

def bearer : Bytes := ascii "auth=Bearer "

def parseOAuthGS2 (header : Bytes) : Option Bytes :=
  if !(ascii "n,").isPrefixOf header || header.getLast? != some comma then none
  else
    let middle := header.drop 2
    parseAuthzid (if middle.getLast? = some comma then middle.dropLast else middle)

def parseOAuthBearer (payload : Bytes) : Option Credentials := do
  let parts ← oauthParts payload
  let authzid ← parseOAuthGS2 (parts.headD [])
  let token := lastAfter bearer parts.tail
  guard (token ≠ [])
  pure { authorizationID := authzid, token := token }

def parseXOAuth2 (payload : Bytes) : Option Credentials := do
  let parts ← oauthParts payload
  let username := lastAfter (ascii "user=") parts
  let token := lastAfter bearer parts
  guard (username ≠ [] ∧ token ≠ [])
  pure { authenticationID := username, token := token }

/-! ### The state machine -/

inductive ResponderState where
  | new
  | plain
  | loginUser
  | loginPassword
  | cram
  | external
  | oauth
  | oauthDummy
  | scramFirst
  | scramProof
  | scramEmpty
  | verify
  | done
  deriving DecidableEq, Repr

/-- `Responder`: one conversation. -/
structure Responder where
  mechanism : ServerMechanism
  cfg : ResponderConfig
  state : ResponderState := .new
  request : Option VerificationRequest := none
  challenge : Bytes := []
  username : Bytes := []
  gs2Header : Bytes := []
  clientFirst : Bytes := []
  serverFirst : Bytes := []
  combinedNonce : Bytes := []
  keys : Option ScramKeys := none
  deriving DecidableEq, Repr

/-- `NewResponder`: `none` if there is no such mechanism, or no binding for it. -/
def newResponder (name : Bytes) (cfg : ResponderConfig) : Option Responder := do
  let mechanism ← ServerMechanism.ofName name
  guard (!(mechanism.plus && cfg.channelBinding.isEmpty))
  pure { mechanism := mechanism, cfg := cfg }

/-- A call of a responder. -/
abbrev Respond (α : Type) := Exec Responder ResponderError α

def maxResponderPayload : Nat := 16384

namespace Responder

def setState (state : ResponderState) : Respond Unit :=
  Exec.update fun r => { r with state := state }

def challengeStep (challenge : Bytes) : ResponderStep := { challenge := some challenge }

/-- A challenge, and the state in which its response is awaited. -/
def ask (state : ResponderState) (challenge : Bytes) : Respond ResponderStep := do
  setState state
  pure (challengeStep challenge)

def verify (request : VerificationRequest) : Respond ResponderStep := do
  Exec.update fun r => { r with request := some request, state := .verify }
  pure { verification := some request }

def finish (accepted : Bool) : Respond ResponderStep := do
  setState .done
  pure { done := true, accepted := accepted }

/-- A part of a message, which must be there. -/
def expect {α : Type} (x : Option α) : Respond α :=
  match x with
  | some a => pure a
  | none => Exec.fail .payload

/-- The request for credentials. -/
def verifyCredentials (credentials : Credentials) : Respond ResponderStep := do
  let r ← Exec.read
  verify { kind := .credentials, mechanism := r.mechanism, credentials := credentials }

def plain (payload : Bytes) : Respond ResponderStep :=
  match payload.splitOn 0 with
  | [authorizationID, authenticationID, password] =>
    if authenticationID.isEmpty then Exec.fail .payload
    else verifyCredentials { authorizationID, authenticationID, password }
  | _ => Exec.fail .payload

def external (payload : Bytes) : Respond ResponderStep :=
  verifyCredentials { authorizationID := payload }

def oauth (payload : Bytes) : Respond ResponderStep := do
  let r ← Exec.read
  let credentials ← expect
    (if r.mechanism = .oauthBearer then parseOAuthBearer payload else parseXOAuth2 payload)
  verifyCredentials credentials

/-- `cramChallenge`, with random octets if there are any. -/
def cramChallenge (crypto : ServerCrypto) (random : Option Bytes) : Respond Bytes := do
  let r ← Exec.read
  match r.cfg.cramChallenge, random with
  | some challenge, _ => pure challenge
  | none, none => Exec.fail .random
  | none, some nonce =>
    let hostname := if r.cfg.hostname.isEmpty then ascii "localhost" else r.cfg.hostname
    pure (ascii "<" ++ crypto.urlEncode64 nonce ++ ascii "@" ++ hostname ++ ascii ">")

/-! ### SCRAM -/

/-- The nonce and the name of a client-first message. -/
def parseFirstFields (bare : Bytes) : Option (Bytes × Bytes) := do
  let out ← parseSCRAMFields bare
  guard (fieldOf 110 out ≠ [] ∧ fieldOf 114 out ≠ [] ∧ fieldOf 109 out = [])
  let username ← decodeSASLName (fieldOf 110 out)
  pure (fieldOf 114 out, username)

def scramFirst (payload : Bytes) : Respond ResponderStep := do
  let r ← Exec.read
  let (gs2, bare, authzid) ← expect (parseSCRAMClientFirst payload r.mechanism.plus)
  let (nonce, username) ← expect (parseFirstFields bare)
  Exec.update fun r => { r with gs2Header := gs2, clientFirst := bare, combinedNonce := nonce }
  verify { kind := .scramKeys, mechanism := r.mechanism,
           credentials := { authenticationID := username, authorizationID := authzid } }

/-- The hash function of a SCRAM mechanism; the other mechanisms have none to call. -/
def hashFunction : Respond ScramHash := do
  let r ← Exec.read
  match r.mechanism.newHash with
  | some hash => pure hash
  | none => fun r => (.panic, r)

/-- The keys of the backend fit the hash function. -/
def validKeys (size : Nat) (keys : ScramKeys) : Bool :=
  1 ≤ keys.iterations && keys.iterations ≤ maxSCRAMIterations && !keys.salt.isEmpty &&
    keys.storedKey.length == size && keys.serverKey.length == size

/-- The server-first message. -/
def serverFirstMessage (crypto : ServerCrypto) (nonce : Bytes) (keys : ScramKeys) : Bytes :=
  ascii "r=" ++ nonce ++ ascii ",s=" ++ crypto.encode64 keys.salt ++ ascii ",i=" ++
    ascii (toString keys.iterations)

/-- The part of the nonce that the server adds. -/
def serverNonce (crypto : ServerCrypto) (random : Option Bytes) : Respond Bytes := do
  let r ← Exec.read
  if !r.cfg.testNonce.isEmpty then pure r.cfg.testNonce
  else
    match random with
    | none => Exec.fail .random
    | some random => pure (crypto.rawEncode64 random)

def scramServerFirst (crypto : ServerCrypto) (random : Option Bytes) (keys : ScramKeys) :
    Respond ResponderStep := do
  let hash ← hashFunction
  if !validKeys (crypto.size hash) keys then Exec.fail .invalidKeys
  else
    let nonce ← serverNonce crypto random
    let r ← Exec.read
    let combined := r.combinedNonce ++ nonce
    let message := serverFirstMessage crypto combined keys
    Exec.update fun r =>
      { r with combinedNonce := combined, serverFirst := message, keys := some keys }
    ask .scramProof message

/-- The message without its proof, the channel binding and the proof of a client-final
message with the given nonce. -/
def parseClientFinal (crypto : ServerCrypto) (nonce message : Bytes) :
    Option (Bytes × Bytes × Bytes) := do
  let (withoutProof, proof64) ← cutProof message
  let out ← parseSCRAMFields withoutProof
  guard (fieldOf 99 out ≠ [] ∧ fieldOf 114 out = nonce)
  let channel ← crypto.decode64 (fieldOf 99 out)
  pure (withoutProof, channel, proof64)

/-- The proof hashes to the stored key over the messages. -/
def provesKey (crypto : ServerCrypto) (hash : ScramHash) (storedKey proof message : Bytes) : Bool :=
  crypto.hash hash (xor proof (crypto.hmac hash storedKey message)) == storedKey

def scramProof (crypto : ServerCrypto) (payload : Bytes) : Respond ResponderStep := do
  let r ← Exec.read
  let (withoutProof, channel, proof64) ← expect (parseClientFinal crypto r.combinedNonce payload)
  if channel ≠ r.gs2Header ++ (if r.mechanism.plus then r.cfg.channelBinding else []) then
    finish false
  else
    let proof ← expect (crypto.decode64 proof64)
    let hash ← hashFunction
    if proof.length ≠ crypto.size hash then Exec.fail .payload
    else
      match r.keys with
      | none => fun r => (.panic, r)
      | some keys =>
        let message := r.clientFirst ++ comma :: r.serverFirst ++ comma :: withoutProof
        if !provesKey crypto hash keys.storedKey proof message then finish false
        else
          ask .scramEmpty
            (ascii "v=" ++ crypto.encode64 (crypto.hmac hash keys.serverKey message))

/-! ### Calls -/

/-- The single octet that aborts an exchange. -/
def abort : Bytes := ascii "*"

/-- The first step of a mechanism. -/
def begin (crypto : ServerCrypto) (random : Option Bytes) (initial : Option Bytes) :
    Respond ResponderStep := do
  let r ← Exec.read
  match r.mechanism, initial with
  | .plain, none => ask .plain []
  | .plain, some payload => plain payload
  | .login, none => ask .loginUser (ascii "Username:")
  | .login, some username =>
    Exec.update fun r => { r with username := username }
    if username.isEmpty then Exec.fail .payload else ask .loginPassword (ascii "Password:")
  | .cramMD5, some _ => Exec.fail .payload
  | .cramMD5, none =>
    let challenge ← cramChallenge crypto random
    Exec.update fun r => { r with challenge := challenge }
    ask .cram challenge
  | .external, none => ask .external []
  | .external, some payload => external payload
  | .oauthBearer, none | .xoauth2, none => ask .oauth []
  | .oauthBearer, some payload | .xoauth2, some payload => oauth payload
  | .scram .., none => ask .scramFirst []
  | .scram .., some payload => scramFirst payload

/-- `Start`: the initial response may be missing. -/
def start (crypto : ServerCrypto) (random : Option Bytes) (initial : Option Bytes) :
    Respond ResponderStep := do
  let r ← Exec.read
  if r.state ≠ .new then Exec.fail .state
  else if (initial.getD []).length > maxResponderPayload then Exec.fail .payload
  else if initial = some abort then
    setState .done
    Exec.fail .aborted
  else begin crypto random initial

/-- `Next`: a response of the client. -/
def next (crypto : ServerCrypto) (response : Bytes) : Respond ResponderStep := do
  let r ← Exec.read
  if response = abort then
    setState .done
    Exec.fail .aborted
  else if response.length > maxResponderPayload then Exec.fail .payload
  else
    match r.state with
    | .plain => plain response
    | .loginUser =>
      if response.isEmpty then Exec.fail .payload
      else
        Exec.update fun r => { r with username := response }
        ask .loginPassword (ascii "Password:")
    | .loginPassword =>
      verifyCredentials { authenticationID := r.username, password := response }
    | .cram =>
      if response.isEmpty then Exec.fail .payload
      else
        verify { kind := .challengeResponse, mechanism := r.mechanism, challenge := r.challenge,
                 response := response }
    | .external => external response
    | .oauth => oauth response
    | .oauthDummy => if response ≠ [1] then Exec.fail .payload else finish false
    | .scramFirst => scramFirst response
    | .scramProof => scramProof crypto response
    | .scramEmpty => if !response.isEmpty then Exec.fail .payload else finish true
    | .new | .verify | .done => Exec.fail .state

/-- `Continue`, for the request that is answered. -/
def answered (crypto : ServerCrypto) (random : Option Bytes) (request : VerificationRequest)
    (result : Verification) : Respond ResponderStep := do
  let r ← Exec.read
  if request.kind = .scramKeys then
    if !result.accepted then finish false
    else
      match result.keys with
      | none => Exec.fail .noKeys
      | some keys => scramServerFirst crypto random keys
  else
    match result.failureChallenge with
    | none => finish result.accepted
    | some challenge =>
      if !result.accepted ∧ (r.mechanism = .oauthBearer ∨ r.mechanism = .xoauth2) then
        if challenge.length > maxResponderPayload then
          setState .done
          Exec.fail .payload
        else ask .oauthDummy challenge
      else finish result.accepted

/-- `Continue`: the answer of the backend. -/
def continueWith (crypto : ServerCrypto) (random : Option Bytes) (result : Verification) :
    Respond ResponderStep := do
  let r ← Exec.read
  match r.state, r.request with
  | .verify, some request =>
    Exec.update fun r => { r with request := none }
    answered crypto random request result
  | _, _ => Exec.fail .state

end Responder

/-- A call, with the random octets that it may draw. -/
inductive ResponderCall where
  | start (initial : Option Bytes) (random : Option Bytes)
  | next (response : Bytes)
  | answer (result : Verification) (random : Option Bytes)
  deriving DecidableEq, Repr

def Responder.call (crypto : ServerCrypto) : ResponderCall → Respond ResponderStep
  | .start initial random => start crypto random initial
  | .next response => next crypto response
  | .answer result random => continueWith crypto random result

end GoSmtp.Sasl
