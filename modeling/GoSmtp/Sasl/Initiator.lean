import GoSmtp.Sasl.Responder

/-!
# The initiator

The client side of the mechanisms, `internal/smtpsasl/sasl.go`.  SCRAM has a module of its
own.
-/

namespace GoSmtp.Sasl

variable (crypto : ServerCrypto)

/-- `Config`, with the nonce that SCRAM draws. -/
structure Config where
  username : Bytes := []
  password : Bytes := []
  authorizationID : Bytes := []
  token : Bytes := []
  channelBinding : Bytes := []
  nonce : Bytes := []
  deriving DecidableEq, Repr

/-- The functions of SCRAM with one hash function. -/
def ServerCrypto.initiator (hash : ScramHash) : Crypto where
  hash := crypto.hash hash
  hmac := crypto.hmac hash
  encode64 := crypto.encode64
  decode64 := crypto.decode64

def hexDigit (n : UInt8) : UInt8 := if n < 10 then 48 + n else 87 + n

/-- The verb `%x` on a digest. -/
def hexadecimal (v : Bytes) : Bytes := v.flatMap fun b => [hexDigit (b / 16), hexDigit (b % 16)]

/-- A mechanism that has everything to say in its initial response. -/
def oneMessage (message : Bytes) (next : Except Bytes (Bytes × Bool)) : Mechanism Scram where
  start := (.ok (some message), ⟨0, []⟩)
  next _ m := (next, m)

/-- `plain`. -/
def plainInitiator (cfg : Config) : Mechanism Scram :=
  oneMessage (cfg.authorizationID ++ 0 :: cfg.username ++ 0 :: cfg.password)
    (.error (ascii "smtpsasl: PLAIN received an unexpected challenge"))

/-- `login`. -/
def loginInitiator (cfg : Config) : Mechanism Scram where
  start := (.ok none, ⟨0, []⟩)
  next _ m :=
    match m.step with
    | 0 => (.ok (cfg.username, false), { m with step := 1 })
    | 1 => (.ok (cfg.password, true), { m with step := 2 })
    | n => (.error (ascii "smtpsasl: LOGIN received too many challenges"), { m with step := n + 1 })

/-- `cramMD5`. -/
def cramMD5Initiator (hmacMD5 : Bytes → Bytes → Bytes) (cfg : Config) : Mechanism Scram where
  start := (.ok none, ⟨0, []⟩)
  next challenge m :=
    (.ok (cfg.username ++ sp :: hexadecimal (hmacMD5 cfg.password challenge), true), m)

/-- `external`. -/
def externalInitiator (cfg : Config) : Mechanism Scram :=
  oneMessage cfg.authorizationID
    (.error (ascii "smtpsasl: EXTERNAL received an unexpected challenge"))

/-- The authorization identity of `oauthBearer`. -/
def Config.bearerID (cfg : Config) : Bytes :=
  if cfg.authorizationID.isEmpty then cfg.username else cfg.authorizationID

/-- `oauthBearer`. -/
def oauthBearerInitiator (cfg : Config) : Mechanism Scram :=
  oneMessage
    (ascii "n,a=" ++ saslName cfg.bearerID ++ ascii "," ++ 1 :: (bearer ++ cfg.token ++ [1, 1]))
    (.ok ([1], true))

/-- `xoauth2`. -/
def xoauth2Initiator (cfg : Config) : Mechanism Scram :=
  oneMessage (ascii "user=" ++ cfg.username ++ 1 :: (bearer ++ cfg.token ++ [1, 1]))
    (.ok ([1], true))

/-- The part of the configuration that `scram` uses. -/
def Config.scram (cfg : Config) (plus : Bool) : ScramConfig where
  username := cfg.username
  password := cfg.password
  nonce := cfg.nonce
  plus := plus
  channelBinding := cfg.channelBinding

/-- The conversation of a mechanism. -/
def initiator (hmacMD5 : Bytes → Bytes → Bytes) (cfg : Config) :
    ServerMechanism → Mechanism Scram
  | .plain => plainInitiator cfg
  | .login => loginInitiator cfg
  | .cramMD5 => cramMD5Initiator hmacMD5 cfg
  | .external => externalInitiator cfg
  | .oauthBearer => oauthBearerInitiator cfg
  | .xoauth2 => xoauth2Initiator cfg
  | .scram hash plus => scram (crypto.initiator hash) (cfg.scram plus)

/-- `New`. -/
def newMechanism (hmacMD5 : Bytes → Bytes → Bytes) (name : Bytes)
    (cfg : Config) : Except Bytes (Mechanism Scram) :=
  match ServerMechanism.ofName name with
  | none => .error (ascii "smtpsasl: unsupported mechanism \"" ++ name ++ ascii "\"")
  | some mechanism =>
    if mechanism.plus && cfg.channelBinding.isEmpty then
      .error (ascii "smtpsasl: channel binding is required for SCRAM-PLUS")
    else .ok (initiator crypto hmacMD5 cfg mechanism)

/-- Whether a mechanism sends an initial response. -/
def ServerMechanism.speaksFirst : ServerMechanism → Bool
  | .login | .cramMD5 => false
  | _ => true

/-- Every conversation starts, and whether it does so with a response depends on the mechanism
only. -/
theorem initiator_start (hmacMD5 : Bytes → Bytes → Bytes) (cfg : Config)
    (mechanism : ServerMechanism) :
  ∃ initial m, (initiator crypto hmacMD5 cfg mechanism).start = (.ok initial, m)
    ∧ initial.isSome = mechanism.speaksFirst
  := by
  cases mechanism <;> exact ⟨_, _, rfl, rfl⟩

end GoSmtp.Sasl
