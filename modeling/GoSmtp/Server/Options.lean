import GoSmtp.Server.Session

/-!
# The options of a server

`NewServer` (`smtpserver/server.go`, `config.go`) fills in defaults, collects all problems of the
options, and builds the configuration of the sessions and of the spools from them.
-/

namespace GoSmtp.Server

/-! ### Options -/

/-- `Mode`. -/
inductive ModeOption where
  | unset
  | smtp
  | lmtp
  | other
  deriving DecidableEq, Repr

/-- `ServerOptions`, as far as `NewServer` looks at them. -/
structure ServerOptions where
  /-- The port of the listener, if there is a listener. -/
  listener : Option Nat
  /-- Whether there is a `Backend.NewSession`. -/
  newSession : Bool
  mode : ModeOption
  tlsConfig : Bool
  implicitTLS : Bool
  enableCHUNKING : Bool
  enableBINARYMIME : Bool
  maxSpoolBytes : Int
  maxSpoolMemoryBytes : Int
  maxTotalSpoolBytes : Int
  maxTotalSpoolMemoryBytes : Int
  maxConcurrentSpools : Int
  maxConnections : Int
  maxConnectionsPerSource : Int
  greetingIdentity : Bytes
  commandTimeout : Int
  dataTimeout : Int
  maxMessageBytes : Int
  maxRecipients : Int
  maxTransactions : Int
  requireTLS : Bool
  requireAuth : Bool
  authMechanismsBeforeTLS : Option (List Bytes)
  authMechanismsAfterTLS : Option (List Bytes)
  /-- The limits of messages are values of `int64`. -/
  maxMessageBytes_le : maxMessageBytes ≤ maxInt64
  maxSpoolBytes_le : maxSpoolBytes ≤ maxInt64

def defaultMaxConnections : Int := 1000
def defaultMaxConnectionsPerSource : Int := 32
def defaultMaxMessageBytes : Int := 64 * 2 ^ 20
def defaultMaxRecipients : Int := 100
def defaultMaxTransactions : Int := 100
/-- Five and ten minutes, in nanoseconds. -/
def defaultCommandTimeout : Int := 5 * 60 * 10 ^ 9
def defaultDataTimeout : Int := 10 * 60 * 10 ^ 9

def defaultAuthMechanismsAfterTLS : List Bytes :=
  ["SCRAM-SHA-256-PLUS", "SCRAM-SHA-256", "SCRAM-SHA-1-PLUS", "SCRAM-SHA-1", "CRAM-MD5",
    "OAUTHBEARER", "XOAUTH2", "EXTERNAL", "PLAIN", "LOGIN"].map ascii

/-- The value of an option, or its default. -/
def orDefault (value default : Int) : Int := if value = 0 then default else value

theorem orDefault_le {value default bound : Int} (h : value ≤ bound) (h' : default ≤ bound) :
  orDefault value default ≤ bound
  := by
  rw [orDefault]
  split
  · exact h'
  · exact h

/-- The options with the defaults filled in.  The default of `MaxMessageBytes` may be lowered
later. -/
def ServerOptions.withDefaults (localHostname : Bytes) (o : ServerOptions) : ServerOptions :=
  { o with
    maxConnections := orDefault o.maxConnections defaultMaxConnections
    maxConnectionsPerSource := orDefault o.maxConnectionsPerSource defaultMaxConnectionsPerSource
    greetingIdentity := if o.greetingIdentity.isEmpty then localHostname else o.greetingIdentity
    commandTimeout := orDefault o.commandTimeout defaultCommandTimeout
    dataTimeout := orDefault o.dataTimeout defaultDataTimeout
    maxMessageBytes := orDefault o.maxMessageBytes defaultMaxMessageBytes
    maxRecipients := orDefault o.maxRecipients defaultMaxRecipients
    maxTransactions := orDefault o.maxTransactions defaultMaxTransactions
    authMechanismsBeforeTLS := some (o.authMechanismsBeforeTLS.getD [])
    authMechanismsAfterTLS :=
      some (o.authMechanismsAfterTLS.getD defaultAuthMechanismsAfterTLS)
    maxMessageBytes_le := orDefault_le o.maxMessageBytes_le (by decide) }

/-! ### Problems -/

/-- The problem, if there is one. -/
def problem (wrong : Bool) (text : Bytes) : List Bytes := if wrong then [text] else []

def validateAuthMechanisms (field : Bytes) : Nat → List Bytes → List Bytes → List Bytes
  | _, _, [] => []
  | i, seen, mechanism :: mechanisms =>
    let name := toUpper mechanism
    if name.isEmpty then
      (field ++ ascii " contains an empty mechanism")
        :: validateAuthMechanisms field (i + 1) seen mechanisms
    else
      problem (!name.all fun c => (65 ≤ c && c ≤ 90) || (48 ≤ c && c ≤ 57) || c == 45)
          (field ++ ascii " contains an invalid mechanism at index " ++ ascii (toString i))
        ++ problem (seen.contains name) (field ++ ascii " contains duplicate mechanism " ++ name)
        ++ validateAuthMechanisms field (i + 1) (name :: seen) mechanisms

def ServerOptions.lmtp (o : ServerOptions) : Bool := o.mode = .lmtp

def validateConstruction (validGreetingIdentity : Bytes → Bool) (o : ServerOptions) : List Bytes :=
  problem o.listener.isNone (ascii "Listener is required")
    ++ problem (!o.newSession) (ascii "Backend.NewSession is required")
    ++ problem (o.lmtp && o.listener = some 25) (ascii "LMTP must not use TCP port 25")
    ++ problem (o.enableBINARYMIME && !o.enableCHUNKING) (ascii "BINARYMIME requires CHUNKING")
    ++ problem (!validGreetingIdentity o.greetingIdentity)
      (ascii "GreetingIdentity must be a domain or address-literal without whitespace")
    ++ problem (o.commandTimeout ≤ 0) (ascii "CommandTimeout must be positive")
    ++ problem (o.dataTimeout ≤ 0) (ascii "DataTimeout must be positive")
    ++ problem (o.maxMessageBytes ≤ 0) (ascii "MaxMessageBytes must be positive")
    ++ problem (o.maxRecipients < 100) (ascii "MaxRecipients must be at least 100")
    ++ problem (o.maxTransactions < 0 || 999999 < o.maxTransactions)
      (ascii "MaxTransactions must be between 0 and 999999")
    ++ validateAuthMechanisms (ascii "AuthMechanismsBeforeTLS") 0 []
      (o.authMechanismsBeforeTLS.getD [])
    ++ validateAuthMechanisms (ascii "AuthMechanismsAfterTLS") 0 []
      (o.authMechanismsAfterTLS.getD [])
    ++ (if o.enableCHUNKING then spools else [])
  where
  /-- The bounds of the spools. -/
  spools : List Bytes :=
    positive o.maxSpoolBytes (ascii "MaxSpoolBytes")
      ++ positive o.maxSpoolMemoryBytes (ascii "MaxSpoolMemoryBytes")
      ++ positive o.maxTotalSpoolBytes (ascii "MaxTotalSpoolBytes")
      ++ positive o.maxTotalSpoolMemoryBytes (ascii "MaxTotalSpoolMemoryBytes")
      ++ positive o.maxConcurrentSpools (ascii "MaxConcurrentSpools")
  /-- A bound that has to be positive. -/
  positive (value : Int) (field : Bytes) : List Bytes :=
    problem (value ≤ 0) (field ++ ascii " must be positive when CHUNKING is enabled")

/-- The message limit exceeds the spool limit. -/
def ServerOptions.exceedsSpool (o : ServerOptions) : Bool :=
  o.enableCHUNKING && 0 < o.maxSpoolBytes && o.maxSpoolBytes < o.maxMessageBytes

/-- All problems of the options, after the defaults are filled in; `explicit` tells whether
`MaxMessageBytes` was given. -/
def optionProblems (validGreetingIdentity : Bytes → Bool) (explicit : Bool) (o : ServerOptions) :
    List Bytes :=
  validateConstruction validGreetingIdentity o
    ++ problem (o.mode = .other) (ascii "Mode must be smtp or lmtp")
    ++ problem (o.implicitTLS && !o.tlsConfig) (ascii "TLSConfig is required for implicit TLS")
    ++ problem (o.requireTLS && !o.tlsConfig)
      (ascii "TLSConfig is required when RequireTLS is enabled")
    ++ problem (o.requireAuth && (o.authMechanismsBeforeTLS.getD []).isEmpty &&
        (!o.tlsConfig || (o.authMechanismsAfterTLS.getD []).isEmpty))
      (ascii "RequireAuth needs an AUTH mechanism before TLS or an available TLS-authentication path")
    ++ problem (o.maxConnections < 0) (ascii "MaxConnections must not be negative")
    ++ problem (o.maxConnectionsPerSource < 0)
      (ascii "MaxConnectionsPerSource must not be negative")
    ++ problem (o.exceedsSpool && explicit)
      (ascii "MaxMessageBytes must not exceed MaxSpoolBytes when CHUNKING is enabled")

/-- The problems in one text. -/
def joinProblems (problems : List Bytes) : Bytes := (ascii "; ").intercalate problems

/-! ### The server -/

/-- `newSpoolManager`: the checks of the bounds. -/
def newSpoolManager (o : ServerOptions) : Except Bytes SpoolOptions :=
  let problems :=
    problem (o.maxSpoolBytes ≤ 0) (ascii "MaxBytes must be positive")
      ++ problem (o.maxSpoolMemoryBytes ≤ 0) (ascii "MaxMemoryBytes must be positive")
      ++ problem (o.maxTotalSpoolBytes ≤ 0) (ascii "MaxTotalBytes must be positive")
      ++ problem (o.maxTotalSpoolMemoryBytes ≤ 0) (ascii "MaxTotalMemoryBytes must be positive")
      ++ problem (o.maxConcurrentSpools ≤ 0) (ascii "MaxConcurrent must be positive")
  if problems.isEmpty then
    .ok
      { maxBytes := o.maxSpoolBytes.toNat
        maxMemoryBytes := o.maxSpoolMemoryBytes.toNat
        maxTotalBytes := o.maxTotalSpoolBytes.toNat
        maxTotalMemoryBytes := o.maxTotalSpoolMemoryBytes.toNat
        maxConcurrent := o.maxConcurrentSpools.toNat }
  else
    .error (ascii "smtpserver: invalid spool options: " ++ joinProblems problems)

set_option linter.dupNamespace false in
/-- `Server`, as far as its connections use it. -/
structure Server where
  config : Config
  implicitTLS : Bool
  /-- The options of the spool manager, if CHUNKING is enabled. -/
  spools : Option SpoolOptions
  maxConnections : Nat
  maxConnectionsPerSource : Nat

/-- What the configuration needs besides the options: the syntax of arguments, and the
capabilities and mechanisms that the options and the backend give. -/
structure Surroundings where
  localHostname : Bytes
  grammar : Grammar
  capabilities : ServerOptions → ProtocolState → List Bytes
  authMechanisms : ServerOptions → ProtocolState → Bool → List Bytes

/-- The limit of messages: the default is lowered to the limit of spools. -/
def ServerOptions.messageLimit (o : ServerOptions) : Int :=
  if o.exceedsSpool then o.maxSpoolBytes else o.maxMessageBytes

theorem ServerOptions.messageLimit_le (o : ServerOptions) :
  o.messageLimit ≤ maxInt64
  := by
  rw [messageLimit]
  split
  · exact o.maxSpoolBytes_le
  · exact o.maxMessageBytes_le

theorem problem_eq_nil {wrong : Bool} {text : Bytes} :
  problem wrong text = [] ↔ wrong = false
  := by
  cases wrong <;> simp [problem]

theorem ServerOptions.messageLimit_pos {o : ServerOptions} {valid : Bytes → Bool} {explicit : Bool}
    (h : optionProblems valid explicit o = []) :
  0 < o.messageLimit
  := by
  have hmessage : ¬ o.maxMessageBytes ≤ 0 := by
    simp only [optionProblems, validateConstruction, List.append_eq_nil_iff, problem_eq_nil] at h
    simp_all
  rw [messageLimit]
  split
  · next hover =>
    simp only [exceedsSpool, Bool.and_eq_true, decide_eq_true_eq] at hover
    exact hover.1.2
  · omega

/-- The options with the names of mechanisms in upper case, as their check leaves them. -/
def ServerOptions.upperMechanisms (o : ServerOptions) : ServerOptions :=
  { o with
    authMechanismsBeforeTLS := o.authMechanismsBeforeTLS.map (·.map toUpper)
    authMechanismsAfterTLS := o.authMechanismsAfterTLS.map (·.map toUpper) }

/-- The configuration of the sessions. -/
def ServerOptions.config (e : Surroundings) (o : ServerOptions) (hpos : 0 < o.messageLimit) :
    Config where
  mode := if o.lmtp then .lmtp else .smtp
  identity := o.greetingIdentity
  maxMessage := o.messageLimit.toNat
  maxMessage_pos := by omega
  maxMessage_le := by
    have := o.messageLimit_le
    omega
  maxRcpt := o.maxRecipients.toNat
  maxTransactions := o.maxTransactions.toNat
  chunking := o.enableCHUNKING
  requireTLS := o.requireTLS
  requireAuth := o.requireAuth
  tlsConfig := o.tlsConfig
  grammar := e.grammar
  capabilities := e.capabilities o.upperMechanisms
  authMechanisms := e.authMechanisms o.upperMechanisms

def newServer (e : Surroundings) (options : ServerOptions) : Except Bytes Server :=
  let o := options.withDefaults e.localHostname
  let problems := optionProblems e.grammar.validGreetingIdentity (options.maxMessageBytes != 0) o
  if h : problems = [] then do
    let spools ← if o.enableCHUNKING then some <$> newSpoolManager o else pure none
    pure
      { config := o.config e (o.messageLimit_pos h)
        implicitTLS := o.implicitTLS
        spools
        maxConnections := o.maxConnections.toNat
        maxConnectionsPerSource := o.maxConnectionsPerSource.toNat }
  else
    .error (ascii "smtpserver: invalid server options: " ++ joinProblems problems)

theorem newSpoolManager_of_valid {valid : Bytes → Bool} {explicit : Bool} {o : ServerOptions}
    (h : optionProblems valid explicit o = []) (hchunking : o.enableCHUNKING = true) :
  ∃ opts, newSpoolManager o = .ok opts ∧ opts.maxBytes = o.maxSpoolBytes.toNat
  := by
  have hspools : validateConstruction.spools o = [] := by
    simp only [optionProblems, validateConstruction, List.append_eq_nil_iff, hchunking,
      if_true] at h
    exact h.1.1.1.1.1.1.1.2
  simp only [validateConstruction.spools, validateConstruction.positive, List.append_eq_nil_iff,
    problem_eq_nil, decide_eq_false_iff_not] at hspools
  exact ⟨_, if_pos (by simp [problem, hspools]), rfl⟩

theorem newServer_eq_ok {e : Surroundings} {options : ServerOptions} {server : Server}
    (h : newServer e options = .ok server) :
  let o := options.withDefaults e.localHostname
  optionProblems e.grammar.validGreetingIdentity (options.maxMessageBytes != 0) o = [] ∧
  (∃ hpos, server.config = o.config e hpos) ∧
  (o.enableCHUNKING = true → ∃ opts, server.spools = some opts ∧
    opts.maxBytes = o.maxSpoolBytes.toNat)
  := by
  intro o
  rw [newServer] at h
  split at h
  · next hvalid =>
    refine ⟨hvalid, ?_⟩
    split at h
    · next hchunking =>
      obtain ⟨opts, hopts, hbytes⟩ := newSpoolManager_of_valid hvalid hchunking
      rw [hopts] at h
      obtain rfl : _ = server := Except.ok.inj h
      exact ⟨⟨o.messageLimit_pos hvalid, rfl⟩, fun _ => ⟨opts, rfl, hbytes⟩⟩
    · next hchunking =>
      obtain rfl : _ = server := Except.ok.inj h
      exact ⟨⟨o.messageLimit_pos hvalid, rfl⟩, fun h => absurd h hchunking⟩
  · cases h

/-- A spool holds no message that is too large, unless its bound is above the limit of messages
that the options give. -/
theorem newServer_maxBytes_le {e : Surroundings} {options : ServerOptions} {server : Server}
    (h : newServer e options = .ok server) (hchunking : server.config.chunking = true)
    (hlimit : options.maxSpoolBytes ≤ (options.withDefaults e.localHostname).maxMessageBytes) :
  ∃ opts, server.spools = some opts ∧ opts.maxBytes ≤ server.config.maxMessage
  := by
  obtain ⟨-, ⟨hpos, hconfig⟩, hspools⟩ := newServer_eq_ok h
  rw [hconfig] at hchunking ⊢
  obtain ⟨opts, hopts, hbytes⟩ := hspools hchunking
  refine ⟨opts, hopts, ?_⟩
  rw [hbytes]
  simp only [ServerOptions.config, ServerOptions.messageLimit]
  split
  · exact Nat.le_refl _
  · exact Int.toNat_le_toNat hlimit

theorem newServer_maxTransactions {e : Surroundings} {options : ServerOptions} {server : Server}
    (h : newServer e options = .ok server) :
  0 < server.config.maxTransactions ∧ server.config.maxTransactions ≤ 999999
  := by
  obtain ⟨hvalid, ⟨hpos, hconfig⟩, -⟩ := newServer_eq_ok h
  rw [hconfig]
  have hbounds : ¬ ((options.withDefaults e.localHostname).maxTransactions < 0 ∨
      999999 < (options.withDefaults e.localHostname).maxTransactions) := by
    simp only [optionProblems, validateConstruction, List.append_eq_nil_iff, problem_eq_nil] at hvalid
    simp_all
  have hdefault : (options.withDefaults e.localHostname).maxTransactions ≠ 0 := by
    simp only [ServerOptions.withDefaults, orDefault]
    split
    · decide
    · next hne => exact hne
  simp only [ServerOptions.config]
  omega

/-- Surroundings without capabilities. -/
def Surroundings.plain : Surroundings where
  localHostname := ascii "b"
  grammar := .bracketed
  capabilities _ _ := []
  authMechanisms _ _ _ := []

/-- Options with CHUNKING, for messages of `limit` octets and spools of eight. -/
def ServerOptions.chunked (limit : Nat) (h : limit ≤ 8) : ServerOptions where
  listener := some 2525
  newSession := true
  mode := .unset
  tlsConfig := false
  implicitTLS := false
  enableCHUNKING := true
  enableBINARYMIME := false
  maxSpoolBytes := 8
  maxSpoolMemoryBytes := 8
  maxTotalSpoolBytes := 8
  maxTotalSpoolMemoryBytes := 8
  maxConcurrentSpools := 1
  maxConnections := 0
  maxConnectionsPerSource := 0
  greetingIdentity := []
  commandTimeout := 0
  dataTimeout := 0
  maxMessageBytes := limit
  maxRecipients := 0
  maxTransactions := 0
  requireTLS := false
  requireAuth := false
  authMechanismsBeforeTLS := none
  authMechanismsAfterTLS := some []
  maxMessageBytes_le := by
    have : (8 : Int) ≤ maxInt64 := by decide
    omega
  maxSpoolBytes_le := by decide

/-- The server with these options. -/
def chunkedServer (limit : Nat) (h : 0 < limit ∧ limit ≤ 8) : Server where
  config :=
    { mode := .smtp
      identity := ascii "b"
      maxMessage := limit
      maxMessage_pos := h.1
      maxMessage_le := by
        have : (8 : Nat) ≤ maxInt64 := by decide
        omega
      maxRcpt := 100
      maxTransactions := 100
      chunking := true
      requireTLS := false
      requireAuth := false
      tlsConfig := false
      grammar := .bracketed
      capabilities _ := []
      authMechanisms _ _ := [] }
  implicitTLS := false
  spools := some ⟨8, 8, 8, 8, 1⟩
  maxConnections := 1000
  maxConnectionsPerSource := 32

theorem newServer_chunked :
  newServer .plain (.chunked 2 (by decide)) = .ok (chunkedServer 2 (by decide)) ∧
  newServer .plain (.chunked 8 (by decide)) = .ok (chunkedServer 8 (by decide))
  := ⟨rfl, rfl⟩

end GoSmtp.Server
