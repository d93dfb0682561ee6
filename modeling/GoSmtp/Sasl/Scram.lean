import GoSmtp.Wire.Command

/-!
# SCRAM

The client side of SCRAM in `internal/smtpsasl/sasl.go`.  Hash functions and encodings are
parameters.
-/

namespace GoSmtp.Sasl

/-- `Mechanism`: a conversation with the state `μ`. -/
structure Mechanism (μ : Type) where
  /-- `Start`: the initial response, if there is one. -/
  start : Except Bytes (Option Bytes) × μ
  /-- `Next`: the response to a challenge, and whether it is the final one. -/
  next : Bytes → μ → Except Bytes (Bytes × Bool) × μ

/-- The functions that SCRAM is built from. -/
structure Crypto where
  hash : Bytes → Bytes
  /-- The key comes first. -/
  hmac : Bytes → Bytes → Bytes
  /-- `base64.StdEncoding`. -/
  encode64 : Bytes → Bytes
  decode64 : Bytes → Option Bytes

/-- Functions that hide nothing. -/
def Crypto.plain : Crypto where
  hash v := v
  hmac key v := key ++ v
  encode64 v := v
  decode64 v := some v

/-- `Config`, with the nonce that `Start` draws. -/
structure ScramConfig where
  username : Bytes
  password : Bytes
  nonce : Bytes
  /-- The mechanism is a `-PLUS` one. -/
  plus : Bool
  channelBinding : Bytes
  deriving DecidableEq, Repr

def comma : UInt8 := 44
def equals : UInt8 := 61

def saslName (v : Bytes) : Bytes :=
  v.flatMap fun b => if b = equals then ascii "=3D" else if b = comma then ascii "=2C" else [b]

/-- `parseFields` at one key: of several fields with the key the last one counts. -/
def field (key : UInt8) (v : Bytes) : Bytes :=
  match ((v.splitOn comma).filter isField).getLast? with
  | some x => x.drop 2
  | none => []
  where
  isField (x : Bytes) : Bool := 3 ≤ x.length && x[0]? == some key && x[1]? == some equals

/-- `strconv.Atoi`. -/
def atoi (w : Bytes) : Option Int :=
  match w with
  | 43 :: w => (digits w).map Int.ofNat
  | 45 :: w => (digits w).map fun n => -Int.ofNat n
  | w => (digits w).map Int.ofNat
  where
  digits (w : Bytes) : Option Nat :=
    if !w.isEmpty && w.all fun b => 48 ≤ b && b ≤ 57 then
      some (w.foldl (fun n b => 10 * n + (b - 48).toNat) 0)
    else none

def xor (a b : Bytes) : Bytes := List.zipWith (· ^^^ ·) a b

/-- The loop of `hi`, with the last block and their sum. -/
def hiLoop (crypto : Crypto) (password : Bytes) : Nat → Bytes → Bytes → Bytes
  | 0, _, out => out
  | n + 1, previous, out =>
    let block := crypto.hmac password previous
    hiLoop crypto password n block (xor out block)

def hi (crypto : Crypto) (password salt : Bytes) (iterations : Nat) : Bytes :=
  let first := crypto.hmac password (salt ++ [0, 0, 0, 1])
  hiLoop crypto password (iterations - 1) first first

def maxSCRAMIterations : Int := 100000

/-- The server-first message, as far as the client uses it. -/
structure ServerFirst where
  nonce : Bytes
  salt : Bytes
  iterations : Nat
  deriving DecidableEq, Repr

/-- The checks of `clientFinal`. -/
def parseServerFirst (crypto : Crypto) (cfg : ScramConfig) (msg : Bytes) :
    Except Bytes ServerFirst :=
  let nonce := field 114 msg
  let salt64 := field 115 msg
  if nonce.isEmpty || !cfg.nonce.isPrefixOf nonce || salt64.isEmpty then
    .error (ascii "smtpsasl: malformed SCRAM server-first message")
  else
    match atoi (field 105 msg) with
    | none => .error (ascii "smtpsasl: invalid SCRAM iteration count")
    | some iter =>
      if iter < 1 ∨ iter > maxSCRAMIterations then
        .error (ascii "smtpsasl: invalid SCRAM iteration count")
      else
        match crypto.decode64 salt64 with
        | none => .error (ascii "smtpsasl: invalid SCRAM salt")
        | some salt => .ok ⟨nonce, salt, iter.toNat⟩

/-- The header that announces channel binding. -/
def plusHeader : Bytes := ascii "p=tls-exporter,,"

def ScramConfig.firstBare (cfg : ScramConfig) : Bytes :=
  ascii "n=" ++ saslName cfg.username ++ ascii ",r=" ++ cfg.nonce

def ScramConfig.withoutProof (crypto : Crypto) (cfg : ScramConfig) (nonce : Bytes) : Bytes :=
  let cbind :=
    if cfg.plus then crypto.encode64 (plusHeader ++ cfg.channelBinding) else ascii "biws"
  ascii "c=" ++ cbind ++ ascii ",r=" ++ nonce

/-- The messages that both signatures are made over. -/
def authMessage (crypto : Crypto) (cfg : ScramConfig) (msg : Bytes) (first : ServerFirst) : Bytes :=
  cfg.firstBare ++ [comma] ++ msg ++ [comma] ++ cfg.withoutProof crypto first.nonce

/-- The signature that a server computes which knows the password. -/
def serverSignature (crypto : Crypto) (cfg : ScramConfig) (msg : Bytes) (first : ServerFirst) :
    Bytes :=
  let salted := hi crypto cfg.password first.salt first.iterations
  crypto.hmac (crypto.hmac salted (ascii "Server Key")) (authMessage crypto cfg msg first)

/-- The proof that the client knows the password. -/
def clientProof (crypto : Crypto) (cfg : ScramConfig) (msg : Bytes) (first : ServerFirst) :
    Bytes :=
  let salted := hi crypto cfg.password first.salt first.iterations
  let clientKey := crypto.hmac salted (ascii "Client Key")
  xor clientKey (crypto.hmac (crypto.hash clientKey) (authMessage crypto cfg msg first))

/-- The state of `scram` that changes. -/
structure Scram where
  step : Nat
  expected : Bytes
  deriving DecidableEq, Repr

def clientFinal (crypto : Crypto) (cfg : ScramConfig) (msg : Bytes) (m : Scram) :
    Except Bytes (Bytes × Bool) × Scram :=
  match parseServerFirst crypto cfg msg with
  | .error e => (.error e, m)
  | .ok first =>
    let response := cfg.withoutProof crypto first.nonce ++ ascii ",p=" ++
      crypto.encode64 (clientProof crypto cfg msg first)
    (.ok (response, false), { m with expected := serverSignature crypto cfg msg first })

/-- `scram` as a mechanism. -/
def scram (crypto : Crypto) (cfg : ScramConfig) : Mechanism Scram where
  start :=
    (.ok (some ((if cfg.plus then plusHeader else ascii "n,,") ++ cfg.firstBare)), ⟨0, []⟩)
  next challenge m :=
    match m.step with
    | 0 => clientFinal crypto cfg challenge { m with step := 1 }
    | 1 =>
      if field 118 challenge = crypto.encode64 m.expected then (.ok ([], true), { m with step := 2 })
      else (.error (ascii "smtpsasl: SCRAM server signature mismatch"), { m with step := 2 })
    | _ => (.error (ascii "smtpsasl: SCRAM received too many challenges"), m)

end GoSmtp.Sasl
