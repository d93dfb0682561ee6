import GoSmtp.Client.Auth
import GoSmtp.Client.Content

/-!
# The calls of the client

The exported calls of `smtpclient` (`mail.go`, `rcpt.go`, `txn.go`, `verify.go`,
`ext_c_commands.go`, `starttls.go`, `client.go`), and sequences of them on one connection.
The encoding of parameters, and the checks on arguments that need no connection, are
arguments of the calls.
-/

namespace GoSmtp.Client

variable {φ ω α μ : Type}
variable (opts : Options) (env : Env φ ω)

open Sasl

/-! ### Commands -/

def commandLocked (verb : Bytes) (args : List Bytes)
    (allowed : List SessionState) : Call φ ω Reply := do
  requireState verb allowed
  executeOne opts env { verb := verb, args := args, syncPoint := isSyncPoint verb }

def command (verb : Bytes) (args : List Bytes)
    (allowed : List SessionState) : Call φ ω Reply := do
  if ← canceled env .before then Exec.fail .canceled
  else commandLocked opts env verb args allowed

/-- The outcome of a check that a call makes before it uses the connection. -/
def checked (check : Option (ClientError φ)) (m : Call φ ω α) : Call φ ω α :=
  match check with
  | some e => Exec.fail e
  | none => m

/-- A command whose reply is its only effect: the text of the reply. -/
def query (verb : Bytes) (args : List Bytes)
    (allowed : List SessionState) (want : List Int) : Call φ ω Bytes := do
  let r ← command opts env verb args allowed
  expectReply opts verb r want
  pure r.text

/-- The states between transactions. -/
def outsideTransaction : List SessionState := [.greeted, .tls, .authenticated]

/-- The states of a session that has been greeted. -/
def anyTime : List SessionState := [.greeted, .tls, .authenticated, .transaction]

/-- `Client.Noop`. -/
def noop : Call φ ω Bytes :=
  query opts env (ascii "NOOP") [] anyTime [250]

/-- `Client.Verify`. -/
def verify (address : Bytes) : Call φ ω Bytes :=
  checked (if address.isEmpty then some (.message (ascii "smtpclient: VRFY address is required"))
      else none)
    (query opts env (ascii "VRFY") [address] outsideTransaction [250, 251, 252])

/-- `Client.Expand`. -/
def expand (list : Bytes) : Call φ ω Bytes :=
  checked (if list.isEmpty then some (.message (ascii "smtpclient: EXPN list is required"))
      else none)
    (query opts env (ascii "EXPN") [list] outsideTransaction [250])

/-- `Client.Help`. -/
def help (topic : Bytes) : Call φ ω Bytes :=
  query opts env (ascii "HELP") (if topic.isEmpty then [] else [topic]) anyTime [211, 214]

/-- `Client.ETRN`, with the check of its node. -/
def etrn (check : Option (ClientError φ)) (node : Bytes) :
    Call φ ω Bytes :=
  checked check do
    let s ← Exec.read
    if !s.advertises (ascii "ETRN") then Exec.fail (missingExtension (ascii "ETRN"))
    else query opts env (ascii "ETRN") [node] outsideTransaction [250, 251, 252, 253]

/-- `Client.ATRN`, with the check of its domains.  After a 250 the roles are reversed, so the
connection is closed. -/
def atrn (check : Option (ClientError φ)) (args : List Bytes) :
    Call φ ω Unit :=
  checked check do
    let s ← Exec.read
    if !s.advertises (ascii "ATRN") then Exec.fail (missingExtension (ascii "ATRN"))
    else
      let r ← command opts env (ascii "ATRN") args [.authenticated]
      expectReply opts (ascii "ATRN") r [250]
      poisoned (.message (ascii
        "smtpclient: ATRN accepted; SMTP role reversal is unsupported and the connection was closed"))

/-! ### Transactions -/

/-- The arguments of `Client.Mail`. -/
structure MailRequest (φ ω : Type) where
  /-- `validatePath`. -/
  check : Option (ClientError φ)
  args : List Bytes
  /-- The error of `mailArgs`. -/
  encode : Conn φ ω → Option (ClientError φ)
  /-- How the encoders leave `binaryMIME`. -/
  binaryMIME : Bool → Bool
  smtpUTF8 : Bool

/-- `Client.Mail`. -/
def mail (m : MailRequest φ ω) : Call φ ω Unit :=
  checked m.check do
    let s ← Exec.read
    Exec.update fun s => { s with binaryMIME := m.binaryMIME s.binaryMIME }
    checked (m.encode s) do
      let r ← commandLocked opts env (ascii "MAIL") m.args outsideTransaction
      expectReply opts (ascii "MAIL") r [250]
      record .opened
      unlessClosed fun s =>
        { s with transactionBase := s.state, state := .transaction, recipients := [],
                 smtpUTF8 := m.smtpUTF8 }

/-- `Recipient`, with its encoded arguments. -/
structure Recipient where
  address : Bytes
  args : List Bytes
  deriving DecidableEq, Repr

/-- The command of a recipient. -/
def rcptCommand (r : Recipient) : QueuedCommand where
  verb := ascii "RCPT"
  args := r.args

/-- The recipients that were accepted. -/
def acceptedRecipients (recipients : List Recipient) (replies : List Reply) : List Bytes :=
  ((recipients.zip replies).filter fun x => x.2.code = 250 || x.2.code = 251).map (·.1.address)

/-- `rcptBatch`.  The check stands for the validation and encoding of the recipients. -/
def rcptBatch (recipients : List Recipient)
    (check : Conn φ ω → Option (ClientError φ)) : Call φ ω DataResult := do
  if ← canceled env .before then Exec.fail .canceled
  else if recipients.isEmpty then
    Exec.fail (.message (ascii "smtpclient: RcptBatch requires at least one recipient"))
  else
    requireState (ascii "RCPT") [.transaction]
    let s ← Exec.read
    checked (check s) do
      let replies ← executeLocked opts env (recipients.map rcptCommand)
      unlessClosed fun s =>
        { s with recipients := s.recipients ++ acceptedRecipients recipients replies }
      pure (List.zipWith
        (fun x r => recipientResult opts (ascii "RCPT") s.enhancedStatusCodes r x.address)
        recipients replies)

/-- `Client.Rcpt`. -/
def rcpt (recipient : Recipient)
    (check : Conn φ ω → Option (ClientError φ)) : Call φ ω Unit := do
  match ← rcptBatch opts env [recipient] check with
  | [x] =>
    if x.accepted then pure () else Exec.fail (.reply x.command ⟨x.code, x.enhanced, x.text⟩)
  | _ =>
    Exec.fail (.message (ascii "smtpclient: internal RCPT result cardinality mismatch"))

/-- `Client.Reset`. -/
def reset : Call φ ω Unit := do
  let r ← commandLocked opts env (ascii "RSET") [] anyTime
  expectReply opts (ascii "RSET") r [250]
  unlessClosed fun s =>
    { s with state := if s.state = .transaction then s.transactionBase else s.state,
             recipients := [], smtpUTF8 := false, binaryMIME := false }

/-! ### The connection -/

/-- The QUIT command, after which the connection is closed in any case. -/
def sendQuit : Call φ ω Unit := do
  let x ← Exec.attempt do
    let r ← executeOne opts env { verb := ascii "QUIT", syncPoint := true }
    expectReply opts (ascii "QUIT") r [221]
  poison
  match x with
  | .error e => Exec.fail e
  | .ok _ => pure ()

/-- `Client.Quit`. -/
def quit : Call φ ω Unit := do
  if ← canceled env .before then Exec.fail .canceled
  else
    let s ← Exec.read
    if s.closed then Exec.fail (.message (ascii "smtpclient: connection is closed"))
    else sendQuit opts env

/-- `Client.Close`. -/
def close : Call φ ω Unit := do
  let s ← Exec.read
  if s.closed then pure () else sendQuit opts env

/-- `Client.StartTLS`. -/
def startTLS : Call φ ω Unit := do
  if ← canceled env .before then Exec.fail .canceled
  else
    requireState (ascii "STARTTLS") [.greeted]
    let s ← Exec.read
    if !s.advertises (ascii "STARTTLS") then
      Exec.fail (.message (ascii "smtpclient: server did not advertise STARTTLS"))
    else
      let r ← executeOne opts env { verb := ascii "STARTTLS" }
      expectReply opts (ascii "STARTTLS") r [220]
      Exec.update fun s => { s with ext := [] }
      match ← outside env.handshake with
      | .error e =>
        if ← canceled env .after then poisoned .canceled
        else poisoned (.transport (ascii "TLS") (.io e))
      | .ok replies =>
        unlessClosed fun s => { s with replies := replies, state := .tls }
        ehloLocked opts env

/-! ### Sequences of calls -/

/-- A call, with its arguments. -/
inductive ClientCall (φ ω μ : Type) where
  | noop
  | verify (address : Bytes)
  | expand (list : Bytes)
  | help (topic : Bytes)
  | etrn (check : Option (ClientError φ)) (node : Bytes)
  | atrn (check : Option (ClientError φ)) (args : List Bytes)
  | mail (m : MailRequest φ ω)
  | rcpt (recipients : List Recipient) (check : Conn φ ω → Option (ClientError φ))
  | data (source : Source φ) (o : DataOptions)
  | burl (url : Bytes) (last : Bool)
  | reset
  | auth (select : Bytes → Except (ClientError φ) Bytes) (mech : Mechanism μ)
  | startTLS
  | quit
  | close

/-- A call whose value does not matter, as a pair that it returns. -/
def simple (m : Call φ ω α) : Call φ ω (Returned φ) :=
  returning do
    let _ ← m
    pure ⟨[], none⟩

/-- What a call does. -/
def perform (crypto : Crypto) :
    ClientCall φ ω μ → Call φ ω (Returned φ)
  | .noop => simple (noop opts env)
  | .verify address => simple (verify opts env address)
  | .expand list => simple (expand opts env list)
  | .help topic => simple (help opts env topic)
  | .etrn check node => simple (etrn opts env check node)
  | .atrn check args => simple (atrn opts env check args)
  | .mail m => simple (mail opts env m)
  | .rcpt recipients check => simple (rcptBatch opts env recipients check)
  | .data source o => data opts env source o
  | .burl url last => burl opts env url last
  | .reset => simple (reset opts env)
  | .auth select mech => simple (auth opts env crypto select mech)
  | .startTLS => simple (startTLS opts env)
  | .quit => simple (quit opts env)
  | .close => simple (close opts env)

/-- The connection after a sequence of calls, whatever they return. -/
def run (opts : Options) (env : Env φ ω) (crypto : Crypto) :
    List (ClientCall φ ω μ) → Conn φ ω → Conn φ ω
  | [], s => s
  | c :: calls, s => run opts env crypto calls (perform opts env crypto c s).2

end GoSmtp.Client
