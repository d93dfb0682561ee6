import GoSmtp.Server.Session
import GoSmtp.Wire.Fields

/-!
# The commands

The command handlers of the server (`smtpserver/cmd_session.go`, `cmd_data.go`,
`cmd_auth.go`, `floor_extensions.go`, `ext_atrn.go`), their dispatch, and the command
loop (`loop.go`) with its end.
-/

namespace GoSmtp.Server.Session

variable {φ ω α : Type}
variable (cfg : Config) (env : Env φ ω)

/-! ### Common replies -/

def syntaxReply (name : Bytes) : Call φ ω CommandAction := do
  writeReply env { code := 501, enhanced := ⟨5, 5, 2, []⟩, text := ascii "Invalid " ++ name }
  pure sync

def policyReply (text : Bytes) : Call φ ω CommandAction := do
  writeReply env { code := 530, enhanced := ⟨5, 7, 0, []⟩, text := text }
  pure {}

def notImplementedReply (command : Bytes) : Call φ ω CommandAction := do
  writeReply env { code := 502, enhanced := ⟨5, 5, 1, []⟩,
                   text := command ++ ascii " not implemented" }
  pure sync

def noRecipientsReply : Call φ ω CommandAction := do
  writeReply env { code := 503, enhanced := ⟨5, 5, 1, []⟩, text := ascii "No valid recipients" }
  pure sync

def genericEnhanced (code : Int) : EnhancedCode :=
  if code.tdiv 100 ∈ [2, 4, 5] then ⟨code.tdiv 100, 0, 0, []⟩ else .zero

def errorReply (e : BackendError) (fallbackCode : Int) (fallbackText : Bytes) : WireReply :=
  match e with
  | .protocol e =>
    if e.code ≥ 200 then
      { code := e.code, enhanced := (e.enhanced.normalize e.code).1,
        text := if e.text.isEmpty then fallbackText else e.text }
    else { code := fallbackCode, enhanced := genericEnhanced fallbackCode, text := fallbackText }
  | .other =>
    { code := fallbackCode, enhanced := genericEnhanced fallbackCode, text := fallbackText }

def synchronizationPoint : Verb → Bool
  | .mail | .rcpt | .rset | .bdat => false
  | _ => true

def backendReply (verb : Verb) (e : BackendError)
    (fallbackText : Bytes := ascii "Temporary server failure") : Call φ ω CommandAction := do
  writeReply env (errorReply e 451 fallbackText)
  pure { synchronizationPoint := synchronizationPoint verb }

/-! ### Greetings -/

/-- `ParseHelloCommand` and the check of its domain. -/
def parseHello (argument : Bytes) : Option Bytes :=
  if argument.isEmpty || argument.contains sp || !cfg.grammar.validGreetingIdentity argument then
    none
  else some argument

def handleHello (verb : Verb) (c : Command) :
    Call φ ω CommandAction := do
  match parseHello cfg c.argument with
  | none => syntaxReply env (ascii "HELO/EHLO/LHLO argument")
  | some domain =>
    resetTransaction env .explicit
    transition .hello
    Exec.update fun s =>
      { s with state.hello := domain, extended := verb ≠ .helo, smtpUTF8 := false,
               binaryMIME := false, recipients := [] }
    let s ← Exec.read
    if cfg.requireAuth ∧ s.state.tls ∧ !s.state.authenticated ∧
        (cfg.authMechanisms s.state s.extended).isEmpty then
      writeReply env { code := 421, enhanced := ⟨4, 3, 0, []⟩,
                       text := ascii "Service not available" }
      pure { synchronizationPoint := true, closeConnection := true }
    else if verb = .helo then
      writeReply env { code := 250, text := cfg.identity, context := .hello }
      pure sync
    else
      -- `EncodeEHLOReply`.
      writeReply env { code := 250, lines := cfg.identity :: cfg.capabilities s.state,
                       context := .hello }
      pure sync

/-! ### Envelopes -/

def sizeExceededText : Bytes := ascii "Message size exceeds fixed maximum message size"

/-- A new MAIL abandons the open transaction. -/
def abandonTransaction : Call φ ω Unit := do
  let s ← Exec.read
  if s.transactionOpen then
    lifecycleReset env .newMail
    transition .transactionFailed
    clearTransaction
  else pure ()

def handleMail (c : Command) : Call φ ω CommandAction := do
  let s ← Exec.read
  if cfg.requireTLS && !s.state.tls then policyReply env (ascii "TLS is required")
  else if cfg.requireAuth && !s.state.authenticated then
    policyReply env (ascii "Authentication is required")
  else
    match cfg.grammar.reversePath c.argument with
    | none => syntaxReply env (ascii "MAIL FROM path")
    | some path =>
      match s.extended, path.params with
      | false, param :: _ => syntaxReply env param.keyword
      | _, _ =>
        match cfg.grammar.mailParams s.state s.extended path with
        | .error keyword => syntaxReply env keyword
        | .ok params =>
          if path.mailbox.any (128 ≤ ·) && !params.smtpUTF8 then
            syntaxReply env (ascii "SMTPUTF8")
          else accept path params
  where
  /-- The command once its arguments are known to be fine. -/
  accept (path : Path) (params : MailParams) : Call φ ω CommandAction := do
    abandonTransaction env
    if params.size.any ((cfg.maxMessage : Int) < ·) then
      writeReply env { code := 552, enhanced := ⟨5, 3, 4, []⟩, text := sizeExceededText }
      pure {}
    else
      match ← lifecycleMail env path.mailbox params with
      | .error e =>
        let s ← Exec.read
        if s.state.phase = .mail ∨ s.state.phase = .recipients then
          let _ ← Exec.attempt (transition .transactionFailed)
        else pure ()
        clearTransaction
        backendReply env .mail e
      | .ok _ =>
        transition .mailAccepted
        Exec.update fun s =>
          { s with smtpUTF8 := params.smtpUTF8, binaryMIME := params.binaryMIME,
                   recipients := [] }
        writeReply env { code := 250, enhanced := ⟨2, 1, 0, []⟩, text := ascii "Sender OK" }
        pure {}

/-- `validateRcptSuccessLines`. -/
def validSuccessLines (lines : List Bytes) : Bool :=
  lines.all fun l => !l.isEmpty && !l.any fun b => b == cr || b == lf || b == 0

def handleRcpt (c : Command) : Call φ ω CommandAction := do
  let s ← Exec.read
  match cfg.grammar.forwardPath s.smtpUTF8 c.argument with
  | none => syntaxReply env (ascii "RCPT TO path")
  | some path =>
    match s.extended, path.params with
    | false, param :: _ => syntaxReply env param.keyword
    | _, _ =>
      if s.recipients.length ≥ cfg.maxRcpt then
        writeReply env { code := 452, enhanced := ⟨4, 5, 3, []⟩,
                         text := ascii "Too many recipients" }
        pure {}
      else
        match cfg.grammar.rcptParams path with
        | some keyword => syntaxReply env keyword
        | none =>
          record .rcptCall
          match ← callback (env.rcpt path.mailbox) with
          | .error e => backendReply env .rcpt e
          | .ok lines =>
            if validSuccessLines lines then accept path lines
            else backendReply env .rcpt .other
  where
  /-- The recipient is accepted, with the extra lines of the backend. -/
  accept (path : Path) (lines : List Bytes) : Call φ ω CommandAction := do
    Exec.update fun s => { s with recipients := s.recipients ++ [path.mailbox] }
    record (.rcpt path.mailbox)
    let s ← Exec.read
    if s.state.phase = .mail then transition .recipientAccepted else pure ()
    if lines.isEmpty then
      writeReply env { code := 250, enhanced := ⟨2, 1, 5, []⟩, text := ascii "Recipient OK" }
    else writeReply env { code := 250, lines := ascii "Recipient OK" :: lines }
    pure {}

def handleRSET (c : Command) : Call φ ω CommandAction := do
  if !c.argument.isEmpty then syntaxReply env (ascii "RSET")
  else
    resetIfOpen env .explicit
    transition .reset
    clearTransaction
    writeReply env { code := 250, enhanced := ⟨2, 0, 0, []⟩, text := ascii "Reset state" }
    pure {}

/-! ### Content -/

/-- The backend has decided what becomes of the message: it returns no error and one result for
every reply, in LMTP under the name of its recipient, and does not accept content that it has not
read to the end. -/
def authoritative (mode : ListenerMode) (recipients : List Bytes) (exhausted : Bool) :
    Option (DataResult × Option BackendError) → Bool
  | some (result, none) =>
    !recipients.isEmpty && result.length = resultCount mode recipients &&
      (mode = .smtp || result.map (·.recipient) = recipients) &&
      (exhausted || !result.any (·.normalize.1.accepted))
  | _ => false

/-- `evaluateContent`: the evaluation, `none` for a panic, and the source afterwards. -/
def evaluateContent {σ : Type} (command : Bytes)
    (r : Reader σ UInt8 (ContentError φ)) (source : Source) (size : Nat) (content : σ) :
    Call φ ω (Option (DataEvaluation φ) × σ) := do
  let s ← Exec.read
  let header ← outside (env.received s.state s.extended s.recipients)
  record (.traced s.state s.extended header)
  match header with
  | none => Exec.fail .received
  | some header =>
    record (.dataCall source)
    let s ← Exec.read
    let t : TrackedDataReader _ := ⟨⟨some header, false, content⟩, false⟩
    let answer := (env.data s.world).run (tracked r) t
    record (.outcome
      (authoritative s.state.mode s.recipients answer.2.2.exhausted answer.1))
    let x := evaluateDataCall s.state.mode s.recipients command r (header.length + size + 2)
      (env.data s.world) t
    Exec.update fun s => { s with world := x.2.1 }
    pure (x.1, x.2.2.reader.source)

/-- The reply that reports a result. -/
def resultReply (result : RecipientResult) : WireReply :=
  let normalized := result.normalize.1
  { code := normalized.code, enhanced := normalized.enhanced,
    text := if normalized.text.isEmpty then ascii "OK" else normalized.text }

def writeResult (result : RecipientResult) : Call φ ω Unit :=
  writeReply env (resultReply result)

def writeResults (env : Env φ ω) : DataResult → Call φ ω Unit
  | [] => pure ()
  | r :: rs => do
      writeResult env r
      writeResults env rs

def finishContent (evaluation : DataEvaluation φ) : Call φ ω CommandAction :=
  if evaluation.closeConnection then
    match evaluation.cause with
    | some cause => Exec.fail (.content cause)
    | none => pure { closeConnection := true }
  else
    let reason := if evaluation.completed then .completed else .failed
    let event := if evaluation.completed then .transactionComplete else .transactionFailed
    Exec.defer
      (do
        record .emit
        writeResults env evaluation.result
        pure sync)
      (do
        lifecycleReset env reason
        clearTransaction
        transition event)

def sizeExceededEvaluation (s : Session φ ω) (command : Bytes) : DataEvaluation φ where
  result := uniformResult s.state.mode s.recipients command 552 ⟨5, 3, 4, []⟩ sizeExceededText

def handleDATA (c : Command) : Call φ ω CommandAction := do
  let s ← Exec.read
  if !c.argument.isEmpty then syntaxReply env (ascii "DATA")
  else if s.recipients.isEmpty then noRecipientsReply env
  else if s.binaryMIME then
    writeReply env { code := 503, enhanced := ⟨5, 5, 1, []⟩,
                     text := ascii "BINARYMIME requires BDAT" }
    pure sync
  else
    writeReply env { code := 354, text := ascii "End data with <CRLF>.<CRLF>" }
    transport env.flush
    await env .content
    receive cfg env
  where
  /-- The content, after the 354 reply. -/
  receive (cfg : Config) (env : Env φ ω) : Call φ ω CommandAction := do
    let s ← Exec.read
    let (evaluation, limited, _, feed) ← evaluateContent env (ascii "DATA") (limited dotContent) .dot
      s.feed.length (⟨cfg.maxMessage, false, false⟩, .new, s.feed)
    Exec.update fun s => { s with feed := feed }
    match evaluation with
    | none => fun s => (.panic, s)
    | some evaluation =>
      if limited.exceeded then
        record .oversize
        let s ← Exec.read
        finishContent env (s.sizeExceededEvaluation (ascii "DATA"))
      else finishContent env evaluation

/-- The reply to a chunk that could not be stored. -/
def storageReply : SpoolError φ → WireReply
  | .messageTooLarge => { code := 552, enhanced := ⟨5, 3, 4, []⟩, text := sizeExceededText }
  | .totalExhausted | .memoryExhausted | .concurrentExhausted =>
    { code := 452, enhanced := ⟨4, 3, 1, []⟩, text := ascii "Insufficient system storage" }
  | _ => { code := 451, enhanced := ⟨4, 3, 0, []⟩, text := ascii "Temporary storage failure" }

def failBDAT (cause : SpoolError φ) : Call φ ω CommandAction := do
  record .bdatFailed
  resetIfOpen env .failed
  transition .bdatFailed
  writeReply env (storageReply cause)
  pure {}

/-- The octets of a chunk, taken from the feed. -/
def takeChunk (size : Nat) : Call φ ω (Bytes × Option (ChunkError φ)) := do
  await env (.chunk size)
  let s ← Exec.read
  let x := readBDATChunk size s.feed
  Exec.update fun s => { s with feed := x.2.2 }
  pure (x.1, x.2.1)

/-- A chunk that is consumed and dropped. -/
def discardChunk (size : Nat) : Call φ ω Unit := do
  match ← takeChunk env size with
  | (w, none) => record (.chunk w)
  | (_, some e) => Exec.fail (.chunk e)

/-- A chunk that goes to the attached spool.  The first storage failure is kept, and the
chunk consumed all the same. -/
def spoolChunk (size : Nat) : Call φ ω (Except (SpoolError φ) Unit) := do
  let (w, e) ← takeChunk env size
  let pieces ← outside (env.pieces w)
  let r ← onSpool (Spool.writeChunk env.storage pieces)
  match e with
  | some e => Exec.fail (.chunk e)
  | none =>
    record (.chunk w)
    pure r

/-- The evaluation of the spooled message. -/
def finishBDAT : Call φ ω CommandAction := do
  let s ← Exec.read
  match ← onSpool (Spool.reader env.storage) with
  | .error e => failBDAT env e
  | .ok feed =>
    let file := s.spool.any (·.file.isSome)
    match ← evaluateContent env (ascii "BDAT") (spoolContent file) (.spool feed.payload)
      feed.length feed with
    | (none, _) => fun s => (.panic, s)
    | (some evaluation, _) => finishContent env evaluation

def handleBDAT (c : Command) : Call φ ω CommandAction := do
  let s ← Exec.read
  match parseBDATArgument c.argument with
  | .error .sizeOverflow =>
    writeReply env { code := 501, enhanced := ⟨5, 5, 2, []⟩, text := ascii "Invalid BDAT size" }
    pure { synchronizationPoint := true, closeConnection := true }
  | .error .syntaxError => syntaxReply env (ascii "BDAT size")
  | .ok framing =>
    if !s.extended || !cfg.chunking then notImplementedReply env (ascii "BDAT")
    else if s.recipients.isEmpty ∧ s.state.phase ≠ .failedBDAT then
      discardChunk env framing.size
      noRecipientsReply env
    else if s.state.phase = .failedBDAT then
      discardChunk env framing.size
      writeReply env { code := 503, enhanced := ⟨5, 5, 1, []⟩,
                       text := ascii "RSET required after failed BDAT" }
      pure {}
    else if s.spool.isSome then append framing
    else if ← attachSpool env then append framing
    else
      discardChunk env framing.size
      failBDAT env .concurrentExhausted
  where
  /-- The chunk goes to the attached spool. -/
  append (framing : BDATCommand) : Call φ ω CommandAction := do
    match ← spoolChunk env framing.size with
    | .error e => failBDAT env e
    | .ok _ =>
      if framing.last then finishBDAT env
      else
        writeReply env { code := 250, enhanced := ⟨2, 0, 0, []⟩,
                         text := ascii "BDAT chunk accepted" }
        pure {}

/-! ### The other commands -/

def handleNOOP : Call φ ω CommandAction := do
  writeReply env { code := 250, enhanced := ⟨2, 0, 0, []⟩, text := ascii "OK" }
  pure sync

def handleQUIT (c : Command) : Call φ ω CommandAction := do
  if !c.argument.isEmpty then syntaxReply env (ascii "QUIT")
  else
    writeReply env { code := 221, enhanced := ⟨2, 0, 0, []⟩,
                     text := cfg.identity ++ ascii " closing connection" }
    pure { synchronizationPoint := true, closeConnection := true }

/-- A command that only asks the backend, and its reply to the answer. -/
def ask (verb : Verb) (f : ω → Outcome BackendError α × ω)
    (answer : α → WireReply) : Call φ ω CommandAction := do
  match ← callback f with
  | .error e => backendReply env verb e
  | .ok a =>
    writeReply env (answer a)
    pure sync

def handleVRFY (c : Command) : Call φ ω CommandAction := do
  if c.argument.isEmpty then syntaxReply env (ascii "VRFY address")
  else
    match env.verify with
    | none =>
      writeReply env { code := 252, enhanced := ⟨2, 5, 2, []⟩,
                       text := ascii "Cannot VRFY user, but will accept message" }
      pure sync
    | some verify =>
      ask env .vrfy (verify c.argument) fun result =>
        { code := 250, enhanced := ⟨2, 1, 5, []⟩,
          text := if result.isEmpty then c.argument else result }

def handleEXPN (c : Command) : Call φ ω CommandAction := do
  if c.argument.isEmpty then syntaxReply env (ascii "EXPN list")
  else
    match env.expand with
    | none => notImplementedReply env (ascii "EXPN")
    | some expand =>
      ask env .expn (expand c.argument) fun addresses =>
        { code := 250,
          lines := if addresses.isEmpty then [ascii "No members"] else addresses }

def handleHELP (c : Command) : Call φ ω CommandAction := do
  match env.help with
  | none => notImplementedReply env (ascii "HELP")
  | some help => ask env .help (help c.argument) fun text => { code := 214, text := text }

def handleETRN (c : Command) : Call φ ω CommandAction := do
  if c.argument.isEmpty then syntaxReply env (ascii "ETRN domain")
  else
    match env.etrn with
    | none => notImplementedReply env (ascii "ETRN")
    | some etrn =>
      ask env .etrn (etrn c.argument) fun _ =>
        { code := 250, enhanced := ⟨2, 0, 0, []⟩, text := ascii "Queuing started" }

def handleSTARTTLS (c : Command) : Call φ ω CommandAction := do
  let s ← Exec.read
  if !c.argument.isEmpty then syntaxReply env (ascii "STARTTLS")
  else if !s.extended || !cfg.tlsConfig then notImplementedReply env (ascii "STARTTLS")
  else
    writeReply env { code := 220, enhanced := ⟨2, 0, 0, []⟩, text := ascii "Ready to start TLS" }
    transport env.flush
    match ← outside env.handshake with
    | .error e => Exec.fail (.transport e)
    | .ok feed =>
      record .handshake
      lifecycleReset env .startTLS
      transition .startTLS
      -- Octets sent in plaintext after the command are not in the new feed.
      Exec.update fun s => { s with extended := false, feed := feed }
      clearTransaction
      pure {}

/-- The exchange of AUTH. -/
def runDialog (env : Env φ ω) : AuthDialog ω → Call φ ω CommandAction
  | .challenge text world k => do
      Exec.update fun s => { s with world := world }
      writeReply env { code := 334, text := text }
      transport env.flush
      await env .response
      let s ← Exec.read
      let x := readSASLResponse s.feed
      Exec.update fun s => { s with feed := x.2 }
      match x.1 with
      | .error .lineTooLong =>
        writeReply env { code := 500, enhanced := ⟨5, 5, 6, []⟩,
                         text := ascii "Authentication exchange line is too long" }
        pure { synchronizationPoint := true, closeConnection := true }
      | .error e => Exec.fail (.command e)
      | .ok line =>
        let s ← Exec.read
        runDialog env (k line s.world)
  | .call c world k => do
      Exec.update fun s => { s with world := world }
      record (.auth c)
      runDialog env k
  | .accepted world => do
      Exec.update fun s => { s with world := world }
      transition .authenticated
      record .authenticated
      writeReply env { code := 235, enhanced := ⟨2, 7, 0, []⟩,
                       text := ascii "Authentication successful" }
      pure sync
  | .refused r world => do
      Exec.update fun s => { s with world := world }
      writeReply env r
      pure sync
  | .failed world => do
      Exec.update fun s => { s with world := world }
      Exec.fail .auth
  | .panic world => fun s => (.panic, { s with world := world })

def handleAUTH (c : Command) : Call φ ω CommandAction := do
  let s ← Exec.read
  let supported (mechanism : Bytes) : Bool :=
    ((cfg.authMechanisms s.state s.extended).map toUpper).contains (toUpper mechanism)
  match stringsFields c.argument with
  | [mechanism] => exchange supported mechanism none
  | [mechanism, initial] => exchange supported mechanism (some initial)
  | _ => syntaxReply env (ascii "AUTH mechanism and initial response")
  where
  /-- The exchange, if the mechanism is offered. -/
  exchange (supported : Bytes → Bool) (mechanism : Bytes) (initial : Option Bytes) :
      Call φ ω CommandAction := do
    let s ← Exec.read
    if !supported mechanism then
      writeReply env { code := 504, enhanced := ⟨5, 5, 4, []⟩,
                       text := ascii "Unsupported authentication mechanism" }
      pure sync
    else runDialog env (env.auth (toUpper mechanism) initial s.world)

def validATRNDomain (domain : Bytes) : Bool :=
  let labels := domain.splitOn dot
  2 ≤ labels.length && labels.all fun label =>
    !label.isEmpty && label.head? != some 45 && label.getLast? != some 45 && label.all isVerbByte

def parseATRNDomains (argument : Bytes) : Option (List Bytes) :=
  if argument.isEmpty then some []
  else if argument.any fun b => b == sp || b == 9 || b == cr || b == lf || b == 0 then none
  else
    let parts := argument.splitOn 44
    if parts.all validATRNDomain then some parts else none

def handleATRN (c : Command) : Call φ ω CommandAction := do
  let s ← Exec.read
  match parseATRNDomains c.argument, env.atrn with
  | none, _ => syntaxReply env (ascii "ATRN domains")
  | some domains, callbackATRN =>
    if !s.state.authenticated then
      writeReply env { code := 530, enhanced := ⟨5, 7, 0, []⟩,
                       text := ascii "Authentication required" }
      pure sync
    else
      match callbackATRN with
      | none => notImplementedReply env (ascii "ATRN")
      | some atrn => reverse domains atrn
  where
  /-- The backend decides, and then takes the connection over. -/
  reverse (domains : List Bytes) (atrn : List Bytes → ω → Outcome BackendError Bool × ω) :
      Call φ ω CommandAction := do
    if ← buffered env then
      writeReply env { code := 554, enhanced := ⟨5, 5, 0, []⟩,
                       text := ascii "ATRN must not be pipelined" }
      pure { synchronizationPoint := true, closeConnection := true }
    else
      let failure := ascii "Unable to process ATRN request now"
      match ← callback (atrn domains) with
      | .error e => backendReply env .atrn e failure
      | .ok false => backendReply env .atrn .other failure
      | .ok true =>
        writeReply env { code := 250, enhanced := ⟨2, 0, 0, []⟩,
                         text := ascii "OK, reversing the connection" }
        transport env.flush
        let _ ← callback env.takeover
        pure { synchronizationPoint := true, closeConnection := true }

/-! ### Dispatch and loop -/

/-- The handler of a legal command. -/
def handle (verb : Verb) (c : Command) : Call φ ω CommandAction :=
  match verb with
  | .helo | .ehlo | .lhlo => handleHello cfg env verb c
  | .mail => handleMail cfg env c
  | .rcpt => handleRcpt cfg env c
  | .data => handleDATA cfg env c
  | .bdat => handleBDAT cfg env c
  | .rset => handleRSET env c
  | .noop => handleNOOP env
  | .quit => handleQUIT cfg env c
  | .vrfy => handleVRFY env c
  | .expn => handleEXPN env c
  | .help => handleHELP env c
  | .etrn => handleETRN env c
  | .startTLS => handleSTARTTLS cfg env c
  | .auth => handleAUTH cfg env c
  | .atrn => handleATRN env c
  | .other => Exec.fail .noHandler

/-- The command, unless the sequencing table refuses it. -/
def dispatch (verb : Verb) (c : Command) :
    Call φ ω CommandAction := do
  let s ← Exec.read
  match s.state.legality verb with
  | .unknown =>
    writeReply env { code := 500, enhanced := ⟨5, 5, 1, []⟩,
                     text := ascii "Command unrecognized" }
    pure sync
  | .wrongMode =>
    writeReply env { code := 500, enhanced := ⟨5, 5, 1, []⟩,
                     text := ascii "Command unavailable in this protocol mode" }
    pure { synchronizationPoint := synchronizationPoint verb }
  | .wrongState =>
    writeReply env { code := 503, enhanced := ⟨5, 5, 1, []⟩,
                     text := ascii "Bad sequence of commands" }
    pure { synchronizationPoint := synchronizationPoint verb }
  | .allowed => handle cfg env verb c

def execute (c : Command) : Call φ ω CommandAction := do
  let verb := Verb.ofSpelling c.verb
  if verb = .mail then
    Exec.update fun s => { s with mailAttempts := s.mailAttempts + 1 }
    let s ← Exec.read
    if s.mailAttempts > cfg.maxTransactions then
      writeReply env { code := 421, enhanced := ⟨4, 7, 0, []⟩,
                       text := ascii "Transaction limit reached" }
      pure { synchronizationPoint := true, closeConnection := true }
    else dispatch cfg env verb c
  else dispatch cfg env verb c

def isFramedCommandSyntaxError : CommandError φ → Bool
  | .empty | .verbSyntax | .argumentControl => true
  | _ => false

def handleCommandReadError (e : CommandError φ) : Call φ ω CommandAction := do
  let s ← Exec.read
  if s.spool.isNone || !isFramedCommandSyntaxError e then Exec.fail (.command e)
  else
    record .bdatFailed
    resetIfOpen env .failed
    transition .bdatFailed
    writeReply env { code := 500, enhanced := ⟨5, 5, 2, []⟩,
                     text := ascii "Command syntax error after BDAT" }
    pure sync

/-- The end of a turn: whether the loop goes on. -/
def finishTurn (action : CommandAction) : Call φ ω Bool := do
  if action.synchronizationPoint || action.closeConnection then transport env.flush else pure ()
  pure !action.closeConnection

/-- Replies are sent before the loop waits for the peer. -/
def flushBeforeRead : Call φ ω Unit := do
  if ← buffered env then pure () else transport env.flush

/-- One turn of `commandLoop.run`: whether the loop goes on. -/
def turn : Call φ ω Bool := do
  if ← outside env.canceled then Exec.fail .canceled
  else
    flushBeforeRead env
    await env .command
    let s ← Exec.read
    let x := readCommand s.feed
    Exec.update fun s => { s with feed := x.2 }
    match x.1 with
    | .error .eof => pure false
    | .error e =>
      let action ← handleCommandReadError env e
      finishTurn env action
    | .ok c =>
      record (.decoded c)
      let action ← execute cfg env c
      finishTurn env action

/-- `commandLoop.run`, cut off after `n` turns: `true` if the loop goes on. -/
def runLoop (cfg : Config) (env : Env φ ω) : Nat → Call φ ω Bool
  | 0 => pure true
  | n + 1 => do
      if ← turn cfg env then runLoop cfg env n else pure false

/-- The session after at most `n` turns, and whether it is still open.  The end of the loop,
an error and a panic all close it. -/
def serve (cfg : Config) (env : Env φ ω) : Nat → Session φ ω → Session φ ω × Bool
  | 0, s => (s, true)
  | n + 1, s =>
    match turn cfg env s with
    | (.ok true, s) => serve cfg env n s
    | (_, s) => ((close env s).2, false)

theorem serve_eq_runLoop (n : Nat) (s : Session φ ω) :
  serve cfg env n s = match runLoop cfg env n s with
    | (.ok true, s') => (s', true)
    | (_, s') => ((close env s').2, false)
  := by
  induction n generalizing s with
  | zero => rfl
  | succ n ih =>
    rw [serve, runLoop]
    simp only [bind]
    rcases hturn : turn cfg env s with ⟨(_ | _) | e | _, s'⟩
    · rfl
    · exact ih s'
    · rfl
    · rfl

theorem serve_invariant {cfg : Config} {env : Env φ ω} {I C : Session φ ω → Prop}
    (hturn : ∀ s, C s → I s → I (turn cfg env s).2) (hclose : ∀ s, I s → I (close env s).2)
    {n : Nat} {s : Session φ ω} (hs : I s)
    (hrun : ∀ k < n, (serve cfg env k s).2 = true → C (serve cfg env k s).1) :
  I (serve cfg env n s).1
  := by
  induction n generalizing s with
  | zero => exact hs
  | succ n ih =>
    have hstep := hturn s (hrun 0 (Nat.succ_pos n) rfl) hs
    rw [serve]
    rcases hx : turn cfg env s with ⟨o, s'⟩
    rw [hx] at hstep
    rcases o with (_ | _) | e | _
    · exact hclose s' hstep
    · apply ih hstep
      intro k hk hopen
      have hserve : serve cfg env (k + 1) s = serve cfg env k s' := by rw [serve, hx]
      rw [← hserve] at hopen ⊢
      exact hrun (k + 1) (Nat.succ_lt_succ hk) hopen
    · exact hclose s' hstep
    · exact hclose s' hstep

/-! ### Rules -/

section Rules

variable {E : Option (SessionError φ) → Session φ ω → Prop} {s : Session φ ω}

theorem wp_takeChunk {env : Env φ ω} {size : Nat}
    {Q : Bytes × Option (ChunkError φ) → Session φ ω → Prop}
    (hQ : ∀ x w feed, Q x { s with world := w, feed := feed })
    (hE : ∀ e w, E e { s with world := w }) :
  wp (takeChunk env size) Q E s
  := by
  rw [takeChunk, wp_bind]
  exact wp_transport (fun w => hQ _ w _) hE

theorem wp_flushBeforeRead {env : Env φ ω} {Q : Unit → Session φ ω → Prop}
    (hQ : ∀ w, Q () { s with world := w }) (hE : ∀ e w, E e { s with world := w }) :
  wp (flushBeforeRead env) Q E s
  := by
  rw [flushBeforeRead, wp_bind, wp_buffered, wp_ite]
  exact ⟨fun _ => hQ _, fun _ => wp_transport hQ hE⟩

end Rules

/-! ### Scripts -/

/-- A manager with room for one spool of eight octets. -/
def SpoolManager.small : SpoolManager where
  opts := ⟨8, 8, 8, 8, 1⟩
  total := 0
  totalMemory := 0
  concurrent := 0

/-- What a client sends, line by line. -/
def script (lines : List String) : Feed UInt8 Empty :=
  Feed.items (lines.flatMap fun l => ascii l ++ crlf)

end GoSmtp.Server.Session
