import GoSmtp.Client.Pipeline
import GoSmtp.Client.Source

/-!
# Content

The calls that complete a transaction: `Client.Data` with DATA (`smtpclient/data.go`,
`lmtp.go`) or with BDAT (`ext_a_transport.go`), and `Client.BURL` (`ext_b_burl.go`).
-/

namespace GoSmtp.Client

variable {φ ω α : Type}
variable (opts : Options) (env : Env φ ω)

/-- What a call returns: a result and an error.  A nil result is the empty one. -/
structure Returned (φ : Type) where
  result : DataResult
  err : Option (ClientError φ)
  deriving DecidableEq, Repr

/-- The call with its error in the pair that it returns. -/
def returning (m : Call φ ω (Returned φ)) : Call φ ω (Returned φ) := do
  match ← Exec.attempt m with
  | .ok r => pure r
  | .error e => pure ⟨[], some e⟩

/-- The status of a recipient, as a reply tells it. -/
def recipientResult (command : Bytes) (enhanced : Bool) (r : Reply)
    (recipient : Bytes) : RecipientResult :=
  let e := replyError opts enhanced r
  ⟨recipient, command, e.code, e.enhanced, e.text⟩

/-- One reply for all recipients. -/
def sharedResult (command : Bytes) (recipients : List Bytes) (r : Reply) :
    Call φ ω (Returned φ) := do
  expectReply opts command r [250]
  let s ← Exec.read
  pure ⟨recipients.map (recipientResult opts command s.enhancedStatusCodes r), none⟩

/-- The number of final replies. -/
def finalReplies (recipients : List Bytes) : Nat :=
  if opts.lmtp then recipients.length else 1

/-- The end of a transaction.  DATA and BURL also forget about SMTPUTF8. -/
def endTransaction (s : Conn φ ω) : Conn φ ω :=
  { s with state := s.transactionBase, recipients := [] }

/-! ### LMTP -/

/-- The loop over the final replies of LMTP, with the results so far. -/
def lmtpReplies (opts : Options) (env : Env φ ω) (command : Bytes) :
    DataResult → List Bytes → Call φ ω (Returned φ)
  | result, [] => pure ⟨result, none⟩
  | result, recipient :: recipients => do
      match ← Exec.attempt (read opts env command) with
      | .error e =>
        poison
        pure ⟨result, some (e.unknownStream command)⟩
      | .ok r =>
        let s ← Exec.read
        lmtpReplies opts env command
          (result ++ [recipientResult opts command s.enhancedStatusCodes r recipient]) recipients

def extraReplyText : Bytes :=
  ascii "smtpclient: LMTP sent more final replies than accepted recipients"

/-- All final replies of LMTP were read; there must not be another one. -/
def lmtpEnd (command : Bytes) (done : Call φ ω Unit) (x : Returned φ) :
    Call φ ω (Returned φ) :=
  match x.err with
  | some _ => pure x
  | none => do
      if ← outside env.extraReply then
        poison
        pure ⟨[], some (.finalStatusUnknown command (.transport command (.message extraReplyText)))⟩
      else
        done
        pure x

/-! ### DATA -/

/-- `dw.Write` and `dw.Close` on the connection. -/
def stuffed (f : Sink ω φ → DotStuffWriter → ω → Option (StuffError φ) × DotStuffWriter × ω)
    (env : Env φ ω) (d : DotStuffWriter) : Call φ ω (Option (Cause φ) × DotStuffWriter) := fun s =>
  match f ⟨env.write⟩ d s.world with
  | (e, d, w) => (.ok (e.map cause, d), { s with world := w })
  where
  cause : StuffError φ → Cause φ
    | .sink e => .io e
    | .writeToClosed => .message (ascii "smtpwire: write to closed DotStuffWriter")
    | .alreadyClosed => .message (ascii "smtpwire: DotStuffWriter already closed")

def copyBufferSize : Nat := 32768

/-- The octets of one `Read`, if any. -/
def copyOctets (w : Bytes) (d : DotStuffWriter) : Call φ ω DotStuffWriter := do
  if w.isEmpty then pure d
  else
    match ← stuffed (fun k d o => (DotStuffWriter.write k w d o).2) env d with
    | (some cause, _) => poisoned (.transport (ascii "DATA") cause)
    | (none, d) => pure d

/-- The copy loop of `Data`, until the source ends. -/
def copyContent (env : Env φ ω) : Nat → Source φ → DotStuffWriter → Call φ ω DotStuffWriter
  | 0, _, _ => fun s => (.panic, s)
  | n + 1, source, d => do
      if ← canceled env .after then poisoned .canceled
      else
        let (w, e, rest) := source.read copyBufferSize
        let d ← copyOctets env w d
        match e with
        | some .eof => pure d
        | some e => poisoned (.transport (ascii "DATA") (.source e))
        | none => copyContent env n rest d

/-- The terminator, from whose first octet on the server may accept the message. -/
def endContent (recipients : List Bytes) (d : DotStuffWriter) :
    Call φ ω Unit := do
  record .completing
  match ← stuffed (fun k d o => DotStuffWriter.close k d o) env d with
  | (some cause, _) =>
    poisoned (ClientError.unknown (ascii "DATA") (.transport (ascii "DATA") cause))
  | (none, _) =>
    record (.sent .endOfData (finalReplies opts recipients))
    if ← canceled env .after then poisoned (ClientError.unknown (ascii "DATA") .canceled)
    else pure ()

/-- The watcher of the context runs until `Data` returns. -/
def watched : Call φ ω Unit := do
  if ← outside env.watcher then poison else pure ()

/-- The final replies after the terminator. -/
def finishData (recipients : List Bytes) :
    Call φ ω (Returned φ) :=
  if opts.lmtp then do
    let x ← lmtpReplies opts env (ascii "DATA") [] recipients
    lmtpEnd env (ascii "DATA")
      (do
        watched env
        unlessClosed endTransaction) x
  else do
    let r ← Exec.mapErr (ClientError.unknown (ascii "DATA")) (read opts env (ascii "DATA"))
    watched env
    unlessClosed fun s => { endTransaction s with smtpUTF8 := false }
    sharedResult opts (ascii "DATA") recipients r

/-- `Data` without chunking, after its hooks. -/
def sendData (source : Source φ) : Call φ ω (Returned φ) := do
  if ← canceled env .before then Exec.fail .canceled
  else
    requireState (ascii "DATA") [.transaction]
    let s ← Exec.read
    if s.recipients.isEmpty && !opts.lmtp then
      Exec.fail (.message (ascii "smtpclient: DATA requires an accepted recipient"))
    else
      let r ← executeOne opts env { verb := ascii "DATA", syncPoint := true }
      expectReply opts (ascii "DATA") r [354]
      let d ← copyContent env (source.size + 1) source .new
      endContent opts env s.recipients d
      finishData opts env s.recipients

/-! ### BDAT -/

def defaultBDATChunkSize : Int := 32768

def maxBDATChunkSize : Nat := 67108864

/-- The line that announces a chunk. -/
def bdatLine (size : Nat) (last : Bool) : Bytes :=
  ascii "BDAT " ++ ascii (toString size) ++ (if last then ascii " LAST" else []) ++ crlf

/-- The octets of a chunk; an empty chunk has none to write. -/
def writeOctets (chunk : Bytes) : Call φ ω (Option φ) :=
  if chunk.isEmpty then pure none else outside (env.write chunk)

/-- `writeBDATChunk`, which the peer answers with the given number of replies. -/
def writeBDATChunk (chunk : Bytes) (last : Bool) (replies : Nat) :
    Call φ ω Unit := do
  if chunk.length > maxBDATChunkSize then poisoned (.transport (ascii "BDAT") .sizeTooLarge)
  else
    noteCompleting last
    match ← outside (env.write (bdatLine chunk.length last)) with
    | some e => poisoned (.transport (ascii "BDAT") (.io e))
    | none =>
      match ← writeOctets env chunk with
      | some e => poisoned (.transport (ascii "BDAT") (.io e))
      | none =>
        record (.sent (.chunk chunk last) replies)
        if ← canceled env .after then poisoned .canceled else pure ()

def bdatFinalReplies (recipients : List Bytes) (first : Reply) :
    Call φ ω (Returned φ) :=
  if opts.lmtp then
    match recipients with
    | [] => fun s => (.panic, s)
    | recipient :: recipients => do
        let s ← Exec.read
        let x ← lmtpReplies opts env (ascii "BDAT")
          [recipientResult opts (ascii "BDAT") s.enhancedStatusCodes first recipient] recipients
        lmtpEnd env (ascii "BDAT") (pure ()) x
  else sharedResult opts (ascii "BDAT") recipients first

def classifyFinalReplyFailure (command : Bytes) (e : ClientError φ) :
    ClientError φ :=
  if opts.lmtp then e.unknownStream command else e.unknown command

/-- A chunk and the first reply to it. -/
def exchangeChunk (recipients : List Bytes) (chunk : Bytes)
    (last : Bool) : Call φ ω Reply := do
  Exec.mapErr (fun e => if last then e.unknown (ascii "BDAT") else e)
    (writeBDATChunk env chunk last (if last then finalReplies opts recipients else 1))
  Exec.mapErr (fun e => if last then classifyFinalReplyFailure opts (ascii "BDAT") e else e)
    (read opts env (ascii "BDAT"))

/-- The last chunk was answered. -/
def finishBDAT (recipients : List Bytes) (first : Reply) :
    Call φ ω (Returned φ) := do
  Exec.update fun s => { s with binaryMIME := false }
  unlessClosed endTransaction
  bdatFinalReplies opts env recipients first

/-- The chunk loop of `bdat`. -/
def bdatLoop (opts : Options) (env : Env φ ω) (recipients : List Bytes) (size : Nat) :
    Nat → Source φ → Call φ ω (Returned φ)
  | 0, _ => fun s => (.panic, s)
  | n + 1, source => do
      if ← canceled env .after then poisoned .canceled
      else
        let (chunk, e, rest) := source.readFull size
        match e with
        | some (.other e) => Exec.fail (.source (.other e))
        | some _ =>
          -- Both `io.EOF` and `io.ErrUnexpectedEOF` make the chunk the last one.
          let r ← exchangeChunk opts env recipients chunk true
          finishBDAT opts env recipients r
        | none =>
          let r ← exchangeChunk opts env recipients chunk false
          expectReply opts (ascii "BDAT") r [250]
          bdatLoop opts env recipients size n rest

def bdat (source : Source φ) (size : Nat) :
    Call φ ω (Returned φ) := do
  if ← canceled env .before then Exec.fail .canceled
  else
    requireState (ascii "BDAT") [.transaction]
    let s ← Exec.read
    if s.recipients.isEmpty then
      Exec.fail (.message (ascii "smtpclient: BDAT requires an accepted recipient"))
    else bdatLoop opts env s.recipients size (source.size + 1) source

/-! ### Data -/

structure DataOptions where
  useChunking : Bool := false
  /-- Zero selects the default. -/
  chunkSize : Int := 0
  deriving DecidableEq, Repr

def missingExtension (ext : Bytes) : ClientError φ :=
  .message (ascii "smtpclient: server did not advertise extension \"" ++ ext ++ ascii "\"")

/-- The size of the chunks that the options ask for. -/
def DataOptions.size (o : DataOptions) : Int :=
  if o.chunkSize ≠ 0 then o.chunkSize else defaultBDATChunkSize

/-- `Client.Data`, with `transportData` as its hook. -/
def data (source : Source φ) (o : DataOptions) :
    Call φ ω (Returned φ) :=
  returning do
    let s ← Exec.read
    if !o.useChunking then
      if s.binaryMIME then
        Exec.fail (.message (ascii
          "smtpclient: BODY=BINARYMIME requires CHUNKING/BDAT, not DATA"))
      else sendData opts env source
    else if !s.advertises (ascii "CHUNKING") then Exec.fail (missingExtension (ascii "CHUNKING"))
    else if o.size ≤ 0 ∨ o.size > maxBDATChunkSize then
      Exec.fail (.message (ascii "smtpclient: invalid BDAT chunk size " ++ ascii (toString o.size)))
    else bdat opts env source o.size.toNat

/-! ### BURL -/

/-- The argument check of `BURL`. -/
def validURL (url : Bytes) : Bool :=
  trimSpace url == url && !url.isEmpty && url.all isLiteral

/-- The command of `BURL`. -/
def burlCommand (url : Bytes) (last : Bool) : QueuedCommand where
  verb := ascii "BURL"
  args := if last then [url, ascii "LAST"] else [url]
  completes := last

/-- `Client.BURL`. -/
def burl (url : Bytes) (last : Bool) : Call φ ω (Returned φ) :=
  returning do
    let s ← Exec.read
    if !validURL url then
      Exec.fail (.message (ascii "smtpclient: BURL requires one non-empty URI argument"))
    else if opts.lmtp then
      Exec.fail (.message (ascii "smtpclient: BURL is not supported in LMTP mode"))
    else if !s.advertises (ascii "BURL") then Exec.fail (missingExtension (ascii "BURL"))
    else if s.recipients.isEmpty then
      Exec.fail (.message (ascii "smtpclient: BURL requires an accepted recipient"))
    else
      requireState (ascii "BURL") [.transaction]
      let r ← executeOne opts env (burlCommand url last)
      if last then
        unlessClosed fun s => { endTransaction s with smtpUTF8 := false, binaryMIME := false }
        sharedResult opts (ascii "BURL") s.recipients r
      else
        expectReply opts (ascii "BURL") r [250]
        pure ⟨[], none⟩

end GoSmtp.Client
