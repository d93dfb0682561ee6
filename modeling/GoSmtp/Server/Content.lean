import GoSmtp.Reply
import GoSmtp.Server.State
import GoSmtp.Wire.DotUnstuff

/-!
# Message content and its evaluation

The readers between the peer and the backend (`smtpserver/cmd_data.go`, `data.go`), and
`evaluateDataCall`, which calls the backend, drains what it left unread, and decides the
outcome.
-/

namespace GoSmtp.Server

/-- Errors of the readers of message content. -/
inductive ContentError (φ : Type) where
  | eof
  | messageTooLarge
  /-- An error of the dot-unstuffing reader. -/
  | framing (e : DotError φ)
  /-- An error of the spool file. -/
  | storage (e : φ)
  /-- The slice expression `p[:limit]` panicked. -/
  | outOfRange
  deriving DecidableEq, Repr

variable {σ φ ω : Type}

def ContentError.isEOF : ContentError φ → Bool
  | .eof => true
  | _ => false

/-! ### Readers -/

def ContentError.ofDot : DotError φ → ContentError φ
  | .eof => .eof
  | e => .framing e

/-- The content of DATA. -/
def dotContent : Reader (DotUnstuffReader φ × Feed UInt8 φ) UInt8 (ContentError φ) :=
  DotUnstuffReader.reader.mapErr .ofDot

/-- What a spool reader fills a buffer of size `n` with. -/
def spoolFill : Nat → Feed UInt8 φ → Bytes × Feed UInt8 φ
  | n + 1, .item b :: s => (b :: (spoolFill n s).1, (spoolFill n s).2)
  | _, s => ([], s)

/-- The content of BDAT: a `bytes.Reader` on the memory of a spool, or its file.  They
differ in a read at the end that has no room. -/
def spoolContent (file : Bool) : Reader (Feed UInt8 φ) UInt8 (ContentError φ) where
  read n s :=
    match s with
    | [] => (⟨[], if file && n == 0 then none else some .eof⟩, [])
    | .fault e :: s => if n = 0 then (⟨[], none⟩, .fault e :: s) else (⟨[], some (.storage e)⟩, s)
    | s => (⟨(spoolFill n s).1, none⟩, (spoolFill n s).2)

structure SizeEnforcingReader where
  remain : Int
  exceeded : Bool
  reported : Bool
  deriving DecidableEq, Repr

/-- Addition in `int64`. -/
def add64 (a b : Int) : Int := Int.bmod (a + b) (2 ^ 64)

def SizeEnforcingReader.read (r : Reader σ UInt8 (ContentError φ)) (n : Nat)
    (l : SizeEnforcingReader) (s : σ) :
    ReadResult UInt8 (ContentError φ) × SizeEnforcingReader × σ :=
  if l.exceeded then
    match r.read n s with
    | (x, s) => (x, l, s)
  else
    let limit := if (n : Int) > add64 l.remain 1 then add64 l.remain 1 else n
    if limit < 0 then (⟨[], some .outOfRange⟩, l, s)
    else
      match r.read limit.toNat s with
      | (⟨w, e⟩, s) =>
        if (w.length : Int) ≤ l.remain then
          (⟨w, e⟩, { l with remain := l.remain - w.length }, s)
        else if l.reported then (⟨[], e⟩, { l with remain := 0, exceeded := true }, s)
        else (⟨w.take l.remain.toNat, some .messageTooLarge⟩, ⟨0, true, true⟩, s)

/-- The content `r` up to the size limit. -/
def limited (r : Reader σ UInt8 (ContentError φ)) :
    Reader (SizeEnforcingReader × σ) UInt8 (ContentError φ) where
  read n s := SizeEnforcingReader.read r n s.1 s.2

/-- `io.MultiReader` of the trace header and the content. -/
structure MultiReader (σ : Type) where
  /-- The rest of the header, until its end was seen. -/
  header : Option Bytes
  /-- The end of the content was seen. -/
  done : Bool
  source : σ

/-- A read once the header is read. -/
def MultiReader.readSource (r : Reader σ UInt8 (ContentError φ)) (n : Nat) (m : MultiReader σ) :
    ReadResult UInt8 (ContentError φ) × MultiReader σ :=
  if m.done then (⟨[], some .eof⟩, ⟨none, true, m.source⟩)
  else
    match r.read n m.source with
    | (x, s) => (x, ⟨none, x.err.any (·.isEOF), s⟩)

def MultiReader.read (r : Reader σ UInt8 (ContentError φ)) (n : Nat) (m : MultiReader σ) :
    ReadResult UInt8 (ContentError φ) × MultiReader σ :=
  match m.header with
  | some (b :: h) =>
    (⟨(b :: h).take n, none⟩, { m with header := some ((b :: h).drop n) })
  | some [] | none => readSource r n m

structure TrackedDataReader (σ : Type) where
  reader : MultiReader σ
  exhausted : Bool

/-- The reader that the backend gets. -/
def tracked (r : Reader σ UInt8 (ContentError φ)) :
    Reader (TrackedDataReader σ) UInt8 (ContentError φ) where
  read n t :=
    match MultiReader.read r n t.reader with
    | (x, m) => (x, ⟨m, t.exhausted || x.err.any (·.isEOF)⟩)

/-! ### The backend -/

/-- An error of the backend: a protocol error, or any other. -/
inductive BackendError where
  | protocol (e : SmtpError)
  | other
  deriving DecidableEq, Repr

/-- A call of `Session.Data`: it reads as it likes, with the world at hand, and returns or
panics. -/
inductive DataCall (φ ω : Type) where
  | ret (result : DataResult) (err : Option BackendError) (world : ω)
  | panic (world : ω)
  | read (n : Nat) (world : ω) (k : ReadResult UInt8 (ContentError φ) → DataCall φ ω)

/-- What the call returns on the given reader, `none` for a panic. -/
def DataCall.run (r : Reader σ UInt8 (ContentError φ)) :
    DataCall φ ω → σ → Option (DataResult × Option BackendError) × ω × σ
  | .ret result err world, s => (some (result, err), world, s)
  | .panic world, s => (none, world, s)
  | .read n world k, s =>
    match r.read n s with
    | (⟨_, some .outOfRange⟩, s) => (none, world, s)
    | (x, s) => run r (k x) s

/-! ### The outcome -/

/-- Contract violations of the backend. -/
inductive Defect where
  | noRecipients
  | resultAndError
  | count (got want : Nat)
  | recipient (i : Nat)
  | enhanced (i : Nat)
  | earlySuccess
  deriving DecidableEq, Repr

inductive Cause (φ : Type) where
  | drain (e : ContentError φ)
  | backend (e : BackendError)
  deriving DecidableEq, Repr

structure DataEvaluation (φ : Type) where
  result : DataResult
  completed : Bool := false
  closeConnection : Bool := false
  defect : List Defect := []
  cause : Option (Cause φ) := none

/-- How many results a mode asks for. -/
def resultCount (mode : ListenerMode) (recipients : List Bytes) : Nat :=
  match mode with
  | .smtp => 1
  | .lmtp => recipients.length

/-- The recipient that the result `i` names. -/
def resultRecipient (mode : ListenerMode) (recipients : List Bytes) (i : Nat) : Bytes :=
  match mode with
  | .smtp => []
  | .lmtp => recipients.getD i []

/-- The same result for all. -/
def uniformResult (mode : ListenerMode) (recipients : List Bytes) (command : Bytes)
    (code : Int) (enhanced : EnhancedCode) (text : Bytes) : DataResult :=
  (List.range (resultCount mode recipients)).map fun i =>
    ⟨resultRecipient mode recipients i, command, code, enhanced, text⟩

def temporaryDataResult (mode : ListenerMode) (recipients : List Bytes) (command : Bytes) :
    DataResult :=
  uniformResult mode recipients command 451 ⟨4, 3, 0, []⟩ (ascii "Temporary server failure")

def invalidDataOutcome (mode : ListenerMode) (recipients : List Bytes) (command : Bytes)
    (cause : Option BackendError) (defect : Defect) : DataEvaluation φ where
  result := temporaryDataResult mode recipients command
  defect := [defect]
  cause := cause.map .backend

/-- The first result that names another recipient than the one accepted at its place. -/
def misnamed (result : DataResult) (recipients : List Bytes) : Option Nat :=
  (result.zip recipients).findIdx? fun p => p.1.recipient != p.2

def validateDataOutcome (mode : ListenerMode) (recipients : List Bytes) (command : Bytes)
    (result : DataResult) (callErr : Option BackendError) : DataEvaluation φ :=
  if recipients.isEmpty then invalidDataOutcome mode recipients command callErr .noRecipients
  else
    match callErr with
    | some e =>
      if !result.isEmpty then
        invalidDataOutcome mode recipients command callErr .resultAndError
      else
        { result := temporaryDataResult mode recipients command, cause := some (.backend e) }
    | none =>
      if result.length ≠ resultCount mode recipients then
        invalidDataOutcome mode recipients command none
          (.count result.length (resultCount mode recipients))
      else
        match mode, misnamed result recipients with
        | .lmtp, some i => invalidDataOutcome mode recipients command none (.recipient i)
        | _, _ =>
          { result := result.map fun r => r.normalize.1
            completed := true
            defect := (result.zipIdx.filter fun p => p.1.normalize.2).map fun p =>
              .enhanced p.2 }

/-- The size of the buffer of `io.Discard`. -/
def discardSize : Nat := 8192

/-- `io.Copy` to `io.Discard`: reads until an error, which is not reported if it is the
end.  The panic of a read goes through; the fuel is meant to suffice. -/
def discard (r : Reader σ UInt8 (ContentError φ)) (fuel : Nat) (s : σ) :
    Option (Option (ContentError φ)) × σ :=
  match r.drain discardSize fuel s with
  | (some .eof, s) => (some none, s)
  | (some .outOfRange, s) => (none, s)
  | (some e, s) => (some (some e), s)
  | (none, s) => (none, s)

/-- The drain of a reader that the backend has left unread: once more after the report
that the message is too large. -/
def drainContent (r : Reader σ UInt8 (ContentError φ)) (fuel : Nat) (s : σ) :
    Option (Option (ContentError φ)) × σ :=
  match discard r fuel s with
  | (some (some .messageTooLarge), s) => discard r fuel s
  | x => x

/-- Successes are not reported for content that the backend did not consume. -/
def replaceEarly (evaluation : DataEvaluation φ) : DataEvaluation φ :=
  if evaluation.result.any (·.accepted) then
    { evaluation with
      result := evaluation.result.map fun r =>
        if r.accepted then
          { r with code := 451, enhanced := ⟨4, 3, 0, []⟩,
                   text := ascii "Temporary server failure" }
        else r
      completed := false
      defect := evaluation.defect ++ [.earlySuccess] }
  else evaluation

/-- `evaluateDataCall`: `none` for a panic. -/
def evaluateDataCall (mode : ListenerMode) (recipients : List Bytes) (command : Bytes)
    (r : Reader σ UInt8 (ContentError φ)) (fuel : Nat) (call : DataCall φ ω)
    (t : TrackedDataReader σ) : Option (DataEvaluation φ) × ω × TrackedDataReader σ :=
  match call.run (tracked r) t with
  | (none, world, t) => (none, world, t)
  | (some (result, callErr), world, t) =>
    if t.exhausted then
      (some (validateDataOutcome mode recipients command result callErr), world, t)
    else
      match drainContent (tracked r) fuel t with
      | (none, t) => (none, world, t)
      | (some (some e), t) =>
        (some { result := [], closeConnection := true, cause := some (.drain e) }, world, t)
      | (some none, t) =>
        (some (replaceEarly (validateDataOutcome mode recipients command result callErr)),
          world, t)

end GoSmtp.Server
