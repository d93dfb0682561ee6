import GoSmtp.Wire.Command

/-!
# Reply codes and delivery results

The types of the root package that the client and the server share.
-/

namespace GoSmtp

structure EnhancedCode where
  cls : Int
  subject : Int
  detail : Int
  /-- The code as it stood on the wire. -/
  raw : Bytes := []
  deriving DecidableEq, Repr

namespace EnhancedCode

/-- The reply carried no enhanced code. -/
def zero : EnhancedCode := ⟨0, 0, 0, []⟩

/-- Whether `String` is empty. -/
def isZero (c : EnhancedCode) : Bool :=
  c.raw.isEmpty && c.cls == 0 && c.subject == 0 && c.detail == 0

/-- `normalizeEnhancedCode`: a class that contradicts the reply code is repaired. -/
def normalize (code : Int) (enhanced : EnhancedCode) : EnhancedCode × Bool :=
  if enhanced.isZero || enhanced.cls == code.tdiv 100 then (enhanced, false)
  else if code.tdiv 100 ∈ [2, 4, 5] then (⟨code.tdiv 100, 0, 0, []⟩, true)
  else (enhanced, false)

end EnhancedCode

/-- The replies of a greeting and of HELO and EHLO carry no enhanced code. -/
inductive ReplyContext where
  | command
  | greeting
  | hello
  deriving DecidableEq, Repr

inductive TraceDirection where
  | sent
  | received
  deriving DecidableEq, Repr

/-- A line of the protocol, as it is told to a trace hook. -/
structure TraceEvent where
  direction : TraceDirection
  line : Bytes
  deriving DecidableEq, Repr

structure RecipientResult where
  recipient : Bytes
  command : Bytes
  code : Int
  enhanced : EnhancedCode
  text : Bytes
  deriving DecidableEq, Repr

namespace RecipientResult

/-- `Accepted`: a 2yz reply code. -/
def accepted (r : RecipientResult) : Bool := 200 ≤ r.code && r.code < 300

/-- `normalizeRecipientResult`. -/
def normalize (r : RecipientResult) : RecipientResult × Bool :=
  ({ r with enhanced := (r.enhanced.normalize r.code).1 }, (r.enhanced.normalize r.code).2)

end RecipientResult

abbrev DataResult := List RecipientResult

/-- `smtp.Error`, without its underlying cause. -/
structure SmtpError where
  code : Int
  enhanced : EnhancedCode
  text : Bytes
  deriving DecidableEq, Repr

end GoSmtp
