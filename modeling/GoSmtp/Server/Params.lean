import GoSmtp.Options
import GoSmtp.Wire.Xtext

/-!
# Parameters of MAIL and RCPT

The parser of the server (`smtpserver/cmd_params.go`, `ext_params.go`).  It reads the parameters in
order, with a set of the keywords that were there.  A keyword that it knows may occur once, and only
if its extension is advertised; HOLDFOR and HOLDUNTIL exclude each other.  A parameter that it does
not know is kept as it is.  Of an error, the session uses the keyword only.
-/

namespace GoSmtp.Server

open Octet

/-! ### Values -/

/-- Points in time, as `time.Parse` and `Format` read and write them in RFC 3339. -/
structure TimeFormat where
  Time : Type
  parse : Bytes → Option Time
  after : Time → Time → Bool
  /-- In UTC. -/
  format : Time → Bytes

def semicolon : UInt8 := 59

def isSign (c : UInt8) : Bool := c == plus || c == hyphen

def validSignedDecimal (w : Bytes) : Bool :=
  let digits := if w.head?.any isSign then w.tail else w
  !digits.isEmpty && digits.all isDigit

def validExtensionValue (w : Bytes) : Bool :=
  !w.isEmpty && !w.any fun c => c == sp || c == 9 || c == cr || c == lf || c == 0 || c == equals

def validAtom (w : Bytes) : Bool := !w.isEmpty && w.all isAtext

def validSubmitter (mailbox : Bytes) : Bool :=
  match parseReversePath {} (ascii "FROM:<" ++ mailbox ++ ascii ">") with
  | .ok path => path.mailbox == mailbox && path.params.isEmpty
  | .error _ => false

def validMTRK (w : Bytes) : Bool :=
  let certifier := w.takeWhile (· != colon)
  let timeout := (w.dropWhile (· != colon)).drop 1
  !certifier.isEmpty && !(colon ∈ timeout) &&
    certifier.all (fun c => isAlnum c || c == plus || c == 47) &&
    (!(colon ∈ w) || (!timeout.isEmpty && timeout.length ≤ 9 && timeout.all isDigit))

def validMTRKENVID (w : Bytes) : Bool :=
  let fqhn := (w.dropWhile (· != atSign)).drop 1
  atSign ∈ w && !(w.takeWhile (· != atSign)).isEmpty && !fqhn.isEmpty && !(atSign ∈ fqhn)

def isSolicitByte (c : UInt8) : Bool :=
  isAlnum c || c ∈ ascii "!#$%&'*+-.^_`\x7b|\x7d~:"

def validSolicitValue (w : Bytes) : Bool :=
  w.length ≤ 1000 && (w.splitOn comma).all fun keyword => !keyword.isEmpty && keyword.all isSolicitByte

def parseBodyType (w : Bytes) : Option BodyType :=
  let upper := toUpper w
  if upper == ascii "7BIT" then some .sevenBit
  else if upper == ascii "8BITMIME" then some .eightBitMIME
  else if upper == ascii "BINARYMIME" then some .binaryMIME
  else none

/-- The mode of `parseDeliverBy`, and whether a T follows it. -/
def parseByMode (w : Bytes) : Option (ByMode × Bool) :=
  let upper := toUpper w
  let trace := upper.getLast? == some 84
  let mode := if trace then upper.dropLast else upper
  if mode == ascii "N" then some (.notify, trace)
  else if mode == ascii "R" then some (.ret, trace)
  else none

def parseDeliverBy (value capability : Bytes) : Option DeliverByOptions :=
  match value.splitOn semicolon with
  | [time, mode] =>
    if (time.dropWhile isSign).length > 9 || !validSignedDecimal time then none
    else do
      let seconds ← parseInt time
      if seconds < -999999999 || seconds > 999999999 then none
      let (mode, trace) ← parseByMode mode
      if mode == .ret && seconds < 1 then none
      let least := capability.takeWhile (· != comma)
      if mode == .ret && !least.isEmpty then
        let minimum ← parseInt least
        if seconds < minimum then none
      some ⟨seconds, mode, trace⟩
  | _ => none

section

variable (time : TimeFormat)

/-- `parseFutureRelease`: for HOLDFOR and for HOLDUNTIL. -/
def parseFutureRelease (holdFor : Bool) (value capability : Bytes) : Option FutureReleaseOptions :=
  match stringsFields capability with
  | [interval, date] => do
      let maximum ← parseInt interval
      let maximumTime ← time.parse date
      if holdFor then
        let seconds ← parseInt value
        if seconds < 1 || seconds > maximum || itoa seconds != value then none
        else some { holdForSeconds := seconds }
      else
        let timestamp ← time.parse value
        if time.after timestamp maximumTime then none
        else some { holdUntil := time.format timestamp }
  | _ => none

/-- The loop of `parseNotify`. -/
def notifyLoop (seen : List Bytes) : List Bytes → Option (List Bytes)
  | [] => some seen
  | part :: parts =>
    let part := toUpper part
    if !validAtom part || part ∈ seen then none else notifyLoop (seen ++ [part]) parts

def parseNotify (value : Bytes) : Option (List Bytes) :=
  if value.isEmpty then none
  else do
    let result ← notifyLoop [] (value.splitOn comma)
    if ascii "NEVER" ∈ result && result.length != 1 then none else some result

/-- The disposition of `parseRRVS`. -/
def parseDisposition (w : Bytes) : Option Disposition :=
  if toUpper w == ascii "C" then some .continues
  else if toUpper w == ascii "R" then some .rejects
  else none

/-- The date of `parseRRVS`: no fraction of a second. -/
def parseSince (w : Bytes) : Option Bytes :=
  if w.isEmpty then none
  else do
    let timestamp ← time.parse w
    if w.length > 20 && w[19]? == some dot then none else some (time.format timestamp)

def parseRRVS (value : Bytes) : Option RRVSOptions :=
  match value.splitOn semicolon with
  | [date] => (parseSince time date).map (⟨·, none⟩)
  | [date, disposition] => do
      let timestamp ← parseSince time date
      let disposition ← parseDisposition disposition
      some ⟨timestamp, some disposition⟩
  | _ => none

end

def decodeRequiredXtext (value : Bytes) : Option Bytes :=
  if value.isEmpty then none else decodeXtext value

/-! ### Keywords -/

/-- The keywords of `parseMailParameters` itself. -/
inductive CoreKeyword where
  | size
  | body
  | smtpUTF8
  | auth
  deriving DecidableEq, Repr

namespace CoreKeyword

def text : CoreKeyword → Bytes
  | .size => ascii "SIZE"
  | .body => ascii "BODY"
  | .smtpUTF8 => ascii "SMTPUTF8"
  | .auth => ascii "AUTH"

def ofText (w : Bytes) : Option CoreKeyword := [.size, .body, .smtpUTF8, .auth].find? (·.text == w)

theorem eq_text {w : Bytes} {k : CoreKeyword} (h : ofText w = some k) :
  w = k.text
  := by
  rw [ofText] at h
  have hfound := List.find?_some h
  exact (eq_of_beq hfound).symm

end CoreKeyword

/-- The keywords of `parseExtensionMailParameter`. -/
inductive MailKeyword where
  | ret
  | envid
  | deliverBy
  | holdFor
  | holdUntil
  | mtPriority
  | requireTLS
  | solicit
  | mtrk
  | submitter
  | conPerm
  deriving DecidableEq, Repr

namespace MailKeyword

def text : MailKeyword → Bytes
  | .ret => ascii "RET"
  | .envid => ascii "ENVID"
  | .deliverBy => ascii "BY"
  | .holdFor => ascii "HOLDFOR"
  | .holdUntil => ascii "HOLDUNTIL"
  | .mtPriority => ascii "MT-PRIORITY"
  | .requireTLS => ascii "REQUIRETLS"
  | .solicit => ascii "SOLICIT"
  | .mtrk => ascii "MTRK"
  | .submitter => ascii "SUBMITTER"
  | .conPerm => ascii "CONPERM"

def all : List MailKeyword :=
  [.ret, .envid, .deliverBy, .holdFor, .holdUntil, .mtPriority, .requireTLS, .solicit, .mtrk,
    .submitter, .conPerm]

def ofText (w : Bytes) : Option MailKeyword := all.find? (·.text == w)

theorem eq_text {w : Bytes} {k : MailKeyword} (h : ofText w = some k) :
  w = k.text
  := by
  rw [ofText] at h
  have hfound := List.find?_some h
  exact (eq_of_beq hfound).symm

def extension : MailKeyword → Extension
  | .ret | .envid => .dsn
  | .deliverBy => .deliverBy
  | .holdFor | .holdUntil => .futureRelease
  | .mtPriority => .mtPriority
  | .requireTLS => .requireTLS
  | .solicit => .noSoliciting
  | .mtrk => .mtrk
  | .submitter => .submitter
  | .conPerm => .conPerm

/-- The keyword that excludes it. -/
def other : MailKeyword → Option MailKeyword
  | .holdFor => some .holdUntil
  | .holdUntil => some .holdFor
  | _ => none

end MailKeyword

/-- The keywords of `parseExtensionRcptParameter`. -/
inductive RcptKeyword where
  | notify
  | orcpt
  | rrvs
  | conNeg
  deriving DecidableEq, Repr

namespace RcptKeyword

def text : RcptKeyword → Bytes
  | .notify => ascii "NOTIFY"
  | .orcpt => ascii "ORCPT"
  | .rrvs => ascii "RRVS"
  | .conNeg => ascii "CONNEG"

def ofText (w : Bytes) : Option RcptKeyword :=
  [.notify, .orcpt, .rrvs, .conNeg].find? (·.text == w)

theorem eq_text {w : Bytes} {k : RcptKeyword} (h : ofText w = some k) :
  w = k.text
  := by
  rw [ofText] at h
  have hfound := List.find?_some h
  exact (eq_of_beq hfound).symm

def extension : RcptKeyword → Extension
  | .notify | .orcpt => .dsn
  | .rrvs => .rrvs
  | .conNeg => .conNeg

end RcptKeyword

/-! ### The parser -/

structure MailParameterFeatures where
  size : Bool
  eightBit : Bool
  binaryMIME : Bool
  smtpUTF8 : Bool
  auth : Bool
  extensions : Extensions

/-- What a parameter of MAIL sets in the options. -/
inductive MailSetting where
  | size (n : Int)
  | body (b : BodyType)
  | smtpUTF8
  | auth (decoded : Bytes) (original : EsmtpParam)
  | ret (w : Bytes)
  | envid (decoded : Bytes) (original : EsmtpParam)
  | deliverBy (value : DeliverByOptions)
  | futureRelease (value : FutureReleaseOptions)
  | mtPriority (w : Bytes)
  | requireTLS
  | solicit (w : Bytes)
  | transitID (w : Bytes)
  | submitter (decoded : Bytes) (original : EsmtpParam)
  | conPerm
  deriving DecidableEq, Repr

def MailSetting.apply (o : MailOptions) : MailSetting → MailOptions
  | .size n => o.onTransport ({ · with size := some n })
  | .body b => o.onTransport ({ · with body := some b })
  | .smtpUTF8 => o.onTransport ({ · with smtpUTF8 := true })
  | .auth decoded original => { o with auth := decoded, authOriginal := some original }
  | .ret w => o.onDSN ({ · with ret := w })
  | .envid decoded original =>
    o.onDSN ({ · with envelopeID := decoded, envelopeIDOriginal := some original })
  | .deliverBy value => o.onDelivery ({ · with deliverBy := some value })
  | .futureRelease value => o.onDelivery ({ · with futureRelease := some value })
  | .mtPriority w => o.onDelivery ({ · with mtPriority := w })
  | .requireTLS => o.onDelivery ({ · with requireTLS := true })
  | .solicit w => o.onLegacy ({ · with solicit := w })
  | .transitID w => o.onLegacy ({ · with transitID := w })
  | .submitter decoded original =>
    o.onLegacy ({ · with submitter := decoded, submitterOriginal := some original })
  | .conPerm => o.onLegacy ({ · with conPerm := true })

/-- What a parameter of RCPT sets in the options. -/
inductive RcptSetting where
  | notify (values : List Bytes)
  | orcpt (addressType decoded : Bytes) (original : EsmtpParam)
  | rrvs (value : RRVSOptions)
  | conNeg
  deriving DecidableEq, Repr

def RcptSetting.apply (o : RcptOptions) : RcptSetting → RcptOptions
  | .notify values => o.onDSN ({ · with notify := values })
  | .orcpt addressType decoded original =>
    o.onDSN ({ · with originalType := addressType, original := decoded,
                      orcptOriginal := some original })
  | .rrvs value => o.onDelivery ({ · with rrvs := some value })
  | .conNeg => o.onLegacy ({ · with conNeg := true })

/-- The cases of `parseMailParameters` behind the check that the keyword is new. -/
def coreSetting (features : MailParameterFeatures) (p : EsmtpParam) : CoreKeyword → Option MailSetting
  | .size =>
    if !features.size || p.value.isEmpty || p.value.head?.any isSign then none
    else do
      let size ← parseInt p.value
      if size < 0 then none else some (.size size)
  | .body => do
      let body ← parseBodyType p.value
      let available := if body == .binaryMIME then features.binaryMIME else features.eightBit
      if available then some (.body body) else none
  | .smtpUTF8 => if !features.smtpUTF8 || !p.value.isEmpty then none else some .smtpUTF8
  | .auth => if !features.auth then none else (decodeRequiredXtext p.value).map (.auth · p)

section

variable (time : TimeFormat)

/-- The cases of `parseExtensionMailParameter`; the capability is what the server advertises with the
extension. -/
def mailSetting (capability : Bytes) (p : EsmtpParam) : MailKeyword → Option MailSetting
  | .ret => if validExtensionValue p.value then some (.ret (toUpper p.value)) else none
  | .envid => (decodeRequiredXtext p.value).map (.envid · p)
  | .deliverBy => (parseDeliverBy p.value capability).map .deliverBy
  | .holdFor => (parseFutureRelease time true p.value capability).map .futureRelease
  | .holdUntil => (parseFutureRelease time false p.value capability).map .futureRelease
  | .mtPriority => if validSignedDecimal p.value then some (.mtPriority p.value) else none
  | .requireTLS => if p.value.isEmpty then some .requireTLS else none
  | .solicit => if validSolicitValue p.value then some (.solicit p.value) else none
  | .mtrk => if validMTRK p.value then some (.transitID p.value) else none
  | .submitter => do
      let decoded ← decodeRequiredXtext p.value
      if validSubmitter decoded then some (.submitter decoded p) else none
  | .conPerm => if p.value.isEmpty then some .conPerm else none

/-- The cases of `parseExtensionRcptParameter`. -/
def rcptSetting (p : EsmtpParam) : RcptKeyword → Option RcptSetting
  | .notify => (parseNotify p.value).map .notify
  | .orcpt =>
    let addressType := p.value.takeWhile (· != semicolon)
    let encoded := (p.value.dropWhile (· != semicolon)).drop 1
    if !(semicolon ∈ p.value) || !validAtom addressType || encoded.isEmpty then none
    else (decodeXtext encoded).map (.orcpt addressType · p)
  | .rrvs => (parseRRVS time p.value).map .rrvs
  | .conNeg => if p.value.isEmpty then some .conNeg else none

def uniqueParameter (seen : List Bytes) (keyword : Bytes) : Except Bytes (List Bytes) :=
  if keyword ∈ seen then .error keyword else .ok (keyword :: seen)

/-- A value that is not one of the keyword's is an error. -/
def setTo {σ τ : Type} (seen : List Bytes) (keyword : Bytes) (apply : τ → σ) :
    Option τ → Except Bytes (List Bytes × σ)
  | none => .error keyword
  | some setting => .ok (seen, apply setting)

/-- The loop over all parameters, with the keywords that were there.  Without parameters there are no
options. -/
def parseParameters {σ : Type}
    (step : List Bytes × σ → EsmtpParam → Except Bytes (List Bytes × σ)) (new : σ)
    (params : List EsmtpParam) : Except Bytes (Option σ) :=
  if params.isEmpty then .ok none
  else do
    let s ← params.foldlM step ([], new)
    .ok (some s.2)

/-- `parseExtensionMailParameter`, for a keyword that it handles. -/
def parseExtensionMailParameter (extensions : Extensions) (s : List Bytes × MailOptions)
    (p : EsmtpParam) (k : MailKeyword) : Except Bytes (List Bytes × MailOptions) :=
  let keyword := toUpper p.keyword
  match extensions k.extension with
  | none => .error keyword
  | some capability => do
      let seen ← uniqueParameter s.1 keyword
      if k.other.any (·.text ∈ seen) then .error keyword
      else setTo seen keyword (MailSetting.apply s.2) (mailSetting time capability p k)

/-- One turn of the loop of `parseMailParameters`, with the keywords that were there. -/
def mailParameter (features : MailParameterFeatures) (s : List Bytes × MailOptions)
    (p : EsmtpParam) : Except Bytes (List Bytes × MailOptions) :=
  let keyword := toUpper p.keyword
  match CoreKeyword.ofText keyword with
  | some k => do
      let seen ← uniqueParameter s.1 keyword
      setTo seen keyword (MailSetting.apply s.2) (coreSetting features p k)
  | none =>
    match MailKeyword.ofText keyword with
    | some k => parseExtensionMailParameter time features.extensions s p k
    | none => .ok (s.1, { s.2 with extra := s.2.extra ++ [p] })

def parseMailParameters (features : MailParameterFeatures) (params : List EsmtpParam) :
    Except Bytes (Option MailOptions) :=
  parseParameters (mailParameter time features) {} params

/-- `parseExtensionRcptParameter`, for a keyword that it handles. -/
def parseExtensionRcptParameter (extensions : Extensions) (s : List Bytes × RcptOptions)
    (p : EsmtpParam) (k : RcptKeyword) : Except Bytes (List Bytes × RcptOptions) :=
  let keyword := toUpper p.keyword
  if (extensions k.extension).isNone then .error keyword
  else do
    let seen ← uniqueParameter s.1 keyword
    setTo seen keyword (RcptSetting.apply s.2) (rcptSetting time p k)

/-- One turn of the loop of `parseRcptParameters`. -/
def rcptParameter (extensions : Extensions) (s : List Bytes × RcptOptions) (p : EsmtpParam) :
    Except Bytes (List Bytes × RcptOptions) :=
  match RcptKeyword.ofText (toUpper p.keyword) with
  | some k => parseExtensionRcptParameter time extensions s p k
  | none => .ok (s.1, { s.2 with extra := s.2.extra ++ [p] })

def parseRcptParameters (extensions : Extensions) (params : List EsmtpParam) :
    Except Bytes (Option RcptOptions) :=
  parseParameters (rcptParameter time extensions) {} params

end

def validateExtensionMailPath (reversePath : Bytes) (opts : Option MailOptions) :
    Except Bytes Unit :=
  let delivery := opts.bind (·.delivery)
  if reversePath.isEmpty && (delivery.bind (·.futureRelease)).isSome then
    .error (ascii "FUTURERELEASE")
  else if (opts.bind (·.legacy)).any (!·.transitID.isEmpty) then
    match (delivery.bind (·.dsn)).bind (·.envelopeIDOriginal) with
    | none => .error (ascii "MTRK")
    | some original => if validMTRKENVID original.value then .ok () else .error (ascii "MTRK")
  else .ok ()

end GoSmtp.Server
