import GoSmtp.Wire.Path

/-!
# Options of MAIL and RCPT

The parameters of MAIL and RCPT as typed options (`options.go`).  They are what a client sends and
what a server parses.  The records in them are made when the first parameter that needs one is found.
-/

namespace GoSmtp

/-! ### Extensions -/

/-- The extensions that own parameters beyond the transport's. -/
inductive Extension where
  | dsn
  | deliverBy
  | futureRelease
  | mtPriority
  | rrvs
  | requireTLS
  | noSoliciting
  | mtrk
  | submitter
  | conPerm
  | conNeg
  deriving DecidableEq, Repr

/-- The extensions that are advertised, each with its parameters. -/
abbrev Extensions := Extension → Option Bytes

/-! ### MAIL -/

inductive BodyType where
  | sevenBit
  | eightBitMIME
  | binaryMIME
  deriving DecidableEq, Repr

structure TransportOptions where
  size : Option Int := none
  body : Option BodyType := none
  smtpUTF8 : Bool := false
  deriving DecidableEq, Repr

structure DSNMailOptions where
  ret : Bytes := []
  envelopeID : Bytes := []
  envelopeIDOriginal : Option EsmtpParam := none
  deriving DecidableEq, Repr

inductive ByMode where
  | notify
  | ret
  deriving DecidableEq, Repr

structure DeliverByOptions where
  seconds : Int
  mode : ByMode
  trace : Bool
  deriving DecidableEq, Repr

structure FutureReleaseOptions where
  holdForSeconds : Int := 0
  holdUntil : Bytes := []
  deriving DecidableEq, Repr

structure DeliveryOptions where
  dsn : Option DSNMailOptions := none
  deliverBy : Option DeliverByOptions := none
  futureRelease : Option FutureReleaseOptions := none
  mtPriority : Bytes := []
  requireTLS : Bool := false
  deriving DecidableEq, Repr

structure LegacyOptions where
  solicit : Bytes := []
  transitID : Bytes := []
  submitter : Bytes := []
  submitterOriginal : Option EsmtpParam := none
  conPerm : Bool := false
  deriving DecidableEq, Repr

structure MailOptions where
  transport : Option TransportOptions := none
  delivery : Option DeliveryOptions := none
  legacy : Option LegacyOptions := none
  auth : Bytes := []
  authOriginal : Option EsmtpParam := none
  extra : List EsmtpParam := []
  deriving DecidableEq, Repr

/-! ### RCPT -/

structure DSNRcptOptions where
  notify : List Bytes := []
  originalType : Bytes := []
  original : Bytes := []
  orcptOriginal : Option EsmtpParam := none
  deriving DecidableEq, Repr

inductive Disposition where
  | continues
  | rejects
  deriving DecidableEq, Repr

structure RRVSOptions where
  timestamp : Bytes
  disposition : Option Disposition
  deriving DecidableEq, Repr

structure RecipientDeliveryOptions where
  dsn : Option DSNRcptOptions := none
  rrvs : Option RRVSOptions := none
  deriving DecidableEq, Repr

structure RecipientLegacyOptions where
  conNeg : Bool := false
  deriving DecidableEq, Repr

structure RcptOptions where
  delivery : Option RecipientDeliveryOptions := none
  legacy : Option RecipientLegacyOptions := none
  extra : List EsmtpParam := []
  deriving DecidableEq, Repr

/-! ### Records made on demand -/

/-- A record is changed, after it is made if it is not there. -/
def ensure {α : Type} (new : α) (o : Option α) (f : α → α) : Option α := some (f (o.getD new))

namespace MailOptions

/-- `ensureTransport`. -/
def onTransport (o : MailOptions) (f : TransportOptions → TransportOptions) : MailOptions :=
  { o with transport := ensure {} o.transport f }

/-- `ensureDelivery`. -/
def onDelivery (o : MailOptions) (f : DeliveryOptions → DeliveryOptions) : MailOptions :=
  { o with delivery := ensure {} o.delivery f }

/-- `ensureDSNMail`. -/
def onDSN (o : MailOptions) (f : DSNMailOptions → DSNMailOptions) : MailOptions :=
  o.onDelivery fun d => { d with dsn := ensure {} d.dsn f }

/-- `ensureLegacy`. -/
def onLegacy (o : MailOptions) (f : LegacyOptions → LegacyOptions) : MailOptions :=
  { o with legacy := ensure {} o.legacy f }

/-- The options without the parameters that have no type. -/
def typed (o : MailOptions) : MailOptions := { o with extra := [] }

end MailOptions

namespace RcptOptions

/-- `ensureRecipientDelivery`. -/
def onDelivery (o : RcptOptions) (f : RecipientDeliveryOptions → RecipientDeliveryOptions) :
    RcptOptions :=
  { o with delivery := ensure {} o.delivery f }

/-- `ensureDSNRcpt`. -/
def onDSN (o : RcptOptions) (f : DSNRcptOptions → DSNRcptOptions) : RcptOptions :=
  o.onDelivery fun d => { d with dsn := ensure {} d.dsn f }

/-- `ensureRecipientLegacy`. -/
def onLegacy (o : RcptOptions) (f : RecipientLegacyOptions → RecipientLegacyOptions) : RcptOptions :=
  { o with legacy := ensure {} o.legacy f }

/-- The options without the parameters that have no type. -/
def typed (o : RcptOptions) : RcptOptions := { o with extra := [] }

end RcptOptions

end GoSmtp
