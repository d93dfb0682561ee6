import GoSmtp.Server.Params
import GoSmtp.Server.Session

/-!
# The language of a server

The session is modelled over an arbitrary syntax of arguments.  Here that syntax is the one of the
package: the names of `validGreetingIdentity` (`smtpserver/server.go`), the paths of
`internal/smtpwire/path.go`, and the parameters of `smtpserver/cmd_params.go` with the features that
`floor_extensions.go` gives them.
-/

namespace GoSmtp.Server

open Octet

/-! ### Names -/

def validGreetingLabel (label : Bytes) : Bool :=
  !label.isEmpty && label.head? != some hyphen && label.getLast? != some hyphen && label.all isLdh

/-- What `validGreetingIdentity` admits between brackets. -/
def validGreetingLiteral (inside : Bytes) : Bool :=
  if toUpper (inside.take 5) == ascii "IPV6:" then parsesAsIPv6 (inside.drop 5)
  else if isIPv4 inside then true
  else if parsesAsIPv6 inside then false
  else
    let tag := inside.takeWhile (· != colon)
    let value := (inside.dropWhile (· != colon)).drop 1
    colon ∈ inside && validGreetingLabel tag && !value.isEmpty &&
      !value.any (fun c => c == lbracket || c == rbracket || c == backslash)

def validGreetingIdentity (identity : Bytes) : Bool :=
  if identity.isEmpty || identity.length > 255 then false
  else if identity.any (fun c => c < 0x21 || c > 0x7e) then false
  else if identity.head? == some lbracket then
    if identity.length < 3 || identity.getLast? != some rbracket then false
    else validGreetingLiteral identity.tail.dropLast
  else (identity.splitOn dot).all fun label => validGreetingLabel label && label.length ≤ 63

theorem printable_of_validGreetingIdentity {identity : Bytes}
    (h : validGreetingIdentity identity = true) :
  identity ≠ [] ∧ ∀ c ∈ identity, 0x21 ≤ c ∧ c ≤ 0x7e
  := by
  rw [validGreetingIdentity] at h
  split at h
  · cases h
  next hsize =>
  split at h
  · cases h
  next hany =>
  constructor
  · rintro rfl
    simp at hsize
  · intro c hc
    have hc := (List.any_eq_false.mp (Bool.eq_false_iff.mpr hany)) c hc
    simpa [not_or, UInt8.not_lt] using hc

/-! ### Paths and parameters -/

/-- What the session uses of a path. -/
def Path.ofWire (path : WirePath) : Path where
  mailbox := path.mailbox
  params := path.params.map fun p => ⟨p.keyword, p.value⟩

/-- The parameters, as the parser has them. -/
def Path.esmtpParams (path : Path) : List EsmtpParam := path.params.map fun p => ⟨p.keyword, p.value⟩

@[simp]
theorem esmtpParams_ofWire (path : WirePath) :
  (Path.ofWire path).esmtpParams = path.params
  := by
  rw [Path.esmtpParams, Path.ofWire, List.map_map]
  exact List.map_id _

/-- What the session uses of the options of MAIL. -/
def MailParams.ofOptions (opts : Option MailOptions) : MailParams where
  size := (opts.bind (·.transport)).bind (·.size)
  binaryMIME := (opts.bind (·.transport)).any (·.body == some .binaryMIME)
  smtpUTF8 := (opts.bind (·.transport)).any (·.smtpUTF8)

/-- The syntax of the package, for a server with the features and the extensions. -/
def Grammar.wire (time : TimeFormat) (features : ProtocolState → Bool → MailParameterFeatures)
    (extensions : Extensions) : Grammar where
  validGreetingIdentity := Server.validGreetingIdentity
  reversePath argument := (parseReversePath { smtpUTF8 := true } argument).toOption.map .ofWire
  forwardPath utf8 argument :=
    (parseForwardPath { smtpUTF8 := utf8 } argument).toOption.map .ofWire
  mailParams state extended path := do
    let opts ← parseMailParameters time (features state extended) path.esmtpParams
    validateExtensionMailPath path.mailbox opts
    pure (.ofOptions opts)
  rcptParams path :=
    match parseRcptParameters time extensions path.esmtpParams with
    | .error keyword => some keyword
    | .ok _ => none

section

variable {time : TimeFormat} {features : ProtocolState → Bool → MailParameterFeatures}
  {extensions : Extensions} {argument : Bytes} {path : Path}

theorem toOption_map_eq_some {α β ε : Type} {r : Except ε α} {f : α → β} {b : β}
    (h : r.toOption.map f = some b) :
  ∃ a, r = .ok a ∧ f a = b
  := by
  cases r with
  | error e => cases h
  | ok a => exact ⟨a, rfl, Option.some.inj h⟩

theorem reversePath_wire (h : (Grammar.wire time features extensions).reversePath argument = some path) :
  ∃ wire, parseReversePath { smtpUTF8 := true } argument = .ok wire ∧ .ofWire wire = path
  := toOption_map_eq_some h

theorem forwardPath_wire {utf8 : Bool}
    (h : (Grammar.wire time features extensions).forwardPath utf8 argument = some path) :
  ∃ wire, parseForwardPath { smtpUTF8 := utf8 } argument = .ok wire ∧ .ofWire wire = path
  := toOption_map_eq_some h

end

def Config.mailParameterFeatures (cfg : Config) (binaryMIME : Bool) (extensions : Extensions)
    (state : ProtocolState) (extended : Bool) : MailParameterFeatures where
  size := extended
  eightBit := extended
  binaryMIME := binaryMIME && cfg.chunking
  smtpUTF8 := extended
  auth := !(cfg.authMechanisms state extended).isEmpty
  extensions := extensions

/-- The server with the syntax of the package: whether it has BINARYMIME, and the extensions that the
backend declares. -/
def Config.speaking (cfg : Config) (time : TimeFormat) (binaryMIME : Bool)
    (extensions : Extensions) : Config :=
  { cfg with
    grammar := .wire time (cfg.mailParameterFeatures binaryMIME extensions) extensions }

/-- No text is a point in time. -/
def TimeFormat.never : TimeFormat := ⟨Unit, fun _ => none, fun _ _ => false, fun _ => []⟩

/-- A small server with the syntax of the package, without extensions of the backend, that reads no
points in time. -/
def Config.plain : Config :=
  (Config.small 7 seven_lt).speaking .never false fun _ => none

end GoSmtp.Server
