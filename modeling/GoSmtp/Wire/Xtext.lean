import GoSmtp.Limits

/-!
# Xtext

The encoding of parameter values in which an octet may be written as a plus sign and two hexadecimal
digits (`internal/smtpwire/encoder.go`).  The package `smtp` has an encoder of its own (`xtext.go`).
-/

namespace GoSmtp

namespace Octet

def plus : UInt8 := 43

end Octet

open Octet

/-- The octets that have to be escaped. -/
def isEscaped (c : UInt8) : Bool := c == plus || c == equals || c < 33 || c > 126

/-- The loop of both encoders, with the text so far. -/
def encodeXtextLoop (hexDigits : Bytes) : Bytes → Bytes → Bytes
  | b, [] => b
  | b, c :: raw =>
    if isEscaped c then
      encodeXtextLoop hexDigits
        (b ++ [plus, hexDigits.getD (c >>> 4).toNat 0, hexDigits.getD (c &&& 15).toNat 0]) raw
    else encodeXtextLoop hexDigits (b ++ [c]) raw

def xtextHexDigits : Bytes := ascii "0123456789ABCDEF"

/-- `smtpwire.EncodeXtext`. -/
def encodeXtext (raw : Bytes) : Bytes := encodeXtextLoop xtextHexDigits [] raw

namespace Smtp

def xtextHexDigits : Bytes := ascii "0123456789ABCDEF"

/-- `smtp.EncodeXtext`. -/
def encodeXtext (raw : Bytes) : Bytes := encodeXtextLoop xtextHexDigits [] raw

end Smtp

def hexVal (c : UInt8) : Option UInt8 :=
  if 48 ≤ c && c ≤ 57 then some (c - 48)
  else if 65 ≤ c && c ≤ 70 then some (c - 65 + 10)
  else if 97 ≤ c && c ≤ 102 then some (c - 97 + 10)
  else none

def decodeXtext : Bytes → Option Bytes
  | [] => some []
  | c :: w =>
    if c == plus then
      match w with
      | high :: low :: w =>
        match hexVal high, hexVal low with
        | some h, some l => (decodeXtext w).map ((h <<< 4 ||| l) :: ·)
        | _, _ => none
      | _ => none
    else if c < 33 || c > 126 then none
    else (decodeXtext w).map (c :: ·)

end GoSmtp
