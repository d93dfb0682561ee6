import GoSmtp.Lib.Utf8
import GoSmtp.Limits

/-!
# Paths

The arguments of MAIL and RCPT (`internal/smtpwire/path.go`): a path in angle brackets, and
parameters behind it.  Five scanners take the argument apart, each with its own notion of quotes,
escapes and literals: one finds the closing bracket, one the end of an obsolete source route, one
the at sign of the mailbox, and two check the local part and the domain.
-/

namespace GoSmtp

variable {m w : Bytes} {i j : Nat} {allowNull allowPostmaster utf8 : Bool} {r : Option Nat}

namespace Octet

def quote : UInt8 := 34
def percent : UInt8 := 37
def comma : UInt8 := 44
def hyphen : UInt8 := 45
def colon : UInt8 := 58
def langle : UInt8 := 60
def rangle : UInt8 := 62
def atSign : UInt8 := 64
def lbracket : UInt8 := 91
def backslash : UInt8 := 92
def rbracket : UInt8 := 93

end Octet

open Octet

/-! ### Letters -/

def isAlnum (c : UInt8) : Bool :=
  (65 ≤ c && c ≤ 90) || (97 ≤ c && c ≤ 122) || (48 ≤ c && c ≤ 57)

/-- A letter, a digit or a hyphen. -/
def isLdh (c : UInt8) : Bool := isAlnum c || c == hyphen

def isAtext (c : UInt8) : Bool := isAlnum c || c ∈ ascii "!#$%&'*+-/=?^_`\x7b|\x7d~"

def hasHighByte (w : Bytes) : Bool := w.any (128 ≤ ·)

/-- A letter of an ASCII text in upper case. -/
def upperByte (c : UInt8) : UInt8 := if 97 ≤ c && c ≤ 122 then c - 32 else c

/-- `strings.EqualFold` with an ASCII text.  Two characters beyond ASCII fold to a letter: the long
s, and the Kelvin sign. -/
def equalFold : Bytes → Bytes → Bool
  | w, [] => w.isEmpty
  | [], _ :: _ => false
  | b :: w, t :: ts =>
    if upperByte b == upperByte t then equalFold w ts
    else if upperByte t == 83 && b == 0xC5 && w.head? == some 0xBF then equalFold w.tail ts
    else if upperByte t == 75 && b == 0xE2 && w.take 2 == [0x84, 0xAA] then
      equalFold (w.drop 2) ts
    else false

/-- Whether `strings.ToUpper` of the text begins with `IPV6:`.  The dotless i has the upper case I. -/
def hasIPv6Prefix (w : Bytes) : Bool :=
  toUpper (w.take 5) == ascii "IPV6:" ||
    (w.take 2 == [0xC4, 0xB1] && toUpper ((w.drop 2).take 4) == ascii "PV6:")

/-! ### Addresses of `net/netip` -/

def isDigit (c : UInt8) : Bool := 48 ≤ c && c ≤ 57

def isHex (c : UInt8) : Bool := isDigit c || (97 ≤ c && c ≤ 102) || (65 ≤ c && c ≤ 70)

/-- A number below 256 without leading zeros. -/
def isIPv4Field (w : Bytes) : Bool :=
  !w.isEmpty && w.all isDigit && (w.length == 1 || w.head? != some 48) &&
    w.foldl (fun n c => 10 * n + (c.toNat - 48)) 0 ≤ 255

/-- The text of an IPv4 address. -/
def isIPv4 (w : Bytes) : Bool :=
  let fields := w.splitOn dot
  fields.length == 4 && fields.all isIPv4Field

/-- The fields of an IPv6 address, of which `k` are left; `ellipsis` says that `::` stands for the
missing ones. -/
def ipv6Fields : Nat → Bool → Bytes → Bool
  | 0, ellipsis, w => w.isEmpty && !ellipsis
  | k + 1, ellipsis, w =>
    let digits := w.takeWhile isHex
    if digits.isEmpty || digits.length > 4 then false
    else
      match w.drop digits.length with
      | [] => decide (0 < k) == ellipsis
      | c :: rest =>
        if c == dot then
          -- an IPv4 address takes the place of two fields
          (ellipsis || k == 1) && decide (0 < k) && isIPv4 w && decide (1 < k) == ellipsis
        else if c != colon || rest.isEmpty then false
        else if rest.head? == some colon then
          !ellipsis && (if rest.tail.isEmpty then 0 < k else ipv6Fields k true rest.tail)
        else ipv6Fields k ellipsis rest

/-- The text of an IPv6 address, without a zone. -/
def isIPv6 (w : Bytes) : Bool :=
  if w.take 2 == [colon, colon] then (w.drop 2).isEmpty || ipv6Fields 8 true (w.drop 2)
  else ipv6Fields 8 false w

/-- `netip.ParseAddr` succeeds with `Is6`: an IPv6 address, and after `%` any zone that is not
empty. -/
def parsesAsIPv6 (w : Bytes) : Bool :=
  isIPv6 (w.takeWhile (· != percent)) && (w.dropWhile (· != percent)) != [percent]

/-! ### Parameters -/

/-- Errors of the parser, without their texts. -/
inductive PathError where
  | badPrefix
  | badSyntax
  | tooLong
  | utf8Required
  | nullForwardPath
  | badParameter
  deriving DecidableEq, Repr

/-- `smtpwire.Param`: a parameter without a value has the empty one. -/
structure EsmtpParam where
  keyword : Bytes
  value : Bytes
  deriving DecidableEq, Repr

def validateKeyword : Bytes → Bool
  | [] => false
  | c :: w => isAlnum c && w.all isLdh

def validateESMTPValue (w : Bytes) : Bool :=
  !w.isEmpty && w.all fun c => !(c < 33 || c > 126 || c == equals)

/-- A field of the parameters. -/
def parseParam (field : Bytes) : Option EsmtpParam :=
  match cutEquals field with
  | (keyword, none) => if validateKeyword keyword then some ⟨keyword, []⟩ else none
  | (keyword, some value) =>
    if validateKeyword keyword && validateESMTPValue value then some ⟨keyword, value⟩ else none

def parsePathParams (suffix : Bytes) : Except PathError (List EsmtpParam) :=
  if suffix.isEmpty then .ok []
  else if suffix.head? != some sp || suffix.any (fun c => c == cr || c == lf || c == 0 || c == 9) then
    .error .badParameter
  else
    match (stringsFields suffix).mapM parseParam with
    | none => .error .badParameter
    | some params => .ok params

def encodeParam (p : EsmtpParam) : Option Bytes :=
  if !validateKeyword p.keyword then none
  else if p.value.isEmpty then some p.keyword
  else if validateESMTPValue p.value then some (p.keyword ++ [equals] ++ p.value)
  else none

/-! ### Scanners -/

/-- Inside quotes, and behind a backslash there. -/
structure Quoting where
  quoted : Bool := false
  escaped : Bool := false
  deriving DecidableEq, Repr

namespace Quoting

def step (q : Quoting) (c : UInt8) : Quoting :=
  if q.escaped then { q with escaped := false }
  else if q.quoted then
    if c == backslash then { q with escaped := true }
    else if c == quote then { q with quoted := false }
    else q
  else if c == quote then { q with quoted := true }
  else q

/-- Outside quotes. -/
def plain (q : Quoting) : Bool := !q.escaped && !q.quoted

end Quoting

/-- The state of `pathClosingAngle`. -/
structure AngleScan where
  quoting : Quoting := {}
  literal : Bool := false
  deriving DecidableEq, Repr

namespace AngleScan

def step (a : AngleScan) (c : UInt8) : AngleScan where
  quoting := a.quoting.step c
  literal :=
    if a.quoting.plain && c == lbracket then true
    else if a.quoting.plain && c == rbracket then false
    else a.literal

/-- The octet is the closing bracket. -/
def closes (a : AngleScan) (c : UInt8) : Bool := a.quoting.plain && c == rangle && !a.literal

end AngleScan

/-- The loop of `pathClosingAngle`, at the index `i`. -/
def closingAngle (a : AngleScan) (i : Nat) : Bytes → Option Nat
  | [] => none
  | c :: w => if a.closes c then some i else closingAngle (a.step c) (i + 1) w

/-- `pathClosingAngle`, on a text that begins with `<`. -/
def pathClosingAngle (rest : Bytes) : Option Nat := closingAngle {} 1 rest.tail

/-- The loop of `sourceRouteColon`. -/
def routeColon (literal : Bool) (i : Nat) : Bytes → Option Nat
  | [] => none
  | c :: w =>
    if c == colon && !literal then some i
    else routeColon (if c == lbracket then true else if c == rbracket then false else literal)
      (i + 1) w

def sourceRouteColon (mailbox : Bytes) : Option Nat := routeColon false 0 mailbox

/-- The loop of `splitMailbox`: the index of the at sign, of which there may be one. -/
def atIndex (q : Quoting) (found : Option Nat) (i : Nat) : Bytes → Except PathError (Option Nat)
  | [] => if q.plain then .ok found else .error .badSyntax
  | c :: w =>
    if q.plain && c == atSign then
      if found.isSome then .error .badSyntax else atIndex (q.step c) (some i) (i + 1) w
    else atIndex (q.step c) found (i + 1) w

/-- `splitMailbox`: the local part, and the domain if there is an at sign. -/
def splitMailbox (mailbox : Bytes) : Except PathError (Bytes × Option Bytes) :=
  match atIndex {} none 0 mailbox with
  | .error e => .error e
  | .ok none => .ok (mailbox, none)
  | .ok (some i) => .ok (mailbox.take i, some (mailbox.drop (i + 1)))

/-! ### Local parts and domains -/

/-- `unicode.IsSpace`, beyond ASCII. -/
def isSpaceRune (r : Nat) : Bool :=
  r ∈ [0x85, 0xA0, 0x1680, 0x2028, 0x2029, 0x202F, 0x205F, 0x3000] || (0x2000 ≤ r && r ≤ 0x200A)

/-- A character beyond ASCII that a name may not have: none at all, a control or a space. -/
def badRune (r : Nat) : Bool :=
  r == Utf8.runeError || (0x80 ≤ r && r ≤ 0x9F) || isSpaceRune r

/-- The loop of `validateLocalPart` between quotes. -/
def quotedLoop : Bytes → Bool
  | [] => true
  | [c] => c != backslash && c != quote && !(isControl c && c != 9)
  | c :: d :: w =>
    if c == backslash then !(d == cr || d == lf || d == 0 || d == 127) && quotedLoop w
    else c != quote && !(isControl c && c != 9) && quotedLoop (d :: w)

/-- The loop of `validateLocalPart` for a text without quotes. -/
def dotLoop (utf8 lastDot : Bool) : Bytes → Except PathError Unit
  | [] => .ok ()
  | c :: w =>
    if c == dot then if lastDot then .error .badSyntax else dotLoop utf8 true w
    else if c < 128 then if isAtext c then dotLoop utf8 false w else .error .badSyntax
    else if !utf8 then .error .utf8Required
    else
      match Utf8.decodeRune (c :: w) with
      | (r, size) =>
        if badRune r then .error .badSyntax else dotLoop utf8 false (w.drop (size - 1))
  termination_by w => w.length
  decreasing_by all_goals (simp only [List.length_cons, List.length_drop]; omega)

def validateLocalPart (utf8 : Bool) (w : Bytes) : Except PathError Unit :=
  if w.isEmpty then .error .badSyntax
  else if w.head? == some quote then
    if w.length < 2 || w.getLast? != some quote || !quotedLoop (w.tail.dropLast) then
      .error .badSyntax
    else .ok ()
  else if w.getLast? == some dot then .error .badSyntax
  else dotLoop utf8 true w

/-- The loop of `validateDomain` in a label. -/
def labelLoop (utf8 : Bool) : Bytes → Except PathError Unit
  | [] => .ok ()
  | c :: w =>
    if c < 128 then if isLdh c then labelLoop utf8 w else .error .badSyntax
    else if !utf8 then .error .utf8Required
    else
      match Utf8.decodeRune (c :: w) with
      | (r, size) => if badRune r then .error .badSyntax else labelLoop utf8 (w.drop (size - 1))
  termination_by w => w.length
  decreasing_by all_goals (simp only [List.length_cons, List.length_drop]; omega)

def validateLabel (utf8 : Bool) (w : Bytes) : Except PathError Unit :=
  if w.isEmpty || w.head? == some hyphen || w.getLast? == some hyphen then .error .badSyntax
  else labelLoop utf8 w

def validAddressLiteralTag (tag : Bytes) : Bool := tag.all isLdh

/-- What `validateDomain` admits between brackets. -/
def validateLiteral (inside : Bytes) : Bool :=
  if hasIPv6Prefix inside then parsesAsIPv6 (inside.drop 5)
  else if isIPv4 inside then true
  else
    let tag := inside.takeWhile (· != colon)
    let value := (inside.dropWhile (· != colon)).drop 1
    colon ∈ inside && !tag.isEmpty && !value.isEmpty && validAddressLiteralTag tag &&
      !value.any (fun c => c == lbracket || c == rbracket || c == backslash || c == cr || c == lf ||
        c == 0) && !hasHighByte value

def validateDomain (utf8 : Bool) (w : Bytes) : Except PathError Unit :=
  if w.isEmpty then .error .badSyntax
  else if w.head? == some lbracket then
    if w.length < 3 || w.getLast? != some rbracket || !validateLiteral w.tail.dropLast then
      .error .badSyntax
    else .ok ()
  else (w.splitOn dot).forM (validateLabel utf8)

/-- The hops of a source route. -/
def validateHop (utf8 : Bool) (hop : Bytes) : Except PathError Unit :=
  if hop.length < 2 || hop.head? != some atSign then .error .badSyntax
  else validateDomain utf8 hop.tail

/-- `discardSourceRoute`, on a text that is not empty. -/
def discardSourceRoute (utf8 : Bool) (mailbox : Bytes) : Except PathError Bytes :=
  if mailbox.head? != some atSign then .ok mailbox
  else
    match sourceRouteColon mailbox with
    | none => .error .badSyntax
    | some i =>
      if i + 1 ≥ mailbox.length then .error .badSyntax
      else do
        ((mailbox.take i).splitOn comma).forM (validateHop utf8)
        .ok (mailbox.drop (i + 1))

/-! ### The parser -/

structure PathOptions where
  smtpUTF8 : Bool := false
  maxPathLength : Int := 0
  deriving DecidableEq, Repr

def defaultMaxPathLength : Nat := 4096

/-- The bound on a path, brackets included. -/
def PathOptions.maxPath (opts : PathOptions) : Nat :=
  if opts.maxPathLength ≤ 0 then defaultMaxPathLength else opts.maxPathLength.toNat

/-- `smtpwire.Path`. -/
structure WirePath where
  mailbox : Bytes := []
  localPart : Bytes := []
  domain : Bytes := []
  null : Bool := false
  postmaster : Bool := false
  params : List EsmtpParam := []
  deriving DecidableEq, Repr

/-- The end of `parsePathArgument`: the mailbox behind the source route. -/
def parseMailbox (allowPostmaster utf8 : Bool) (params : List EsmtpParam) (mailbox : Bytes) :
    Except PathError WirePath := do
  let (localPart, domain) ← splitMailbox mailbox
  if allowPostmaster && equalFold localPart (ascii "Postmaster") && domain != some [] then
    match domain with
    | some domain =>
      validateDomain utf8 domain
      .ok { mailbox := mailbox, localPart := localPart, domain := domain, postmaster := true,
            params := params }
    | none =>
      .ok { mailbox := mailbox, localPart := localPart, postmaster := true, params := params }
  else
    match domain with
    | none => .error .badSyntax
    | some domain =>
      if domain.isEmpty then .error .badSyntax
      else
        validateLocalPart utf8 localPart
        validateDomain utf8 domain
        .ok { mailbox := mailbox, localPart := localPart, domain := domain, params := params }

/-- The part of `parsePathArgument` behind the keyword and its spaces. -/
def parseBracketed (allowNull allowPostmaster : Bool) (opts : PathOptions) (rest : Bytes) :
    Except PathError WirePath :=
  if rest.head? != some langle then .error .badSyntax
  else
    match pathClosingAngle rest with
    | none => .error .badSyntax
    | some i =>
      if i + 1 > opts.maxPath then .error .tooLong
      else do
        let params ← parsePathParams (rest.drop (i + 1))
        let raw := (rest.take i).drop 1
        if raw.isEmpty then
          if allowNull then .ok { null := true, params := params } else .error .nullForwardPath
        else if !Utf8.valid raw then .error .badSyntax
        else if !opts.smtpUTF8 && hasHighByte raw then .error .utf8Required
        else
          let mailbox ← discardSourceRoute opts.smtpUTF8 raw
          parseMailbox allowPostmaster opts.smtpUTF8 params mailbox

def parsePathArgument (argument keyword : Bytes) (allowNull allowPostmaster : Bool)
    (opts : PathOptions) : Except PathError WirePath :=
  if !equalFold (argument.take keyword.length) keyword then .error .badPrefix
  else
    parseBracketed allowNull allowPostmaster opts
      ((argument.drop keyword.length).dropWhile (· == sp))

def parseReversePath (opts : PathOptions) (argument : Bytes) : Except PathError WirePath :=
  parsePathArgument argument (ascii "FROM:") true false opts

def parseForwardPath (opts : PathOptions) (argument : Bytes) : Except PathError WirePath :=
  parsePathArgument argument (ascii "TO:") false true opts

/-! ### Runs of the scanners -/

namespace Quoting

/-- The state behind a text. -/
def run (q : Quoting) (w : Bytes) : Quoting := w.foldl step q

/-- The octet does not stand outside quotes. -/
def avoids (x : UInt8) (q : Quoting) : Bytes → Bool
  | [] => true
  | c :: w => !(q.plain && c == x) && avoids x (q.step c) w

theorem run_cons (q : Quoting) (c : UInt8) (w : Bytes) :
  q.run (c :: w) = (q.step c).run w
  := rfl

theorem run_append (q : Quoting) (v w : Bytes) :
  q.run (v ++ w) = (q.run v).run w
  := List.foldl_append

theorem avoids_append (x : UInt8) (q : Quoting) (v w : Bytes) :
  avoids x q (v ++ w) = (avoids x q v && avoids x (q.run v) w)
  := by
  induction v generalizing q with
  | nil => rfl
  | cons c v ih => simp only [List.cons_append, avoids, ih, run_cons, Bool.and_assoc]

theorem eq_of_plain {q : Quoting} (h : q.plain = true) :
  q = {}
  := by
  obtain ⟨quoted, escaped⟩ := q
  cases quoted <;> cases escaped <;> simp_all [plain]

end Quoting

namespace AngleScan

/-- The state behind a text. -/
def run (a : AngleScan) (w : Bytes) : AngleScan := w.foldl step a

/-- No octet of the text is the closing bracket. -/
def stays (a : AngleScan) : Bytes → Bool
  | [] => true
  | c :: w => !a.closes c && stays (a.step c) w

theorem run_cons (a : AngleScan) (c : UInt8) (w : Bytes) :
  a.run (c :: w) = (a.step c).run w
  := rfl

theorem run_append (a : AngleScan) (v w : Bytes) :
  a.run (v ++ w) = (a.run v).run w
  := List.foldl_append

theorem stays_append (a : AngleScan) (v w : Bytes) :
  stays a (v ++ w) = (stays a v && stays (a.run v) w)
  := by
  induction v generalizing a with
  | nil => rfl
  | cons c v ih => simp only [List.cons_append, stays, ih, run_cons, Bool.and_assoc]

end AngleScan

theorem closingAngle_eq_some {a : AngleScan} :
  closingAngle a i w = some j ↔
    ∃ v rest, w = v ++ rangle :: rest ∧ a.stays v = true ∧ (a.run v).closes rangle = true ∧
      j = i + v.length
  := by
  induction w generalizing a i with
  | nil => simp [closingAngle]
  | cons c w ih =>
    rw [closingAngle]
    cases hcloses : a.closes c with
    | true =>
      have hc : c = rangle := by
        simp only [AngleScan.closes, Bool.and_eq_true, beq_iff_eq] at hcloses
        exact hcloses.1.2
      subst hc
      rw [if_pos rfl]
      constructor
      · rintro ⟨⟩
        exact ⟨[], w, rfl, rfl, hcloses, rfl⟩
      · rintro ⟨v, rest, heq, hstays, -, rfl⟩
        cases v with
        | nil => rfl
        | cons d v =>
          cases heq
          simp [AngleScan.stays, hcloses] at hstays
    | false =>
      rw [if_neg (by decide), ih]
      constructor
      · rintro ⟨v, rest, rfl, hstays, hclose, rfl⟩
        refine ⟨c :: v, rest, rfl, by simp [AngleScan.stays, hcloses, hstays], hclose, ?_⟩
        rw [List.length_cons]
        omega
      · rintro ⟨v, rest, heq, hstays, hclose, rfl⟩
        cases v with
        | nil =>
          cases heq
          rw [AngleScan.run, List.foldl_nil, hcloses] at hclose
          cases hclose
        | cons d v =>
          cases heq
          simp only [AngleScan.stays, Bool.and_eq_true] at hstays
          refine ⟨v, rest, rfl, hstays.2, hclose, ?_⟩
          rw [List.length_cons]
          omega

theorem atIndex_some {q : Quoting} {k : Nat} (h : atIndex q (some k) i w = .ok r) :
  r = some k ∧ q.avoids atSign w = true ∧ (q.run w).plain = true
  := by
  induction w generalizing q i with
  | nil =>
    rw [atIndex] at h
    split at h
    · next hplain =>
      cases h
      exact ⟨rfl, rfl, hplain⟩
    · cases h
  | cons c w ih =>
    rw [atIndex] at h
    split at h
    · simp at h
    · next hnot =>
      obtain ⟨hr, havoids, hplain⟩ := ih h
      exact ⟨hr, by simp [Quoting.avoids, havoids, hnot], hplain⟩

theorem atIndex_none {q : Quoting} (h : atIndex q none i w = .ok r) :
  (r = none ∧ q.avoids atSign w = true ∧ (q.run w).plain = true) ∨
  ∃ v rest, w = v ++ atSign :: rest ∧ r = some (i + v.length) ∧ q.avoids atSign v = true ∧
    (q.run v).plain = true ∧ Quoting.avoids atSign {} rest = true ∧
    (Quoting.run {} rest).plain = true
  := by
  induction w generalizing q i with
  | nil =>
    rw [atIndex] at h
    split at h
    · next hplain =>
      cases h
      exact .inl ⟨rfl, rfl, hplain⟩
    · cases h
  | cons c w ih =>
    rw [atIndex] at h
    split at h
    · next hat =>
      obtain ⟨hplain, hc⟩ := Bool.and_eq_true_iff.mp hat
      have hc : c = atSign := eq_of_beq hc
      subst hc
      rw [if_neg (by simp)] at h
      obtain ⟨rfl, havoids, hend⟩ := atIndex_some h
      have hq := Quoting.eq_of_plain hplain
      subst hq
      exact .inr ⟨[], w, rfl, rfl, rfl, hplain, havoids, hend⟩
    · next hnot =>
      rcases ih h with ⟨hr, havoids, hend⟩ | ⟨v, rest, rfl, rfl, havoids, hplain, hrest⟩
      · exact .inl ⟨hr, by simp [Quoting.avoids, havoids, hnot], hend⟩
      · refine .inr ⟨c :: v, rest, rfl, ?_, by simp [Quoting.avoids, havoids, hnot], hplain,
          hrest⟩
        rw [List.length_cons]
        congr 1
        omega

/-! ### What is accepted -/

theorem splitMailbox_eq_ok {l : Bytes} {d : Option Bytes} (h : splitMailbox m = .ok (l, d)) :
  (d = none ∧ l = m ∧ Quoting.avoids atSign {} m = true) ∨
  ∃ domain, d = some domain ∧ m = l ++ atSign :: domain ∧ Quoting.avoids atSign {} l = true ∧
    (Quoting.run {} l).plain = true ∧ (Quoting.run {} domain).plain = true
  := by
  rw [splitMailbox] at h
  cases hat : atIndex {} none 0 m with
  | error e =>
    rw [hat] at h
    cases h
  | ok r =>
    rw [hat] at h
    rcases atIndex_none hat with ⟨rfl, havoids, -⟩ | ⟨v, rest, rfl, rfl, havoids, hplain, -, hend⟩
    · cases h
      exact .inl ⟨rfl, rfl, havoids⟩
    · simp only [Nat.zero_add, List.take_left', List.drop_append] at h
      simp only [Nat.add_sub_cancel_left, List.drop_one, List.tail_cons,
        List.drop_eq_nil_of_le (Nat.le_succ _), List.nil_append, Except.ok.injEq,
        Prod.mk.injEq] at h
      obtain ⟨rfl, rfl⟩ := h
      exact .inr ⟨rest, rfl, rfl, havoids, hplain, hend⟩

theorem routeColon_eq_some {literal : Bool} (h : routeColon literal i w = some j) :
  ∃ v rest, w = v ++ colon :: rest ∧ j = i + v.length
  := by
  induction w generalizing literal i with
  | nil => cases h
  | cons c w ih =>
    rw [routeColon] at h
    split at h
    · next hcolon =>
      cases h
      have hc : c = colon := eq_of_beq (Bool.and_eq_true_iff.mp hcolon).1
      exact ⟨[], w, by rw [hc]; rfl, rfl⟩
    · obtain ⟨v, rest, rfl, rfl⟩ := ih h
      refine ⟨c :: v, rest, rfl, ?_⟩
      rw [List.length_cons]
      omega

theorem discardSourceRoute_eq_ok {raw : Bytes} (hraw : raw ≠ [])
    (h : discardSourceRoute utf8 raw = .ok m) :
  m ≠ [] ∧ ((raw = m ∧ m.head? ≠ some atSign) ∨ ∃ hops, raw = hops ++ colon :: m)
  := by
  rw [discardSourceRoute] at h
  split at h
  · next hhead =>
    cases h
    exact ⟨hraw, .inl ⟨rfl, by simpa using hhead⟩⟩
  · split at h
    · cases h
    · next i hcolon =>
      split at h
      · cases h
      · next hlength =>
        obtain ⟨v, rest, rfl, rfl⟩ := routeColon_eq_some hcolon
        cases hhops : (((v ++ colon :: rest).take (0 + v.length)).splitOn comma).forM
            (validateHop utf8) with
        | error e =>
          rw [hhops] at h
          cases h
        | ok u =>
          rw [hhops] at h
          have hm : m = rest := by
            have hdrop : (v ++ colon :: rest).drop (0 + v.length + 1) = rest := by simp
            rw [← hdrop]
            exact (Except.ok.inj h).symm
          subst hm
          refine ⟨?_, .inr ⟨v, rfl⟩⟩
          rintro rfl
          simp at hlength

/-- What `parseMailbox` accepts: Postmaster without a domain, or two parts that were checked. -/
structure Checked (allowPostmaster utf8 : Bool) (m : Bytes) (path : WirePath) : Prop where
  mailbox : path.mailbox = m
  null : path.null = false
  parts : (splitMailbox m = .ok (m, none) ∧ path.localPart = m ∧ path.domain = [] ∧
      path.postmaster = true ∧ allowPostmaster = true ∧ equalFold m (ascii "Postmaster") = true) ∨
    (splitMailbox m = .ok (path.localPart, some path.domain) ∧
      validateDomain utf8 path.domain = .ok () ∧
      ((path.postmaster = true ∧ allowPostmaster = true ∧
          equalFold path.localPart (ascii "Postmaster") = true) ∨
        validateLocalPart utf8 path.localPart = .ok ()))

theorem parseMailbox_eq_ok {params : List EsmtpParam}
    {path : WirePath} (h : parseMailbox allowPostmaster utf8 params m = .ok path) :
  Checked allowPostmaster utf8 m path ∧ path.params = params
  := by
  rw [parseMailbox] at h
  cases hsplit : splitMailbox m with
  | error e =>
    rw [hsplit] at h
    cases h
  | ok parts =>
    obtain ⟨l, d⟩ := parts
    rw [hsplit] at h
    simp only [bind, Except.bind] at h
    split at h
    · next hpostmaster =>
      simp only [Bool.and_eq_true] at hpostmaster
      cases d with
      | none =>
        cases h
        rcases splitMailbox_eq_ok hsplit with ⟨-, rfl, -⟩ | ⟨domain, hd, -⟩
        · exact ⟨⟨rfl, rfl, .inl ⟨hsplit, rfl, rfl, rfl, hpostmaster.1.1, hpostmaster.1.2⟩⟩, rfl⟩
        · cases hd
      | some domain =>
        simp only at h
        cases hdomain : validateDomain utf8 domain with
        | error e =>
          rw [hdomain] at h
          cases h
        | ok u =>
          rw [hdomain] at h
          cases h
          refine ⟨⟨rfl, rfl, .inr ⟨hsplit, hdomain, .inl ⟨rfl, ?_⟩⟩⟩, rfl⟩
          exact hpostmaster.1
    · cases d with
      | none => cases h
      | some domain =>
        simp only at h
        split at h
        · cases h
        · cases hlocal : validateLocalPart utf8 l with
          | error e =>
            rw [hlocal] at h
            cases h
          | ok u =>
            cases hdomain : validateDomain utf8 domain with
            | error e =>
              rw [hlocal, hdomain] at h
              cases h
            | ok u =>
              rw [hlocal, hdomain] at h
              cases h
              exact ⟨⟨rfl, rfl, .inr ⟨hsplit, hdomain, .inr hlocal⟩⟩, rfl⟩

/-- No octet beyond ASCII without SMTPUTF8. -/
def Admitted (utf8 : Bool) (w : Bytes) : Prop := utf8 = true ∨ hasHighByte w = false

theorem Admitted.of_subset {v : Bytes} (h : Admitted utf8 w) (hsub : ∀ c ∈ v, c ∈ w) :
  Admitted utf8 v
  := by
  rcases h with h | h
  · exact .inl h
  · right
    simp only [hasHighByte, List.any_eq_false] at h ⊢
    intro c hc
    exact h c (hsub c hc)

/-- A bracketed path that is accepted, in `raw` and `suffix`: what stands in the brackets and what
stands behind them. -/
structure Delimited (allowNull allowPostmaster : Bool) (opts : PathOptions) (raw suffix : Bytes)
    (path : WirePath) : Prop where
  stays : AngleScan.stays {} raw = true
  closes : (AngleScan.run {} raw).closes rangle = true
  length_le : raw.length + 2 ≤ opts.maxPath
  params : parsePathParams suffix = .ok path.params
  path : (raw = [] ∧ allowNull = true ∧ path = { null := true, params := path.params }) ∨
    (raw ≠ [] ∧ Utf8.valid raw = true ∧ Admitted opts.smtpUTF8 raw ∧
      ∃ m, discardSourceRoute opts.smtpUTF8 raw = .ok m ∧
        parseMailbox allowPostmaster opts.smtpUTF8 path.params m = .ok path)

theorem drop_bracketed (raw suffix : Bytes) :
  (langle :: (raw ++ rangle :: suffix)).drop (1 + raw.length + 1) = suffix
  := by
  rw [Nat.add_comm 1, List.drop_succ_cons, List.drop_append]
  simp

theorem take_bracketed (raw suffix : Bytes) :
  ((langle :: (raw ++ rangle :: suffix)).take (1 + raw.length)).drop 1 = raw
  := by
  rw [Nat.add_comm 1, List.take_succ_cons, List.take_left]
  rfl

theorem parseBracketed_eq_ok {opts : PathOptions} {rest : Bytes}
    {path : WirePath} (h : parseBracketed allowNull allowPostmaster opts rest = .ok path) :
  ∃ raw suffix, rest = langle :: (raw ++ rangle :: suffix) ∧
    Delimited allowNull allowPostmaster opts raw suffix path
  := by
  rw [parseBracketed] at h
  split at h
  · cases h
  · next hhead =>
    obtain ⟨rest, rfl⟩ : ∃ tail, rest = langle :: tail := by
      cases rest with
      | nil => simp at hhead
      | cons c tail =>
        have hc : c = langle := by simpa using hhead
        exact ⟨tail, by rw [hc]⟩
    split at h
    · cases h
    · next i hclose =>
      obtain ⟨raw, suffix, hrest, hstays, hcloses, rfl⟩ := closingAngle_eq_some.mp hclose
      rw [List.tail_cons] at hrest
      subst hrest
      refine ⟨raw, suffix, rfl, ?_⟩
      rw [drop_bracketed, take_bracketed] at h
      simp only at h
      split at h
      · cases h
      · next hlength =>
        have hmax : raw.length + 2 ≤ opts.maxPath := by
          omega
        cases hparams : parsePathParams suffix with
        | error e =>
          rw [hparams] at h
          cases h
        | ok params =>
          rw [hparams] at h
          simp only [bind, Except.bind] at h
          split at h
          · next hempty =>
            split at h
            · next hallow =>
              cases h
              exact ⟨hstays, hcloses, hmax, hparams,
                .inl ⟨List.isEmpty_iff.mp hempty, hallow, rfl⟩⟩
            · cases h
          · next hempty =>
            split at h
            · cases h
            · next hvalid =>
              split at h
              · cases h
              · next hhigh =>
                cases hroute : discardSourceRoute opts.smtpUTF8 raw with
                | error e =>
                  rw [hroute] at h
                  cases h
                | ok m =>
                  rw [hroute] at h
                  simp only at h
                  have hpath := (parseMailbox_eq_ok h).2
                  subst hpath
                  refine ⟨hstays, hcloses, hmax, hparams, .inr ⟨?_, ?_, ?_, m,
                    hroute, h⟩⟩
                  · simpa using hempty
                  · simpa using hvalid
                  · simp only [Bool.and_eq_true, Bool.not_eq_true', not_and,
                      Bool.not_eq_true] at hhigh
                    rw [Admitted]
                    cases hutf8 : opts.smtpUTF8 with
                    | true => exact .inl rfl
                    | false => exact .inr (hhigh hutf8)

theorem parsePathArgument_eq_ok {argument keyword : Bytes} {opts : PathOptions} {path : WirePath}
    (h : parsePathArgument argument keyword allowNull allowPostmaster opts = .ok path) :
  ∃ before raw suffix, argument = before ++ langle :: (raw ++ rangle :: suffix) ∧
    Delimited allowNull allowPostmaster opts raw suffix path
  := by
  rw [parsePathArgument] at h
  split at h
  · cases h
  · obtain ⟨raw, suffix, hrest, hdelimited⟩ := parseBracketed_eq_ok h
    refine ⟨argument.take keyword.length ++ (argument.drop keyword.length).takeWhile (· == sp), raw,
      suffix, ?_, hdelimited⟩
    rw [← hrest, List.append_assoc, List.takeWhile_append_dropWhile, List.take_append_drop]

end GoSmtp
