import GoSmtp.Lib.Split
import GoSmtp.Wire.DotStuff
import Mathlib.Algebra.Order.Ring.Nat

/-!
# Command lines and chunks

The server side of `internal/smtpwire/command_decoder.go` and `bdat.go`: one command line
from the feed of a connection, the argument of BDAT, and the octets of a chunk.
-/

namespace GoSmtp

/-- The octets of an ASCII text. -/
def ascii (s : String) : Bytes := s.toList.map fun c => c.toNat.toUInt8

/-- What is said of the members of a list is decided along the list, also if their type is finite. -/
instance decidableMembers {α : Type} {l : List α} {P : α → Prop} [DecidablePred P] :
    Decidable (∀ a ∈ l, P a) := List.decidableBAll P l

/-- `strings.ToUpper` on an ASCII text. -/
def toUpper (w : Bytes) : Bytes := w.map fun b => if 97 ≤ b && b ≤ 122 then b - 32 else b

def sp : UInt8 := 32

/-- The package defaults of `Limits` that the server uses. -/
def defaultMaxCommandLineLength : Nat := 4096

def defaultMaxSASLResponseLength : Nat := 32768

/-! ### Command lines -/

structure Command where
  verb : Bytes
  argument : Bytes
  deriving DecidableEq, Repr

/-- Errors of `ReadCommand` and `ReadSASLResponse`. -/
inductive CommandError (φ : Type) where
  | eof
  | unexpectedEOF
  | transport (e : φ)
  | lineTooLong
  | bareLF
  | empty
  | verbSyntax
  | argumentControl
  deriving DecidableEq, Repr

variable {φ : Type}
variable {w : Bytes} {c : UInt8} {n : Nat}

/-- The rest of an oversized line, of which `b` is the octet read last. -/
def drainLine (b : UInt8) : Feed UInt8 φ → CommandError φ × Feed UInt8 φ
  | [] => (if b == lf then .lineTooLong else .eof, [])
  | .fault e :: s => if b == lf then (.lineTooLong, .fault e :: s) else (.transport e, s)
  | .item c :: s => if b == lf then (.lineTooLong, .item c :: s) else drainLine c s

/-- The loop of `readCommandLine`, with the octets read so far. -/
def lineLoop (max : Nat) (line : Bytes) :
    Feed UInt8 φ → Except (CommandError φ) Bytes × Feed UInt8 φ
  | [] => (.error (if line.isEmpty then .eof else .unexpectedEOF), [])
  | .fault e :: s => (.error (.transport e), s)
  | .item b :: s =>
    if line.length + 1 > max then
      match drainLine b s with
      | (e, s) => (.error e, s)
    else if b != lf then lineLoop max (line ++ [b]) s
    else if line.getLast? != some cr then (.error .bareLF, s)
    else (.ok line.dropLast, s)

def readCommandLine (max : Nat) (s : Feed UInt8 φ) :
    Except (CommandError φ) Bytes × Feed UInt8 φ :=
  lineLoop max [] s

/-- An octet of a verb: a letter, a digit or a hyphen. -/
def isVerbByte (c : UInt8) : Bool :=
  (65 ≤ c && c ≤ 90) || (97 ≤ c && c ≤ 122) || (48 ≤ c && c ≤ 57) || c == 45

def isControl (c : UInt8) : Bool := c < 32 || c == 127

/-- The verb and the argument of a line, which is not empty. -/
def parseCommand (line : Bytes) : Except (CommandError φ) Command :=
  let verb := line.takeWhile (· != sp)
  let argument := ((line.dropWhile (· != sp)).drop 1).dropWhile (· == sp)
  if verb.isEmpty || !verb.all isVerbByte then .error .verbSyntax
  else if argument.any isControl then .error .argumentControl
  else .ok ⟨verb, argument⟩

def readCommand (s : Feed UInt8 φ) : Except (CommandError φ) Command × Feed UInt8 φ :=
  match readCommandLine defaultMaxCommandLineLength s with
  | (.error e, s) => (.error e, s)
  | (.ok line, s) => (if line.isEmpty then .error .empty else parseCommand line, s)

def readSASLResponse (s : Feed UInt8 φ) : Except (CommandError φ) Bytes × Feed UInt8 φ :=
  match readCommandLine defaultMaxSASLResponseLength s with
  | (.error e, s) => (.error e, s)
  | (.ok line, s) => (if line.any isControl then .error .argumentControl else .ok line, s)

/-! ### Chunks -/

structure BDATCommand where
  size : Nat
  last : Bool
  deriving DecidableEq, Repr

inductive BDATError where
  | syntaxError
  | sizeOverflow
  deriving DecidableEq, Repr

/-- `math.MaxInt64`. -/
def maxInt64 : Nat := 2 ^ 63 - 1

/-- `strings.Fields`, on a text whose only white space is SP. -/
def fields (w : Bytes) : List Bytes := (w.splitOn sp).filter (!·.isEmpty)

/-- `strconv.ParseUint` in base 10 and 64 bits. -/
def parseUint (w : Bytes) : Option Nat :=
  if w.isEmpty || !w.all (fun c => 48 ≤ c && c ≤ 57) then none
  else
    let n := w.foldl (fun n c => 10 * n + (c.toNat - 48)) 0
    if n < 2 ^ 64 then some n else none

/-- `ParseBDATArgument`, with no limit on the size of a chunk other than `math.MaxInt64`. -/
def parseBDATArgument (argument : Bytes) : Except BDATError BDATCommand :=
  if argument.any fun c => c != sp && (c < 33 || c > 126) then .error .syntaxError
  else
    match fields argument with
    | [size] => parseSize size false
    | [size, last] =>
      if toUpper last == ascii "LAST" then parseSize size true else .error .syntaxError
    | _ => .error .syntaxError
  where
  /-- The size field. -/
  parseSize (size : Bytes) (last : Bool) : Except BDATError BDATCommand :=
    match parseUint size with
    | none => .error .syntaxError
    | some n => if n > maxInt64 then .error .sizeOverflow else .ok ⟨n, last⟩

/-! ### Announced sizes -/

theorem mem_fields (hc : c ∈ w) (hsp : c ≠ sp) :
  ∃ f ∈ fields w, c ∈ f
  := by
  suffices hsplit : ∃ f ∈ w.splitOn sp, c ∈ f by
    obtain ⟨f, hf, hcf⟩ := hsplit
    exact ⟨f, List.mem_filter.mpr ⟨hf, by simp [List.ne_nil_of_mem hcf]⟩, hcf⟩
  exact Split.mem hc hsp

/-- The number that a text writes in base 10, however large. -/
def decimal (w : Bytes) : Option Nat :=
  if w.isEmpty || !w.all (fun c => 48 ≤ c && c ≤ 57) then none
  else some (w.foldl (fun n c => 10 * n + (c.toNat - 48)) 0)

theorem parseUint_of_decimal (h : decimal w = some n) :
  parseUint w = if n < 2 ^ 64 then some n else none
  := by
  rw [decimal] at h
  rw [parseUint]
  split at h
  · cases h
  · next hdigits =>
    cases h
    rw [if_neg hdigits]

theorem digit_of_decimal (h : decimal w = some n) (hc : c ∈ w) :
  48 ≤ c ∧ c ≤ 57
  := by
  rw [decimal] at h
  split at h
  · cases h
  · next hdigits =>
    simp only [Bool.or_eq_true, Bool.not_eq_true', not_or, Bool.not_eq_false] at hdigits
    simpa using List.all_eq_true.mp hdigits.2 c hc

/-- The size that the argument of BDAT announces and whether it has LAST, if the argument is a
decimal number, however large, which LAST may follow. -/
def announced (argument : Bytes) : Option (Nat × Bool) :=
  match fields argument with
  | [size] => (decimal size).map (·, false)
  | [size, last] => if toUpper last == ascii "LAST" then (decimal size).map (·, true) else none
  | _ => none

theorem printable_of_toUpper (h : toUpper w = ascii "LAST") (hc : c ∈ w) :
  33 ≤ c ∧ c ≤ 126
  := by
  have hmem : (if 97 ≤ c && c ≤ 122 then c - 32 else c) ∈ ascii "LAST" := by
    rw [← h]
    exact List.mem_map_of_mem hc
  split at hmem
  · next hlower =>
    obtain ⟨hfrom, hto⟩ : 97 ≤ c ∧ c ≤ 122 := by simpa using hlower
    exact ⟨UInt8.le_trans (by decide) hfrom, UInt8.le_trans hto (by decide)⟩
  · have hupper : ∀ c ∈ ascii "LAST", 33 ≤ c ∧ c ≤ 126 := by decide
    exact hupper c hmem

/-- What becomes of a size that is announced: it has to fit into 64 bits, and then to be below
`2 ^ 63`. -/
theorem parseBDATArgument_of_announced {argument : Bytes} {last : Bool}
    (h : announced argument = some (n, last)) :
  parseBDATArgument argument =
    if n ≤ maxInt64 then .ok ⟨n, last⟩
    else if n < 2 ^ 64 then .error .sizeOverflow else .error .syntaxError
  := by
  have hsize {size : Bytes} (last : Bool) (hd : decimal size = some n) :
      parseBDATArgument.parseSize size last = if n ≤ maxInt64 then .ok ⟨n, last⟩
        else if n < 2 ^ 64 then .error .sizeOverflow else .error .syntaxError := by
    rw [parseBDATArgument.parseSize, parseUint_of_decimal hd]
    have hmax : maxInt64 < 2 ^ 64 := by decide
    by_cases hle : n ≤ maxInt64
    · rw [if_pos (Nat.lt_of_le_of_lt hle hmax), if_pos hle]
      simp [Nat.not_lt.mpr hle]
    · rw [if_neg hle]
      by_cases hlt : n < 2 ^ 64
      · rw [if_pos hlt, if_pos hlt]
        simp [Nat.lt_of_not_le hle]
      · rw [if_neg hlt, if_neg hlt]
  have hdigit {c : UInt8} (hc : 48 ≤ c ∧ c ≤ 57) : 33 ≤ c ∧ c ≤ 126 :=
    ⟨UInt8.le_trans (by decide) hc.1, UInt8.le_trans hc.2 (by decide)⟩
  have hclean (hprintable : ∀ f ∈ fields argument, ∀ c ∈ f, 33 ≤ c ∧ c ≤ 126) :
      (argument.any fun c => c != sp && (c < 33 || c > 126)) = false := by
    rw [List.any_eq_false]
    intro c hc
    by_cases hsp : c = sp
    · simp [hsp]
    · obtain ⟨f, hf, hcf⟩ := mem_fields hc hsp
      have hrange := hprintable f hf c hcf
      simp [UInt8.not_lt.mpr hrange.1, UInt8.not_lt.mpr hrange.2]
  rw [announced] at h
  split at h
  · next size hfields =>
    obtain ⟨m, hd, hm⟩ := Option.map_eq_some_iff.mp h
    cases hm
    have hany := hclean (by
      rw [hfields]
      simpa using fun c hc => hdigit (digit_of_decimal hd hc))
    rw [parseBDATArgument, hany, hfields]
    exact hsize false hd
  · next size word hfields =>
    split at h
    · next hlast =>
      obtain ⟨m, hd, hm⟩ := Option.map_eq_some_iff.mp h
      cases hm
      have hany := hclean (by
        rw [hfields]
        intro f hf c hc
        rcases List.mem_pair.mp hf with rfl | rfl
        · exact hdigit (digit_of_decimal hd hc)
        · exact printable_of_toUpper (eq_of_beq hlast) hc)
      rw [parseBDATArgument, hany, hfields]
      simp only [hlast, if_true]
      exact hsize true hd
    · cases h
  · cases h

/-- Errors of `ReadBDATChunk`. -/
inductive ChunkError (φ : Type) where
  | shortSource
  | transport (e : φ)
  deriving DecidableEq, Repr

/-- `ReadBDATChunk`: the octets of a chunk of the given size, as far as they arrive. -/
def readBDATChunk (size : Nat) (s : Feed UInt8 φ) :
    Bytes × Option (ChunkError φ) × Feed UInt8 φ :=
  match s.take size with
  | (w, none, s) => (w, none, s)
  | (w, some .ended, s) => (w, some .shortSource, s)
  | (w, some (.fault e), s) => (w, some (.transport e), s)

theorem readBDATChunk_ok {size : Nat} {s s' : Feed UInt8 φ}
    (h : readBDATChunk size s = (w, none, s')) :
  w.length = size ∧ s = Feed.items w ++ s'
  := by
  apply Feed.take_eq_none
  unfold readBDATChunk at h
  split at h <;> simp_all

end GoSmtp
