import GoSmtp.Lib.Runes
import GoSmtp.Lib.Search
import GoSmtp.Unicode.Compose

/-!
# Normalization forms C and KC

The forms differ in the table that they decompose with.  The tables are generated; what is said
here holds for any tables that are well formed.
-/

namespace GoSmtp.Unicode

/-! ### Hangul -/

def sBase : Nat := 0xAC00

def lBase : Nat := 0x1100

def vBase : Nat := 0x1161

def tBase : Nat := 0x11A7

def lCount : Nat := 19

def vCount : Nat := 21

def tCount : Nat := 28

def nCount : Nat := vCount * tCount

def sCount : Nat := lCount * nCount

def isHangulS (r : Nat) : Bool := r ≥ sBase && r < sBase + sCount

def isHangulL (r : Nat) : Bool := r ≥ lBase && r < lBase + lCount

def isHangulV (r : Nat) : Bool := r ≥ vBase && r < vBase + vCount

def isHangulT (r : Nat) : Bool := r > tBase && r < tBase + tCount

def isHangulLV (r : Nat) : Bool :=
  r ≥ sBase && r < sBase + sCount && (r - sBase) % tCount == 0

def hangulDecompose (r : Nat) : List Nat :=
  let sIndex := r - sBase
  let l := lBase + sIndex / nCount
  let v := vBase + sIndex % nCount / tCount
  let t := tBase + sIndex % tCount
  if sIndex % tCount = 0 then [l, v] else [l, v, t]

/-! ### Tables -/

/-- The decomposition of the `i`-th key is the data between its offset and the next one. -/
structure DecompTable where
  key : List Rune
  offset : List Nat
  data : List Rune

structure Tables where
  cccKey : List Rune
  cccVal : List Nat
  decomp : DecompTable
  compatDecomp : DecompTable
  composeKey : List Nat
  composeVal : List Rune

namespace DecompTable

def entry (table : DecompTable) (i : Nat) : List Rune :=
  let start := table.offset.getD i 0
  let finish := table.offset.getD (i + 1) 0
  (table.data.drop start).take (finish - start)

def decompose (table : DecompTable) (r : Rune) : Option (List Rune) :=
  if isHangulS r then some (hangulDecompose r)
  else (Search.lookup table.key r).map table.entry

end DecompTable

/-- What a rune of a text is replaced by. -/
def expand (decompose : Rune → Option (List Rune)) (r : Rune) : List Rune :=
  (decompose r).getD [r]

/-- The runes of a text, each of them decomposed. -/
def decomposeRunes (decompose : Rune → Option (List Rune)) (s : List UInt8) : List Rune :=
  (Utf8.runes s).flatMap (expand decompose)

namespace Tables

def combiningClass (t : Tables) (r : Rune) : Nat :=
  match Search.lookup t.cccKey r with
  | some i => t.cccVal.getD i 0
  | none => 0

def decompose (t : Tables) (r : Rune) : Option (List Rune) := t.decomp.decompose r

def compatDecompose (t : Tables) (r : Rune) : Option (List Rune) := t.compatDecomp.decompose r

def decomposeString (t : Tables) (s : List UInt8) : List Rune := decomposeRunes t.decompose s

def decomposeCompatString (t : Tables) (s : List UInt8) : List Rune :=
  decomposeRunes t.compatDecompose s

def composePair (t : Tables) (first second : Rune) : Option Rune :=
  if isHangulL first && isHangulV second then
    let lIndex := first - lBase
    let vIndex := second - vBase
    some (sBase + (lIndex * vCount + vIndex) * tCount)
  else if isHangulLV first && isHangulT second then
    let tIndex := second - tBase
    some (first + tIndex)
  else
    let key := first <<< 32 ||| second
    (Search.lookup t.composeKey key).map fun i => t.composeVal.getD i 0

/-- A form of a text, from its decomposition. -/
def normalize (t : Tables) (decomposed : List Rune) : List UInt8 :=
  Utf8.encode
    (compose t.combiningClass t.composePair (canonicalOrder t.combiningClass decomposed))

def nfc (t : Tables) (s : List UInt8) : List UInt8 :=
  if s = [] then [] else t.normalize (t.decomposeString s)

def nfkc (t : Tables) (s : List UInt8) : List UInt8 :=
  if s = [] then [] else t.normalize (t.decomposeCompatString s)

end Tables

end GoSmtp.Unicode
