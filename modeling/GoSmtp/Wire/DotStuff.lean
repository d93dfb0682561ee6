import GoSmtp.Lib.Feed
import GoSmtp.Lib.Reader

/-!
# Dot stuffing

The two filters of `internal/smtpwire/dotstuff.go`.  `DotStuffWriter` normalises content
to CRLF line endings, doubles a dot at the start of a line, and ends the content with
`.` CRLF.  `DotUnstuffReader` reverses it on a received stream, and reports the clean end
of the content as `io.EOF`.  Both keep their state between calls.
-/

namespace GoSmtp

/-- A byte string. -/
abbrev Bytes := List UInt8

instance : LawfulBEq Bytes := inferInstance

def cr : UInt8 := 13
def lf : UInt8 := 10
def dot : UInt8 := 46

/-- The sole line terminator the writer emits. -/
def crlf : Bytes := [cr, lf]

/-- The two bytes written in place of a leading `.` on a stuffed line. -/
def dotDot : Bytes := [dot, dot]

/-- The end-of-content marker. -/
def terminator : Bytes := [dot, cr, lf]

/-- Neither CR nor LF. -/
def isLiteral (b : UInt8) : Bool := b != cr && b != lf

/-! ### The underlying writer -/

/-- The writer under a filter: a call writes a byte string, or fails. -/
structure Sink (ω ε : Type) where
  write : Bytes → ω → Option ε × ω

/-- A sink that never fails and collects what is written. -/
def Sink.collect {ε : Type} : Sink Bytes ε where
  write p out := (none, out ++ p)

/-! ### The writer -/

structure DotStuffWriter where
  /-- A CR whose successor has not been seen yet. -/
  pendingCR : Bool
  /-- This and the next two describe the normalised stream, not the input. -/
  atLineStart : Bool
  wroteAny : Bool
  lastByte : UInt8
  closed : Bool
  deriving DecidableEq, Repr

/-- Errors of the writer: its own misuse, or a failure of the sink. -/
inductive StuffError (ε : Type) where
  | writeToClosed
  | alreadyClosed
  | sink (e : ε)
  deriving DecidableEq, Repr

namespace DotStuffWriter

variable {ω ε : Type}

/-- `NewDotStuffWriter`. -/
def new : DotStuffWriter where
  pendingCR := false
  atLineStart := true
  wroteAny := false
  lastByte := 0
  closed := false

/-- `emitLiteral`: a run of bytes with no CR and no LF. -/
def emitLiteral (k : Sink ω ε) (d : DotStuffWriter) (o : ω) :
    Bytes → Option ε × DotStuffWriter × ω
  | [] => (none, d, o)
  | b :: chunk =>
    if d.atLineStart && b == dot then
      match k.write dotDot o with
      | (some e, o) => (some e, d, o)
      | (none, o) =>
        let d := { d with atLineStart := false, wroteAny := true, lastByte := dot }
        match chunk with
        | [] => (none, d, o)
        | c :: rest =>
          match k.write (c :: rest) o with
          | (some e, o) => (some e, d, o)
          | (none, o) => (none, { d with lastByte := rest.getLastD c }, o)
    else
      match k.write (b :: chunk) o with
      | (some e, o) => (some e, d, o)
      | (none, o) =>
        (none, { d with atLineStart := false, wroteAny := true,
                        lastByte := chunk.getLastD b }, o)

/-- `emitCRLF`: the line terminator, which opens a new line. -/
def emitCRLF (k : Sink ω ε) (d : DotStuffWriter) (o : ω) : Option ε × DotStuffWriter × ω :=
  match k.write crlf o with
  | (some e, o) => (some e, d, o)
  | (none, o) => (none, { d with atLineStart := true, wroteAny := true, lastByte := lf }, o)

/-- The loop of `Write` over the remaining input `p`, of which `n` bytes came before it.
The run of literals up to `indexCROrLF(p)` is `p.takeWhile isLiteral`. -/
def writeLoop (k : Sink ω ε) (d : DotStuffWriter) (o : ω) (n : Nat) (p : Bytes) :
    Nat × Option ε × DotStuffWriter × ω :=
  match p with
  | [] => (n, none, d, o)
  | b :: rest =>
    if _hd : d.pendingCR then
      -- The held CR ends a line either way; an LF after it is absorbed.
      match _h : emitCRLF k { d with pendingCR := false } o with
      | (some e, d, o) => (n, some e, d, o)
      | (none, d', o) =>
        if b == lf then writeLoop k d' o (n + 1) rest else writeLoop k d' o n (b :: rest)
    else if isLiteral b then
      let run := b :: rest.takeWhile isLiteral
      match emitLiteral k d o run with
      | (some e, d, o) => (n, some e, d, o)
      | (none, d, o) => writeLoop k d o (n + run.length) (rest.dropWhile isLiteral)
    else if b == lf then
      match emitCRLF k d o with
      | (some e, d, o) => (n, some e, d, o)
      | (none, d, o) => writeLoop k d o (n + 1) rest
    else writeLoop k { d with pendingCR := true } o (n + 1) rest
  termination_by (p.length, if d.pendingCR then 1 else 0)
  decreasing_by
    · simp [Prod.lex_def]
    · have hd' : d'.pendingCR = false := by
        unfold emitCRLF at _h
        split at _h <;> simp_all
        rw [← _h.1]
      simp [Prod.lex_def, _hd, hd']
    · have := (List.dropWhile_suffix (l := rest) isLiteral).length_le
      simp only [Prod.lex_def, List.length_cons]
      omega
    · simp [Prod.lex_def]
    · simp [Prod.lex_def]

/-- `Write`, with the number of bytes of `p` it consumed. -/
def write (k : Sink ω ε) (p : Bytes) (d : DotStuffWriter) (o : ω) :
    Nat × Option (StuffError ε) × DotStuffWriter × ω :=
  if d.closed then (0, some .writeToClosed, d, o)
  else
    match writeLoop k d o 0 p with
    | (n, e, d, o) => (n, e.map .sink, d, o)

/-- `Close`: the held CR, a CRLF if the content lacks one, and the terminator. -/
def close (k : Sink ω ε) (d : DotStuffWriter) (o : ω) :
    Option (StuffError ε) × DotStuffWriter × ω :=
  if d.closed then (some .alreadyClosed, d, o)
  else
    let d := { d with closed := true }
    match (if d.pendingCR then emitCRLF k { d with pendingCR := false } o else (none, d, o)) with
    | (some e, d, o) => (some (.sink e), d, o)
    | (none, d, o) =>
      match (if d.wroteAny && d.lastByte != lf then k.write crlf o else (none, o)) with
      | (some e, o) => (some (.sink e), d, o)
      | (none, o) =>
        match k.write terminator o with
        | (some e, o) => (some (.sink e), d, o)
        | (none, o) => (none, d, o)

/-- Several calls of `Write`, until one fails. -/
def writes (k : Sink ω ε) : List Bytes → DotStuffWriter → ω →
    Option (StuffError ε) × DotStuffWriter × ω
  | [], d, o => (none, d, o)
  | p :: ps, d, o =>
    match write k p d o with
    | (_, some e, d, o) => (some e, d, o)
    | (_, none, d, o) => writes k ps d o

/-- The bytes emitted for content handed over in the given calls of `Write` and then
closed. -/
def output (ps : List Bytes) : Bytes :=
  match writes (ε := Empty) .collect ps new [] with
  | (_, d, o) => (close (ε := Empty) .collect d o).2.2

/-! ### Sinks that do not fail -/

section Sound

variable {k : Sink ω ε} {f : Bytes → ω → ω} (hk : ∀ p o, k.write p o = (none, f p o))
include hk

theorem emitLiteral_sound (d : DotStuffWriter) (o : ω) (p : Bytes) :
  (emitLiteral k d o p).1 = none ∧ (emitLiteral k d o p).2.1.closed = d.closed
  := by
  rcases p with _ | ⟨b, _ | ⟨c, rest⟩⟩
  · exact ⟨rfl, rfl⟩
  · simp only [emitLiteral, hk]
    split <;> exact ⟨rfl, rfl⟩
  · simp only [emitLiteral, hk]
    split <;> exact ⟨rfl, rfl⟩

theorem emitCRLF_sound (d : DotStuffWriter) (o : ω) :
  (emitCRLF k d o).1 = none ∧ (emitCRLF k d o).2.1.closed = d.closed
  := by
  simp [emitCRLF, hk]

theorem writeLoop_sound (d : DotStuffWriter) (o : ω) (n : Nat) (p : Bytes) :
  (writeLoop k d o n p).2.1 = none ∧ (writeLoop k d o n p).2.2.1.closed = d.closed
  := by
  fun_induction writeLoop k d o n p with
  | case1 => exact ⟨rfl, rfl⟩
  | case2 d o n b rest hd e d' o' h =>
    have hline := (emitCRLF_sound hk { d with pendingCR := false } o).1
    rw [h] at hline
    cases hline
  | case3 d o n b rest hd d' o' h hb ih =>
    have hline := (emitCRLF_sound hk { d with pendingCR := false } o).2
    rw [h] at hline
    exact ⟨ih.1, ih.2.trans hline⟩
  | case4 d o n b rest hd d' o' h hb ih =>
    have hline := (emitCRLF_sound hk { d with pendingCR := false } o).2
    rw [h] at hline
    exact ⟨ih.1, ih.2.trans hline⟩
  | case5 d o n b rest hd hb run e d' o' h =>
    have hrun := (emitLiteral_sound hk d o run).1
    rw [h] at hrun
    cases hrun
  | case6 d o n b rest hd hb run d' o' h ih =>
    have hrun := (emitLiteral_sound hk d o run).2
    rw [h] at hrun
    exact ⟨ih.1, ih.2.trans hrun⟩
  | case7 d o n b rest hd hb hlf e d' o' h =>
    have hline := (emitCRLF_sound hk d o).1
    rw [h] at hline
    cases hline
  | case8 d o n b rest hd hb hlf d' o' h ih =>
    have hline := (emitCRLF_sound hk d o).2
    rw [h] at hline
    exact ⟨ih.1, ih.2.trans hline⟩
  | case9 d o n b rest hd hb hlf ih => exact ih

theorem write_sound {d : DotStuffWriter} (hd : d.closed = false) (p : Bytes) (o : ω) :
  (write k p d o).2.1 = none ∧ (write k p d o).2.2.1.closed = false
  := by
  obtain ⟨herror, hclosed⟩ := writeLoop_sound hk d o 0 p
  simp [write, hd, herror, hclosed]

theorem close_sound {d : DotStuffWriter} (hd : d.closed = false) (o : ω) :
  (close k d o).1 = none
  := by
  have hline (c : Prop) [Decidable c] (o o' : ω) :
      (if c then ((none : Option ε), o) else (none, o')) = (none, if c then o else o') := by
    split <;> rfl
  cases hcr : d.pendingCR <;> simp [close, hd, hcr, emitCRLF, hk, hline]

end Sound

/-! ### Sinks that answer alike -/

section Alike

variable {k : Sink ω ε} {R : ω → ω → Prop}
  (hk : ∀ p {o o'}, R o o' → (k.write p o).1 = (k.write p o').1 ∧ R (k.write p o).2 (k.write p o').2)
include hk

theorem write_answers (p : Bytes) {o o' : ω} (h : R o o') :
  ∃ e w w', k.write p o = (e, w) ∧ k.write p o' = (e, w') ∧ R w w'
  := by
  obtain ⟨hanswer, hleft⟩ := hk p h
  use (k.write p o).1, (k.write p o).2, (k.write p o').2, rfl
  constructor
  · rw [hanswer]
  · apply hleft

theorem emitLiteral_answers (d : DotStuffWriter) (p : Bytes) {o o' : ω} (h : R o o') :
  ∃ e d' w w', emitLiteral k d o p = (e, d', w) ∧ emitLiteral k d o' p = (e, d', w') ∧ R w w'
  := by
  rcases p with _ | ⟨b, chunk⟩
  · use none, d, o, o', rfl, rfl
  · simp only [emitLiteral]
    split
    · obtain ⟨e, w, w', hw, hw', hR⟩ := write_answers hk dotDot h
      rw [hw, hw']
      rcases e with _ | e
      · rcases chunk with _ | ⟨c, rest⟩
        · exact ⟨_, _, w, w', rfl, rfl, hR⟩
        · obtain ⟨e, w, w', hw, hw', hR⟩ := write_answers hk (c :: rest) hR
          simp only [hw, hw']
          rcases e with _ | e <;> exact ⟨_, _, w, w', rfl, rfl, hR⟩
      · exact ⟨_, _, w, w', rfl, rfl, hR⟩
    · obtain ⟨e, w, w', hw, hw', hR⟩ := write_answers hk (b :: chunk) h
      rw [hw, hw']
      rcases e with _ | e <;> exact ⟨_, _, w, w', rfl, rfl, hR⟩

theorem emitCRLF_answers (d : DotStuffWriter) {o o' : ω} (h : R o o') :
  ∃ e d' w w', emitCRLF k d o = (e, d', w) ∧ emitCRLF k d o' = (e, d', w') ∧ R w w'
  := by
  obtain ⟨e, w, w', hw, hw', hR⟩ := write_answers hk crlf h
  simp only [emitCRLF, hw, hw']
  rcases e with _ | e <;> exact ⟨_, _, w, w', rfl, rfl, hR⟩

omit hk in
theorem writeLoop_pending {d : DotStuffWriter} (hd : d.pendingCR = true) (o : ω) (n : Nat)
    (b : UInt8) (rest : Bytes) :
  writeLoop k d o n (b :: rest) = match emitCRLF k { d with pendingCR := false } o with
    | (some e, d, o) => (n, some e, d, o)
    | (none, d', o) =>
      if b == lf then writeLoop k d' o (n + 1) rest else writeLoop k d' o n (b :: rest)
  := by
  rw [writeLoop, dif_pos hd]
  split <;> next h => rw [h]

theorem writeLoop_answers (d : DotStuffWriter) (n : Nat) (p : Bytes) {o o' : ω} (h : R o o') :
  ∃ i e d' w w', writeLoop k d o n p = (i, e, d', w) ∧ writeLoop k d o' n p = (i, e, d', w')
    ∧ R w w'
  := by
  fun_induction writeLoop k d o n p generalizing o' with
  | case1 d o n =>
    use n, none, d, o, o', rfl
    rw [writeLoop]
    exact ⟨rfl, h⟩
  | case2 d o n b rest hd e d' o₁ hline =>
    obtain ⟨e', d₂, w, w', hw, hw', hR⟩ := emitCRLF_answers hk { d with pendingCR := false } h
    rw [hline] at hw
    cases hw
    refine ⟨_, _, _, _, w', rfl, ?_, hR⟩
    rw [writeLoop_pending hd, hw']
  | case3 d o n b rest hd d' o₁ hline hb ih =>
    obtain ⟨e', d₂, w, w', hw, hw', hR⟩ := emitCRLF_answers hk { d with pendingCR := false } h
    rw [hline] at hw
    cases hw
    simpa [writeLoop_pending hd, hw', hb] using ih hR
  | case4 d o n b rest hd d' o₁ hline hb ih =>
    obtain ⟨e', d₂, w, w', hw, hw', hR⟩ := emitCRLF_answers hk { d with pendingCR := false } h
    rw [hline] at hw
    cases hw
    simpa [writeLoop_pending hd, hw', hb] using ih hR
  | case5 d o n b rest hd hb run e d' o₁ =>
    rename_i hrun
    obtain ⟨e', d₂, w, w', hw, hw', hR⟩ := emitLiteral_answers hk d run h
    rw [hrun] at hw
    cases hw
    refine ⟨_, _, _, _, w', rfl, ?_, hR⟩
    rw [writeLoop]
    simp [hd, hb, show emitLiteral k d o' (b :: rest.takeWhile isLiteral) = _ from hw']
  | case6 d o n b rest hd hb run d' o₁ hrun =>
    rename_i ih
    obtain ⟨e', d₂, w, w', hw, hw', hR⟩ := emitLiteral_answers hk d run h
    rw [hrun] at hw
    cases hw
    rw [writeLoop.eq_def k d o']
    simpa [hd, hb, run, show emitLiteral k d o' (b :: rest.takeWhile isLiteral) = _ from hw']
      using ih hR
  | case7 d o n b rest hd hb hlf e d' o₁ hline =>
    obtain ⟨e', d₂, w, w', hw, hw', hR⟩ := emitCRLF_answers hk d h
    rw [hline] at hw
    cases hw
    refine ⟨_, _, _, _, w', rfl, ?_, hR⟩
    rw [writeLoop]
    simp [hd, hb, hlf, hw']
  | case8 d o n b rest hd hb hlf d' o₁ hline ih =>
    obtain ⟨e', d₂, w, w', hw, hw', hR⟩ := emitCRLF_answers hk d h
    rw [hline] at hw
    cases hw
    rw [writeLoop.eq_def k d o']
    simpa [hd, hb, hlf, hw'] using ih hR
  | case9 d o n b rest hd hb hlf ih =>
    rw [writeLoop.eq_def k d o']
    simpa [hd, hb, hlf] using ih h

theorem write_answers_alike (p : Bytes) (d : DotStuffWriter) {o o' : ω} (h : R o o') :
  ∃ i e d' w w', write k p d o = (i, e, d', w) ∧ write k p d o' = (i, e, d', w') ∧ R w w'
  := by
  simp only [write]
  split
  · exact ⟨_, _, d, o, o', rfl, rfl, h⟩
  · obtain ⟨i, e, d', w, w', hw, hw', hR⟩ := writeLoop_answers hk d 0 p h
    rw [hw, hw']
    exact ⟨_, _, d', w, w', rfl, rfl, hR⟩

theorem close_answers_alike (d : DotStuffWriter) {o o' : ω} (h : R o o') :
  ∃ e d' w w', close k d o = (e, d', w) ∧ close k d o' = (e, d', w') ∧ R w w'
  := by
  simp only [close]
  split
  · exact ⟨_, d, o, o', rfl, rfl, h⟩
  have hheld : ∃ e d' w w',
      (if d.pendingCR then emitCRLF k { d with pendingCR := false, closed := true } o
        else (none, { d with closed := true }, o)) = (e, d', w)
      ∧ (if d.pendingCR then emitCRLF k { d with pendingCR := false, closed := true } o'
        else (none, { d with closed := true }, o')) = (e, d', w') ∧ R w w' := by
    split
    · apply emitCRLF_answers hk _ h
    · exact ⟨_, _, o, o', rfl, rfl, h⟩
  obtain ⟨e, d', w, w', hw, hw', hR⟩ := hheld
  rw [hw, hw']
  rcases e with _ | e
  swap
  · exact ⟨_, d', w, w', rfl, rfl, hR⟩
  have hended : ∃ e x x', (if d'.wroteAny && d'.lastByte != lf then k.write crlf w else (none, w))
        = (e, x)
      ∧ (if d'.wroteAny && d'.lastByte != lf then k.write crlf w' else (none, w')) = (e, x')
      ∧ R x x' := by
    split
    · apply write_answers hk crlf hR
    · exact ⟨_, w, w', rfl, rfl, hR⟩
  obtain ⟨e, x, x', hx, hx', hR⟩ := hended
  simp only [hx, hx']
  rcases e with _ | e
  swap
  · exact ⟨_, d', x, x', rfl, rfl, hR⟩
  obtain ⟨e, y, y', hy, hy', hR⟩ := write_answers hk terminator hR
  simp only [hy, hy']
  rcases e with _ | e <;> exact ⟨_, d', y, y', rfl, rfl, hR⟩

end Alike

end DotStuffWriter

/-! ### The reader -/

/-- Errors of the reader.  `eof` is `io.EOF`, the clean end of the content. -/
inductive DotError (φ : Type) where
  | eof
  | unexpectedEOF
  | transport (e : φ)
  /-- The stream ended after a `.` at a line start. -/
  | truncatedAfterDot (cause : DotError φ)
  /-- The stream ended after a bare CR and a `.`. -/
  | truncatedAfterBareCR (cause : DotError φ)
  | malformedTerminator
  | bareLFTerminator
  deriving DecidableEq, Repr

/-- `normalizeReadErr`: the end of the connection inside the content is not a clean
end. -/
def normalizeReadErr {φ : Type} : FeedError φ → DotError φ
  | .ended => .unexpectedEOF
  | .fault e => .transport e

structure DotUnstuffReader (φ : Type) where
  atLineStart : Bool
  /-- Whether the preceding content octet is a CR. -/
  previousCR : Bool
  done : Bool
  err : Option (DotError φ)
  deriving DecidableEq, Repr

namespace DotUnstuffReader

variable {φ : Type}

/-- `NewDotUnstuffReader`. -/
def new : DotUnstuffReader φ where
  atLineStart := true
  previousCR := false
  done := false
  err := none

/-- The state after the content octet `b`. -/
def after (d : DotUnstuffReader φ) (b : UInt8) : DotUnstuffReader φ :=
  { d with atLineStart := b == lf, previousCR := b == cr }

/-- The terminal state that `fail` records. -/
def stop (d : DotUnstuffReader φ) (e : DotError φ) : DotUnstuffReader φ :=
  { d with done := true, err := some e }

/-- `fail`: the error is withheld from a call that has octets to deliver. -/
def fail (d : DotUnstuffReader φ) (p : Bytes) (e : DotError φ) (s : Feed UInt8 φ) :
    ReadResult UInt8 (DotError φ) × DotUnstuffReader φ × Feed UInt8 φ :=
  (⟨p, if p.isEmpty then some e else none⟩, d.stop e, s)

/-- `consumeTerminatorTail`: the peeked CR and the octet after it. -/
def consumeTerminatorTail (s : Feed UInt8 φ) : Option (DotError φ) × Feed UInt8 φ :=
  match s.next with
  | (.error e, s) => (some (normalizeReadErr e), s)
  | (.ok _, s) =>
    match s.next with
    | (.error e, s) => (some (normalizeReadErr e), s)
    | (.ok b, s) => (if b == lf then none else some .malformedTerminator, s)

/-- What a `.` at a line start turns out to be, from the octets after it: an error or
the clean end, or `none` for a stuffed line. -/
def lineStartDot (s : Feed UInt8 φ) : Option (DotError φ) × Feed UInt8 φ :=
  match s.peek 1 with
  | (.error e, s) => (some (.truncatedAfterDot (normalizeReadErr e)), s)
  | (.ok peeked, s) =>
    if peeked = [cr] then
      match consumeTerminatorTail s with
      | (some e, s) => (some e, s)
      | (none, s) => (some .eof, s)
    else if peeked = [lf] then (some .bareLFTerminator, s)
    else (none, s)

/-- What a `.` after a bare CR turns out to be: an error, or `none` for content. -/
def bareCRDot (s : Feed UInt8 φ) : Option (DotError φ) × Feed UInt8 φ :=
  match s.peek 1 with
  | (.error e, s) => (some (.truncatedAfterBareCR (normalizeReadErr e)), s)
  | (.ok peeked, s) =>
    if peeked = [lf] then (some .malformedTerminator, s)
    else if peeked = [cr] then
      match s.peek 2 with
      | (.error e, s) => (some (.truncatedAfterBareCR (normalizeReadErr e)), s)
      | (.ok tail, s) => (if tail = [cr, lf] then some .malformedTerminator else none, s)
    else (none, s)

/-- The loop of `Read`: `room` is what is left of the buffer, `p` what is in it. -/
def readLoop : Nat → Bytes → DotUnstuffReader φ → Feed UInt8 φ →
    ReadResult UInt8 (DotError φ) × DotUnstuffReader φ × Feed UInt8 φ
  | 0, p, d, s => (⟨p, none⟩, d, s)
  | _ + 1, p, d, [] => d.fail p (normalizeReadErr .ended) []
  | _ + 1, p, d, .fault e :: s => d.fail p (normalizeReadErr (.fault e)) s
  | room + 1, p, d, .item b :: s =>
    if d.atLineStart then
      if b == dot then
        match lineStartDot s with
        | (some e, s') => d.fail p e s'
        | (none, _) => readLoop (room + 1) p { d with atLineStart := false } s
      else readLoop room (p ++ [b]) (d.after b) s
    else if d.previousCR && b == dot then
      match bareCRDot s with
      | (some e, s') => d.fail p e s'
      | (none, _) => readLoop room (p ++ [b]) (d.after b) s
    else readLoop room (p ++ [b]) (d.after b) s

/-- `Read` with a buffer of size `n`. -/
def read (n : Nat) (d : DotUnstuffReader φ) (s : Feed UInt8 φ) :
    ReadResult UInt8 (DotError φ) × DotUnstuffReader φ × Feed UInt8 φ :=
  if d.done then (⟨[], some (d.err.getD .eof)⟩, d, s)
  else if n = 0 then (⟨[], none⟩, d, s)
  else readLoop n [] d s

/-- The filter as a reader; its state includes the feed under it. -/
def reader : Reader (DotUnstuffReader φ × Feed UInt8 φ) UInt8 (DotError φ) where
  read n s := read n s.1 s.2

end DotUnstuffReader

end GoSmtp
