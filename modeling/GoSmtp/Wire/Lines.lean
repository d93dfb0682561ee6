import GoSmtp.Wire.DotStuff

/-!
# The lines of content

Content is a list of lines, whose endings may be CRLF, a bare CR or a bare LF.  The
dot-stuffing writer emits every line stuffed and ended with CRLF, and then the
terminator (`DotStuffWriter.output_eq`), in whatever pieces the content is written.
-/

namespace GoSmtp

variable {p : Bytes} {ε : Type} {d : DotStuffWriter} {b : UInt8}

/-! ### Lines -/

/-- A line: neither CR nor LF occurs in it. -/
structure Line where
  bytes : Bytes
  literal : ∀ b ∈ bytes, isLiteral b

namespace Line

def empty : Line := ⟨[], by simp⟩

def cons (b : UInt8) (h : isLiteral b) (l : Line) : Line :=
  ⟨b :: l.bytes, by simpa [h] using l.literal⟩

/-- A line on the wire: a leading dot is doubled. -/
def stuff (l : Line) : Line where
  bytes := if l.bytes.head? = some dot then dot :: l.bytes else l.bytes
  literal := by
    split
    · simpa [show isLiteral dot from rfl] using l.literal
    · exact l.literal

end Line

/-- Lines ended with CRLF. -/
def unlines (ls : List Line) : Bytes := ls.flatMap fun l => l.bytes ++ crlf

@[simp]
theorem unlines_nil :
  unlines [] = []
  := rfl

@[simp]
theorem unlines_cons (l : Line) (ls : List Line) :
  unlines (l :: ls) = l.bytes ++ crlf ++ unlines ls
  := by
  simp [unlines]

theorem unlines_append (ls ls' : List Line) :
  unlines (ls ++ ls') = unlines ls ++ unlines ls'
  := by
  simp [unlines]

/-- Without the LF that belongs to a CR before it. -/
def dropLF : Bytes → Bytes
  | b :: p => if b == lf then p else b :: p
  | [] => []

theorem dropLF_length_le (p : Bytes) :
  (dropLF p).length ≤ p.length
  := by
  fun_cases dropLF p <;> simp

/-- The lines of content.  An unfinished last line counts as a line. -/
def lines (p : Bytes) : List Line :=
  match p with
  | [] => []
  | b :: p =>
    if h : isLiteral b then
      match lines p with
      | [] => [.cons b h .empty]
      | l :: ls => .cons b h l :: ls
    else if b == lf then .empty :: lines p
    else .empty :: lines (dropLF p)
  termination_by p.length
  decreasing_by
    · simp
    · simp
    · exact Nat.lt_succ_of_le (dropLF_length_le p)

theorem not_isLiteral :
  isLiteral b = false ↔ b = cr ∨ b = lf
  := by
  simp [isLiteral]
  tauto

theorem lines_eq_nil :
  lines p = [] ↔ p = []
  := by
  fun_cases lines p <;> simp

/-! ### The normalised content -/

/-- `normalizeCRLF`: every CRLF, bare CR and bare LF becomes CRLF. -/
def normalizeCRLF : Bytes → Bytes
  | [] => []
  | [b] => if b == cr || b == lf then crlf else [b]
  | b :: c :: p =>
    if b == cr then crlf ++ (if c == lf then normalizeCRLF p else normalizeCRLF (c :: p))
    else if b == lf then crlf ++ normalizeCRLF (c :: p)
    else b :: normalizeCRLF (c :: p)

/-- `wantRoundTrip`: the content a receiver is meant to get. -/
def wantRoundTrip (p : Bytes) : Bytes :=
  match (normalizeCRLF p).getLast? with
  | some b => if b != lf then normalizeCRLF p ++ crlf else normalizeCRLF p
  | none => normalizeCRLF p

theorem normalizeCRLF_cr (p : Bytes) :
  normalizeCRLF (cr :: p) = crlf ++ normalizeCRLF (dropLF p)
  := by
  cases p with
  | nil => rfl
  | cons c p =>
    simp only [normalizeCRLF, dropLF, beq_self_eq_true, if_true]
    split <;> rfl

theorem normalizeCRLF_lf (p : Bytes) :
  normalizeCRLF (lf :: p) = crlf ++ normalizeCRLF p
  := by
  cases p <;> rfl

theorem normalizeCRLF_literal (h : isLiteral b) (p : Bytes) :
  normalizeCRLF (b :: p) = b :: normalizeCRLF p
  := by
  simp only [isLiteral, Bool.and_eq_true, bne_iff_ne, ne_eq] at h
  cases p <;> simp [normalizeCRLF, h]

theorem normalizeCRLF_eq_nil :
  normalizeCRLF p = [] ↔ p = []
  := by
  fun_cases normalizeCRLF p <;> simp_all [crlf]

theorem wantRoundTrip_crlf {q : Bytes} (h : normalizeCRLF p = crlf ++ normalizeCRLF q) :
  wantRoundTrip p = crlf ++ wantRoundTrip q
  := by
  simp only [wantRoundTrip, h, List.getLast?_append]
  rcases hq : (normalizeCRLF q).getLast? with _ | b
  · simp [crlf]
  · simp only [Option.some_or]
    split <;> simp

theorem wantRoundTrip_literal (h : isLiteral b) (hp : p ≠ []) :
  wantRoundTrip (b :: p) = b :: wantRoundTrip p
  := by
  have hn := mt normalizeCRLF_eq_nil.mp hp
  simp only [wantRoundTrip, normalizeCRLF_literal h, List.getLast?_cons_of_ne_nil hn]
  split
  · split <;> rfl
  · rfl

theorem wantRoundTrip_eq (p : Bytes) :
  wantRoundTrip p = unlines (lines p)
  := by
  fun_induction lines p with
  | case1 => rfl
  | case2 b p h hl ih =>
    obtain rfl := lines_eq_nil.mp hl
    have hb : ¬ b = cr ∧ ¬ b = lf := by simpa [isLiteral] using h
    simp [wantRoundTrip, normalizeCRLF, hb, Line.cons, Line.empty]
  | case3 b p h l ls hl ih =>
    have hp : p ≠ [] := by
      rintro rfl
      simp [lines] at hl
    rw [wantRoundTrip_literal h hp, ih, hl]
    simp [Line.cons]
  | case4 b p h hlf ih =>
    obtain rfl : b = lf := by simpa using hlf
    rw [wantRoundTrip_crlf (normalizeCRLF_lf p), ih]
    simp [Line.empty]
  | case5 b p h hlf ih =>
    obtain rfl : b = cr := by
      rcases not_isLiteral.mp (by simpa using h) with rfl | rfl
      · rfl
      · exact absurd rfl hlf
    rw [wantRoundTrip_crlf (normalizeCRLF_cr p), ih]
    simp [Line.empty]

/-! ### The writer, octet by octet -/

namespace DotStuffWriter

/-- The state after a line ending. -/
def newline (d : DotStuffWriter) : DotStuffWriter :=
  { d with pendingCR := false, atLineStart := true, wroteAny := true, lastByte := lf }

/-- One octet of content, when no CR is held: what is emitted and the state after it. -/
def putFresh (d : DotStuffWriter) (b : UInt8) : Bytes × DotStuffWriter :=
  if isLiteral b then
    (if d.atLineStart && b == dot then dotDot else [b],
      { d with atLineStart := false, wroteAny := true, lastByte := b })
  else if b == lf then (crlf, d.newline)
  else ([], { d with pendingCR := true })

/-- One octet of content. -/
def put (d : DotStuffWriter) (b : UInt8) : Bytes × DotStuffWriter :=
  if d.pendingCR then
    if b == lf then (crlf, d.newline)
    else (crlf ++ (putFresh d.newline b).1, (putFresh d.newline b).2)
  else putFresh d b

/-- The octets of content, one by one. -/
def puts (d : DotStuffWriter) : Bytes → Bytes × DotStuffWriter
  | [] => ([], d)
  | b :: p => ((put d b).1 ++ (puts (put d b).2 p).1, (puts (put d b).2 p).2)

theorem puts_append (d : DotStuffWriter) (p q : Bytes) :
  puts d (p ++ q) = ((puts d p).1 ++ (puts (puts d p).2 q).1, (puts (puts d p).2 q).2)
  := by
  induction p generalizing d with
  | nil => simp [puts]
  | cons b p ih => simp [puts, ih]

theorem emitCRLF_collect (d : DotStuffWriter) (o : Bytes) :
  emitCRLF (ε := ε) .collect { d with pendingCR := false } o = (none, d.newline, o ++ crlf)
  := rfl

theorem puts_literals (hd : d.pendingCR = false) (hs : d.atLineStart = false)
    (hw : d.wroteAny = true) (hp : ∀ b ∈ p, isLiteral b) :
  puts d p = (p, { d with lastByte := p.getLastD d.lastByte })
  := by
  induction p generalizing d with
  | nil => simp [puts]
  | cons b p ih =>
    have hb : put d b = ([b], { d with lastByte := b }) := by
      simp only [put, putFresh, hd, hp b (by simp), hs]
      cases d
      simp_all
    have hp := ih (d := { d with lastByte := b }) hd hs hw fun b h => hp b (by simp [h])
    simp [puts, hb, hp, List.getLast?_cons]

theorem emitLiteral_collect (hd : d.pendingCR = false) (hp : ∀ b ∈ p, isLiteral b) (o : Bytes) :
  emitLiteral (ε := ε) .collect d o p = (none, (puts d p).2, o ++ (puts d p).1)
  := by
  cases p with
  | nil => simp [emitLiteral, puts]
  | cons b p =>
    have hb := hp b (by simp)
    have hput : put d b = (if d.atLineStart && b == dot then dotDot else [b],
        { d with atLineStart := false, wroteAny := true, lastByte := b }) := by
      simp [put, putFresh, hd, hb]
    have hrun := puts_literals (d := (put d b).2) (by simpa [hput] using hd)
      (by simp [hput]) (by simp [hput]) (p := p) fun b h => hp b (by simp [h])
    rw [puts, hrun, hput]
    by_cases h : d.atLineStart && b == dot
    · obtain ⟨hs, rfl⟩ : d.atLineStart = true ∧ b = dot := by simpa using h
      cases p <;> simp [emitLiteral, hs, Sink.collect, List.getLast?_cons]
    · simp [emitLiteral, h, Sink.collect]

theorem puts_takeWhile (d : DotStuffWriter) (p : Bytes) :
  puts d p = ((puts d (p.takeWhile isLiteral)).1 ++
      (puts (puts d (p.takeWhile isLiteral)).2 (p.dropWhile isLiteral)).1,
    (puts (puts d (p.takeWhile isLiteral)).2 (p.dropWhile isLiteral)).2)
  := by
  rw [← puts_append, List.takeWhile_append_dropWhile]

theorem writeLoop_collect (d : DotStuffWriter) (o : Bytes) (n : Nat) (p : Bytes) :
  writeLoop (ε := ε) .collect d o n p
    = (n + p.length, none, (puts d p).2, o ++ (puts d p).1)
  := by
  fun_induction writeLoop (ε := ε) .collect d o n p with
  | case1 => simp [puts]
  | case2 d o n b rest hd e d' o' h => simp [emitCRLF_collect] at h
  | case3 d o n b rest hd d' o' h hb ih =>
    rw [emitCRLF_collect] at h
    cases h
    simp [ih, puts, put, hd, hb]
    omega
  | case4 d o n b rest hd d' o' h hb ih =>
    rw [emitCRLF_collect] at h
    cases h
    have hd' : d.newline.pendingCR = false := rfl
    simp [ih, puts, put, hd, hb, hd']
  | case5 d o n b rest hd hb run e d' o' h =>
    rw [emitLiteral_collect (by simpa using hd)] at h
    · simp at h
    · rw [show run = (b :: rest).takeWhile isLiteral by simp [run, hb]]
      exact List.all_eq_true.mp List.all_takeWhile
  | case6 d o n b rest hd hb run d' o' h ih =>
    have hrun : run = (b :: rest).takeWhile isLiteral := by simp [run, hb]
    have hrest : rest.dropWhile isLiteral = (b :: rest).dropWhile isLiteral := by simp [hb]
    have hlen : run.length + (rest.dropWhile isLiteral).length = (b :: rest).length := by
      rw [hrun, hrest, ← List.length_append, List.takeWhile_append_dropWhile]
    rw [emitLiteral_collect (by simpa using hd)] at h
    · cases h
      rw [ih, puts_takeWhile d (b :: rest), ← hrun, ← hrest, ← hlen, Nat.add_assoc,
        List.append_assoc]
    · rw [hrun]
      exact List.all_eq_true.mp List.all_takeWhile
  | case7 d o n b rest hd hb hlf e d' o' h => simp [emitCRLF, Sink.collect] at h
  | case8 d o n b rest hd hb hlf d' o' h ih =>
    have hd' : d = { d with pendingCR := false } := by
      cases d
      simpa using hd
    rw [hd', emitCRLF_collect] at h
    cases h
    rw [ih]
    simp [puts, put, putFresh, hd, hb, hlf]
    omega
  | case9 d o n b rest hd hb hlf ih =>
    simp [ih, puts, put, putFresh, hd, hb, hlf]
    omega

theorem write_collect (hd : d.closed = false) (p o : Bytes) :
  write (ε := ε) .collect p d o = (p.length, none, (puts d p).2, o ++ (puts d p).1)
  := by
  simp [write, hd, writeLoop_collect]

@[simp]
theorem puts_closed (d : DotStuffWriter) (p : Bytes) :
  (puts d p).2.closed = d.closed
  := by
  have hfresh (d : DotStuffWriter) (b : UInt8) : (putFresh d b).2.closed = d.closed := by
    unfold putFresh
    split
    · rfl
    · split <;> rfl
  have hput (d : DotStuffWriter) (b : UInt8) : (put d b).2.closed = d.closed := by
    unfold put
    split
    · split
      · rfl
      · exact hfresh d.newline b
    · exact hfresh d b
  induction p generalizing d with
  | nil => rfl
  | cons b p ih => rw [puts, ih, hput]

theorem writes_collect (hd : d.closed = false) (ps : List Bytes) (o : Bytes) :
  writes (ε := ε) .collect ps d o
    = (none, (puts d ps.flatten).2, o ++ (puts d ps.flatten).1)
  := by
  induction ps generalizing d o with
  | nil => simp [writes, puts]
  | cons p ps ih =>
    rw [writes, write_collect hd]
    simp [ih, hd, puts_append]

/-- What `Close` emits. -/
def closing (d : DotStuffWriter) : Bytes :=
  if d.pendingCR || (d.wroteAny && d.lastByte != lf) then crlf ++ terminator else terminator

theorem close_collect (hd : d.closed = false) (o : Bytes) :
  (close (ε := ε) .collect d o).2.2 = o ++ closing d
  := by
  cases hp : d.pendingCR
  · by_cases hl : d.wroteAny && d.lastByte != lf
    · simp [close, closing, hd, hp, hl, Sink.collect]
    · simp [close, closing, hd, hp, hl, Sink.collect]
  · simp [close, closing, hd, hp, emitCRLF, Sink.collect]

/-! ### The emitted lines -/

/-- No CR is held, and the flags that describe the emitted octets agree. -/
def Settled (d : DotStuffWriter) : Prop :=
  d.pendingCR = false ∧ (d.wroteAny && d.lastByte != lf) = !d.atLineStart

theorem settled_newline (d : DotStuffWriter) :
  d.newline.Settled
  := ⟨rfl, by simp [newline]⟩

/-- The lines of content emitted at a line start, or in the middle of a line. -/
def emitted (atLineStart : Bool) (ls : List Line) : Bytes :=
  if atLineStart then unlines (ls.map .stuff)
  else
    match ls with
    | [] => crlf
    | l :: ls => l.bytes ++ crlf ++ unlines (ls.map .stuff)

theorem emitted_empty (atLineStart : Bool) (ls : List Line) :
  emitted atLineStart (.empty :: ls) = crlf ++ emitted true ls
  := by
  cases atLineStart <;> simp [emitted, Line.stuff, Line.empty]

theorem emitted_cons (h : isLiteral b) (atLineStart : Bool) (l : Line) (ls : List Line) :
  emitted atLineStart (.cons b h l :: ls)
    = (if atLineStart && b == dot then dotDot else [b]) ++ emitted false (l :: ls)
  := by
  by_cases hb : b = dot <;> cases atLineStart <;>
    simp [emitted, Line.stuff, Line.cons, dotDot, hb]

theorem puts_pending (d : DotStuffWriter) (p : Bytes) :
  (puts { d with pendingCR := true } p).1 ++ closing (puts { d with pendingCR := true } p).2
    = crlf ++ ((puts d.newline (dropLF p)).1 ++ closing (puts d.newline (dropLF p)).2)
  := by
  have hd : newline { d with pendingCR := true } = d.newline := rfl
  cases p with
  | nil => simp [puts, closing, dropLF, newline]
  | cons b p =>
    by_cases hb : b = lf
    · simp [puts, put, dropLF, hb, hd]
    · have hd' : d.newline.pendingCR = false := rfl
      simp [puts, put, dropLF, hb, hd, hd']

theorem puts_closing (hd : d.Settled) (p : Bytes) :
  (puts d p).1 ++ closing (puts d p).2 = emitted d.atLineStart (lines p) ++ terminator
  := by
  have hput {d : DotStuffWriter} (hd : d.Settled) (b : UInt8) : put d b = putFresh d b := by
    simp [put, hd.1]
  have hlit {d : DotStuffWriter} (hd : d.Settled) {b : UInt8} (h : isLiteral b) :
      (putFresh d b).2.Settled := by
    have hb : ¬ b = cr ∧ ¬ b = lf := by simpa [isLiteral] using h
    simp [Settled, putFresh, h, hb, hd.1]
  fun_induction lines p generalizing d with
  | case1 =>
    cases hs : d.atLineStart <;> simp [puts, closing, hd.1, hd.2, emitted, hs]
  | case2 b p h hl ih =>
    rw [puts, hput hd, List.append_assoc, ih (hlit hd h), emitted_cons, hl]
    simp [putFresh, h, emitted, Line.empty]
  | case3 b p h l ls hl ih =>
    rw [puts, hput hd, List.append_assoc, ih (hlit hd h), emitted_cons, hl]
    simp [putFresh, h]
  | case4 b p h hlf ih =>
    have hfresh : putFresh d b = (crlf, d.newline) := by simp [putFresh, h, hlf]
    rw [puts, hput hd, hfresh, List.append_assoc, ih (settled_newline d), emitted_empty,
      List.append_assoc]
    rfl
  | case5 b p h hlf ih =>
    have hfresh : putFresh d b = ([], { d with pendingCR := true }) := by
      simp [putFresh, h, hlf]
    rw [puts, hput hd, hfresh, List.nil_append, puts_pending, ih (settled_newline d),
      emitted_empty, List.append_assoc]
    rfl

/-- The writer emits every line of the content stuffed and ended with CRLF, and then the
terminator. -/
theorem output_eq (ps : List Bytes) :
  output ps = unlines ((lines ps.flatten).map .stuff) ++ terminator
  := by
  have hclosed : (puts new ps.flatten).2.closed = false := puts_closed new ps.flatten
  have h := puts_closing (d := new) ⟨rfl, rfl⟩ ps.flatten
  rw [output, writes_collect rfl]
  simp only [close_collect hclosed, List.nil_append]
  exact h

end DotStuffWriter

end GoSmtp
