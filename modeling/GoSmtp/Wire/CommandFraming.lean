import GoSmtp.Wire.Command

/-!
# The framing of command lines

`ReadCommand` and `ReadSASLResponse` under arbitrary limits, and `EncodeCommand` on the other side.
What a reader makes of a line depends on the octets of that line only: `verdict` computes it from
them, and the reader leaves the feed right behind the LF, whatever the verdict.  A stream that ends
inside a line is another matter.
-/

namespace GoSmtp

variable {φ : Type}
variable {b : UInt8} {line out : Bytes} {c : Command} {ε : Type} {cs : List (Bytes × List Bytes)}
variable {w : Bytes} {s : Feed UInt8 φ} {max : Nat} {args : List Bytes}

/-! ### Limits -/

/-- `smtpwire.Limits`, as far as the readers of lines use it. -/
structure WireLimits where
  maxReplyLineLength : Int := 0
  maxReplyLines : Int := 0
  maxReplySize : Int := 0
  maxCommandLineLength : Int := 0
  maxSASLResponseLength : Int := 0
  deriving DecidableEq, Repr

def defaultMaxReplyLineLength : Nat := 8192

def defaultMaxReplyLines : Nat := 1000

def defaultMaxReplySize : Nat := 1048576

namespace WireLimits

/-- A field of `withDefaults`: a limit that is not positive stands for the default. -/
def orDefault (limit : Int) (default : Nat) : Int := if limit ≤ 0 then default else limit

def withDefaults (l : WireLimits) : WireLimits where
  maxReplyLineLength := orDefault l.maxReplyLineLength defaultMaxReplyLineLength
  maxReplyLines := orDefault l.maxReplyLines defaultMaxReplyLines
  maxReplySize := orDefault l.maxReplySize defaultMaxReplySize
  maxCommandLineLength := orDefault l.maxCommandLineLength defaultMaxCommandLineLength
  maxSASLResponseLength := orDefault l.maxSASLResponseLength defaultMaxSASLResponseLength

theorem toNat_orDefault {limit : Int} {default : Nat} (h : 1 ≤ limit) :
  ((orDefault limit default).toNat : Int) = limit
  := by
  rw [orDefault, if_neg (by omega)]
  exact Int.toNat_of_nonneg (by omega)

/-- The bound on a command line, which includes CRLF. -/
def commandLine (l : WireLimits) : Nat := l.withDefaults.maxCommandLineLength.toNat

/-- The bound on a response, which includes CRLF. -/
def saslResponse (l : WireLimits) : Nat := l.withDefaults.maxSASLResponseLength.toNat

end WireLimits

/-! ### The readers -/

namespace LineReader

/-- `LineReader.ReadCommand`. -/
def readCommand (limits : WireLimits) (s : Feed UInt8 φ) :
    Except (CommandError φ) Command × Feed UInt8 φ :=
  match readCommandLine limits.commandLine s with
  | (.error e, s) => (.error e, s)
  | (.ok line, s) => (if line.isEmpty then .error .empty else parseCommand line, s)

/-- `LineReader.ReadSASLResponse`. -/
def readSASLResponse (limits : WireLimits) (s : Feed UInt8 φ) :
    Except (CommandError φ) Bytes × Feed UInt8 φ :=
  match readCommandLine limits.saslResponse s with
  | (.error e, s) => (.error e, s)
  | (.ok line, s) => (if line.any isControl then .error .argumentControl else .ok line, s)

/-- Calls of `ReadCommand` one after the other, with what each of them returns. -/
def readCommands (limits : WireLimits) :
    Nat → Feed UInt8 φ → List (Except (CommandError φ) Command) × Feed UInt8 φ
  | 0, s => ([], s)
  | n + 1, s =>
    match readCommand limits s with
    | (r, s) =>
      match readCommands limits n s with
      | (rs, s) => (r :: rs, s)

end LineReader

/-! ### A line that ends -/

/-- What `readCommandLine` makes of the octets `w` before LF. -/
def verdict (max : Nat) (w : Bytes) : Except (CommandError φ) Bytes :=
  if w.length + 1 > max then .error .lineTooLong
  else if w.getLast? != some cr then .error .bareLF
  else .ok w.dropLast

@[simp]
theorem drainLine_lf (s : Feed UInt8 φ) :
  drainLine lf s = (.lineTooLong, s)
  := by
  cases s with
  | nil => rfl
  | cons event s => cases event <;> rfl

theorem drainLine_line (hb : b ≠ lf) (hw : lf ∉ w) (s : Feed UInt8 φ) :
  drainLine b (Feed.items w ++ .item lf :: s) = (.lineTooLong, s)
  := by
  induction w generalizing b with
  | nil => simp [drainLine, hb]
  | cons c w ih =>
    simp only [Feed.items_cons, List.cons_append, drainLine, beq_iff_eq, hb, if_false]
    apply ih
    · exact Ne.symm (List.ne_of_not_mem_cons hw)
    · exact List.not_mem_of_not_mem_cons hw

theorem lineLoop_line (max : Nat) (line : Bytes) (hw : lf ∉ w) (s : Feed UInt8 φ) :
  lineLoop max line (Feed.items w ++ .item lf :: s) = (verdict max (line ++ w), s)
  := by
  induction w generalizing line with
  | nil =>
    simp only [Feed.items_nil, List.nil_append, List.append_nil, lineLoop, drainLine_lf, verdict]
    by_cases hlong : line.length + 1 > max
    · rw [if_pos hlong, if_pos hlong]
    · by_cases hcr : line.getLast? = some cr
      · simp [hlong, hcr]
      · simp [hlong, hcr]
  | cons b w ih =>
    have hb : b ≠ lf := Ne.symm (List.ne_of_not_mem_cons hw)
    have hw : lf ∉ w := List.not_mem_of_not_mem_cons hw
    simp only [Feed.items_cons, List.cons_append, lineLoop]
    by_cases hlong : line.length + 1 > max
    · rw [if_pos hlong, drainLine_line hb hw, verdict, if_pos]
      simp only [List.length_append, List.length_cons]
      omega
    · have hne : (b != lf) = true := bne_iff_ne.mpr hb
      rw [if_neg hlong, if_pos hne, ih (line ++ [b]) hw, List.append_assoc, List.singleton_append]

theorem readCommandLine_line (max : Nat) (hw : lf ∉ w) (s : Feed UInt8 φ) :
  readCommandLine max (Feed.items w ++ .item lf :: s) = (verdict max w, s)
  := lineLoop_line max [] hw s

theorem verdict_eq_ok :
  (verdict max w : Except (CommandError φ) Bytes) = .ok line ↔
    w = line ++ [cr] ∧ w.length + 1 ≤ max
  := by
  rw [verdict]
  constructor
  · intro h
    split at h
    · cases h
    · next hlong =>
      split at h
      · cases h
      · next hcr =>
        cases h
        refine ⟨?_, Nat.not_lt.mp hlong⟩
        have hlast : w.getLast? = some cr := by simpa using hcr
        exact (List.dropLast_append_getLast? cr hlast).symm
  · rintro ⟨rfl, hshort⟩
    rw [if_neg (Nat.not_lt.mpr hshort)]
    simp

/-! ### The command on a line -/

/-- A command line within the limit: a word of letters, digits and hyphens, and after separating
spaces an argument without a control octet, ended by CRLF. -/
structure CommandLine (max : Nat) (line : Bytes) (c : Command) : Prop where
  verb_ne_nil : c.verb ≠ []
  verb_word : ∀ b ∈ c.verb, isVerbByte b = true
  argument_clean : ∀ b ∈ c.argument, isControl b = false
  /-- The argument is what is left of the line behind the verb and the spaces. -/
  spelled : ∃ text, line = text ++ crlf ∧ c.verb = text.takeWhile (· != sp) ∧
    c.argument = (text.dropWhile (· != sp)).dropWhile (· == sp)
  length_le : line.length ≤ max

theorem dropWhile_drop_separator (text : Bytes) :
  ((text.dropWhile (· != sp)).drop 1).dropWhile (· == sp) =
    (text.dropWhile (· != sp)).dropWhile (· == sp)
  := by
  match h : text.dropWhile (· != sp) with
  | [] => rfl
  | b :: rest =>
    have hhead : (text.dropWhile (· != sp)).head? = some b := by rw [h]; rfl
    have hb := List.head?_dropWhile_not (· != sp) text
    rw [hhead] at hb
    have hsp : (b == sp) = true := by simpa using hb
    rw [List.drop_one, List.tail_cons, List.dropWhile_cons, if_pos hsp]

theorem parseCommand_eq_ok {text : Bytes} :
  (parseCommand text : Except (CommandError φ) Command) = .ok c ↔
    c.verb ≠ [] ∧ (∀ b ∈ c.verb, isVerbByte b = true) ∧ (∀ b ∈ c.argument, isControl b = false) ∧
    c.verb = text.takeWhile (· != sp) ∧
    c.argument = (text.dropWhile (· != sp)).dropWhile (· == sp)
  := by
  simp only [parseCommand, dropWhile_drop_separator]
  constructor
  · intro h
    split at h
    · cases h
    · next hverb =>
      split at h
      · cases h
      · next hargument =>
        cases h
        simp only [Bool.or_eq_true, List.isEmpty_iff, Bool.not_eq_true', not_or,
          Bool.not_eq_false] at hverb
        obtain ⟨hne, hword⟩ := hverb
        refine ⟨hne, List.all_eq_true.mp hword, ?_, rfl, rfl⟩
        simpa using hargument
  · obtain ⟨verb, argument⟩ := c
    rintro ⟨hne, hword, hclean, rfl, rfl⟩
    have hverb : (text.takeWhile (· != sp)).all isVerbByte = true := List.all_eq_true.mpr hword
    have hargument : ((text.dropWhile (· != sp)).dropWhile (· == sp)).any isControl = false := by
      simpa using hclean
    rw [hverb, hargument]
    simp [hne]

namespace LineReader

/-- What `ReadCommand` makes of the octets `w` before LF. -/
def judge (limits : WireLimits) (w : Bytes) : Except (CommandError φ) Command :=
  match verdict limits.commandLine w with
  | .error e => .error e
  | .ok line => if line.isEmpty then .error .empty else parseCommand line

theorem readCommand_line (limits : WireLimits) (hw : lf ∉ w) (s : Feed UInt8 φ) :
  readCommand limits (Feed.items w ++ .item lf :: s) = (judge limits w, s)
  := by
  rw [readCommand, readCommandLine_line _ hw, judge]
  cases verdict limits.commandLine w <;> rfl

theorem judge_eq_ok {limits : WireLimits} :
  (judge limits w : Except (CommandError φ) Command) = .ok c ↔
    CommandLine limits.commandLine (w ++ [lf]) c
  := by
  constructor
  · intro h
    rw [judge] at h
    split at h
    · cases h
    · next text hverdict =>
      obtain ⟨rfl, hshort⟩ := verdict_eq_ok.mp hverdict
      split at h
      · cases h
      · obtain ⟨hne, hword, hclean, hverb, hargument⟩ := parseCommand_eq_ok.mp h
        refine ⟨hne, hword, hclean, ⟨text, ?_, hverb, hargument⟩, ?_⟩
        · simp [crlf]
        · rw [List.length_append]
          exact hshort
  · rintro ⟨hne, hword, hclean, ⟨text, hline, hverb, hargument⟩, hshort⟩
    have hw : w = text ++ [cr] := by
      apply (List.append_left_inj [lf]).mp
      rw [hline, List.append_assoc]
      rfl
    have hverdict : (verdict limits.commandLine w : Except (CommandError φ) Bytes) = .ok text := by
      apply verdict_eq_ok.mpr
      refine ⟨hw, ?_⟩
      simpa using hshort
    have htext : text.isEmpty = false := by
      cases text with
      | nil => exact absurd hverb hne
      | cons b text => rfl
    rw [judge, hverdict]
    simp only [htext, Bool.false_eq_true, if_false]
    exact parseCommand_eq_ok.mpr ⟨hne, hword, hclean, hverb, hargument⟩

theorem readCommands_lines (limits : WireLimits) {ws : List Bytes} (h : ∀ w ∈ ws, lf ∉ w)
    (s : Feed UInt8 φ) :
  readCommands limits ws.length (Feed.items (ws.flatMap (· ++ [lf])) ++ s) =
    (ws.map (judge limits), s)
  := by
  induction ws with
  | nil => rfl
  | cons w ws ih =>
    obtain ⟨hw, hws⟩ := List.forall_mem_cons.mp h
    have hsplit : (Feed.items ((w :: ws).flatMap (· ++ [lf])) ++ s : Feed UInt8 φ) =
        Feed.items w ++ .item lf :: (Feed.items (ws.flatMap (· ++ [lf])) ++ s) := by
      simp
    rw [hsplit, List.length_cons, readCommands, readCommand_line _ hw]
    simp only [ih hws, List.map_cons]

end LineReader

/-! ### The writer of commands -/

/-- Errors of `EncodeCommand`. -/
inductive EncodeError (ε : Type) where
  | invalidCommandToken
  | sink (e : ε)
  deriving DecidableEq, Repr

def validateCommandToken (w : Bytes) : Bool := !w.any isControl

/-- The line that `EncodeCommand` builds. -/
def buildCommand (verb : Bytes) (args : List Bytes) : Bytes :=
  verb ++ args.flatMap (fun a => sp :: a) ++ crlf

/-- `EncodeCommand`: every token is checked before the line is written. -/
def encodeCommand {ω ε : Type} (k : Sink ω ε) (verb : Bytes) (args : List Bytes) (out : ω) :
    Option (EncodeError ε) × ω :=
  if !validateCommandToken verb then (some .invalidCommandToken, out)
  else if !args.all validateCommandToken then (some .invalidCommandToken, out)
  else
    match k.write (buildCommand verb args) out with
    | (none, out) => (none, out)
    | (some e, out) => (some (.sink e), out)

/-- Commands written one after the other, until one of them fails. -/
def encodeCommands {ω ε : Type} (k : Sink ω ε) :
    List (Bytes × List Bytes) → ω → Option (EncodeError ε) × ω
  | [], out => (none, out)
  | (verb, args) :: cs, out =>
    match encodeCommand k verb args out with
    | (some e, out) => (some e, out)
    | (none, out) => encodeCommands k cs out

/-- The arguments of a command, joined by spaces. -/
def joinArgs (args : List Bytes) : Bytes := [sp].intercalate args

theorem flatMap_separated (h : args ≠ []) :
  args.flatMap (fun a => sp :: a) = sp :: joinArgs args
  := by
  induction args with
  | nil => exact absurd rfl h
  | cons a args ih =>
    cases args with
    | nil => simp [joinArgs]
    | cons b args =>
      rw [List.flatMap_cons, ih (List.cons_ne_nil b args)]
      simp [joinArgs]

theorem encodeCommands_collect {out' : Bytes}
    (h : encodeCommands (Sink.collect : Sink Bytes ε) cs out = (none, out')) :
  out' = out ++ cs.flatMap (fun c => buildCommand c.1 c.2) ∧
    ∀ c ∈ cs, validateCommandToken c.1 = true ∧ ∀ a ∈ c.2, validateCommandToken a = true
  := by
  induction cs generalizing out with
  | nil =>
    cases h
    simp
  | cons c cs ih =>
    obtain ⟨verb, args⟩ := c
    rw [encodeCommands, encodeCommand] at h
    cases hverb : validateCommandToken verb with
    | false => simp [hverb] at h
    | true =>
      cases hargs : args.all validateCommandToken with
      | false => simp [hverb, hargs] at h
      | true =>
        simp only [hverb, hargs, Bool.not_true, Bool.false_eq_true, if_false,
          Sink.collect] at h
        obtain ⟨rfl, hvalid⟩ := ih h
        refine ⟨by simp, List.forall_mem_cons.mpr ⟨?_, hvalid⟩⟩
        exact ⟨hverb, List.all_eq_true.mp hargs⟩

theorem lf_not_mem_of_valid (h : validateCommandToken w = true) :
  lf ∉ w
  := by
  intro hmem
  have hcontrol : w.any isControl = true := List.any_eq_true.mpr ⟨lf, hmem, by decide⟩
  simp [validateCommandToken, hcontrol] at h

/-- A command that a server can take: a proper verb, an argument text that does not begin with a
space, and a line within the limit. -/
structure Sendable (limits : WireLimits) (verb : Bytes) (args : List Bytes) : Prop where
  verb_ne_nil : verb ≠ []
  verb_word : ∀ b ∈ verb, isVerbByte b = true
  argument_head : (joinArgs args).head? ≠ some sp
  length_le : (buildCommand verb args).length ≤ limits.commandLine

theorem isControl_joinArgs (h : ∀ a ∈ args, validateCommandToken a = true) :
  ∀ b ∈ joinArgs args, isControl b = false
  := by
  intro b hb
  by_cases hne : args = []
  · subst hne
    cases hb
  · have hmem : b ∈ args.flatMap (fun a => sp :: a) := by
      rw [flatMap_separated hne]
      exact List.mem_cons_of_mem sp hb
    obtain ⟨a, ha, hba⟩ := List.mem_flatMap.mp hmem
    rcases List.mem_cons.mp hba with rfl | hba
    · rfl
    · have hvalid := h a ha
      simp only [validateCommandToken, Bool.not_eq_true', List.any_eq_false,
        Bool.not_eq_true] at hvalid
      exact hvalid b hba

theorem commandLine_buildCommand {limits : WireLimits} {verb : Bytes}
    (h : Sendable limits verb args) (hargs : ∀ a ∈ args, validateCommandToken a = true) :
  CommandLine limits.commandLine (buildCommand verb args) ⟨verb, joinArgs args⟩
  := by
  have hword : ∀ b ∈ verb, (b != sp) = true := by
    intro b hb
    apply bne_iff_ne.mpr
    rintro rfl
    exact absurd (h.verb_word sp hb) (by decide)
  refine ⟨h.verb_ne_nil, h.verb_word, isControl_joinArgs hargs, ?_, h.length_le⟩
  refine ⟨verb ++ args.flatMap (fun a => sp :: a), rfl, ?_, ?_⟩
  · rw [List.takeWhile_append_of_pos hword]
    cases args <;> simp
  · rw [List.dropWhile_append_of_pos hword]
    by_cases hne : args = []
    · subst hne
      rfl
    · rw [flatMap_separated hne]
      simp only [List.dropWhile_cons, bne_self_eq_false, Bool.false_eq_true, if_false, beq_self_eq_true,
        if_true]
      cases hjoin : joinArgs args with
      | nil => rfl
      | cons b rest =>
        have hb : b ≠ sp := by
          rintro rfl
          exact h.argument_head (by rw [hjoin]; rfl)
        rw [List.dropWhile_cons, if_neg (by simpa using hb)]

theorem readCommands_encoded {limits : WireLimits}
    (hout : encodeCommands (Sink.collect : Sink Bytes ε) cs [] = (none, out))
    (h : ∀ c ∈ cs, Sendable limits c.1 c.2) (s : Feed UInt8 φ) :
  LineReader.readCommands limits cs.length (Feed.items out ++ s) =
    (cs.map fun c => .ok ⟨c.1, joinArgs c.2⟩, s)
  := by
  obtain ⟨rfl, hvalid⟩ := encodeCommands_collect hout
  -- the line of a command, up to its LF
  let line (c : Bytes × List Bytes) : Bytes := c.1 ++ c.2.flatMap (fun a => sp :: a) ++ [cr]
  have hline (c : Bytes × List Bytes) : buildCommand c.1 c.2 = line c ++ [lf] := by
    simp [line, buildCommand, crlf]
  have hlf : ∀ w ∈ cs.map line, lf ∉ w := by
    intro w hw
    obtain ⟨c, hc, rfl⟩ := List.mem_map.mp hw
    obtain ⟨hverb, hargs⟩ := hvalid c hc
    have hflat : lf ∉ c.2.flatMap fun a => sp :: a := by
      intro hmem
      obtain ⟨a, ha, hmem⟩ := List.mem_flatMap.mp hmem
      rcases List.mem_cons.mp hmem with heq | hmem
      · exact absurd heq (by decide)
      · exact lf_not_mem_of_valid (hargs a ha) hmem
    simp only [line, List.mem_append, List.mem_singleton, not_or]
    exact ⟨⟨lf_not_mem_of_valid hverb, hflat⟩, by decide⟩
  have hout : cs.flatMap (fun c => buildCommand c.1 c.2) = (cs.map line).flatMap (· ++ [lf]) := by
    rw [List.flatMap_map]
    exact List.flatMap_congr fun c _ => hline c
  have hread := LineReader.readCommands_lines limits hlf s
  rw [List.length_map] at hread
  rw [List.nil_append, hout, hread, List.map_map]
  congr 1
  apply List.map_congr_left
  intro c hc
  apply LineReader.judge_eq_ok.mpr
  rw [← hline c]
  exact commandLine_buildCommand (h c hc) (hvalid c hc).2

/-- A call of `ReadCommand` takes the octets through the first LF and nothing else.  It succeeds
exactly on a command line within the limit, and so reads back what `EncodeCommand` wrote. -/
theorem commandFraming {ε : Type} (limits : WireLimits) :
  (∀ (w : Bytes) (s : Feed UInt8 φ), lf ∉ w →
    (LineReader.readCommand limits (Feed.items (w ++ [lf]) ++ s)).2 = s ∧
    ∀ c, (LineReader.readCommand limits (Feed.items (w ++ [lf]) ++ s)).1 = .ok c ↔
      CommandLine limits.commandLine (w ++ [lf]) c) ∧
  ∀ (cs : List (Bytes × List Bytes)) (out : Bytes) (s : Feed UInt8 φ),
    encodeCommands (Sink.collect : Sink Bytes ε) cs [] = (none, out) →
    (∀ c ∈ cs, Sendable limits c.1 c.2) →
    LineReader.readCommands limits cs.length (Feed.items out ++ s) =
      (cs.map fun c => .ok ⟨c.1, joinArgs c.2⟩, s)
  := by
  constructor
  · intro w s hw
    have hread := LineReader.readCommand_line limits hw s
    have hsplit : (Feed.items (w ++ [lf]) ++ s : Feed UInt8 φ) =
        Feed.items w ++ .item lf :: s := by
      simp
    rw [hsplit, hread]
    exact ⟨rfl, fun c => LineReader.judge_eq_ok⟩
  · intro cs out s hout h
    exact readCommands_encoded hout h s

/-- Two commands, the second without an argument. -/
theorem commandFraming_two :
  LineReader.readCommands {} 2
      (Feed.items (ascii "MAIL FROM:<a@b> SIZE=1\r\nRSET\r\n") ++ [] : Feed UInt8 Unit) =
    ([.ok ⟨ascii "MAIL", ascii "FROM:<a@b> SIZE=1"⟩, .ok ⟨ascii "RSET", []⟩], [])
  := by
  apply (commandFraming (ε := Unit) {}).2
    [(ascii "MAIL", [ascii "FROM:<a@b>", ascii "SIZE=1"]), (ascii "RSET", [])]
  · decide
  · simp only [List.mem_cons, List.not_mem_nil, or_false, forall_eq_or_imp, forall_eq]
    constructor <;> constructor <;> decide

/-! ### A stream that ends inside a line -/

/-- The stream ends without LF, with more octets than a line may have. -/
def Overrun (max : Nat) (s : Feed UInt8 φ) : Prop :=
  ∃ w : Bytes, s = Feed.items w ∧ lf ∉ w ∧ max < w.length

theorem drainLine_eof :
  (drainLine b s).1 = .eof ↔ b ≠ lf ∧ ∃ w : Bytes, s = Feed.items w ∧ lf ∉ w
  := by
  induction s generalizing b with
  | nil =>
    by_cases hb : b = lf
    · simp [drainLine, hb]
    · simp only [drainLine, beq_iff_eq, hb, if_false, ne_eq, not_false_eq_true, true_and, true_iff]
      exact ⟨[], rfl, List.not_mem_nil⟩
  | cons event s ih =>
    by_cases hb : b = lf
    · subst hb
      simp
    · cases event with
      | fault e =>
        simp only [drainLine, beq_iff_eq, hb, if_false, reduceCtorEq, false_iff]
        rintro ⟨-, w, hw, -⟩
        cases w <;> cases hw
      | item c =>
        simp only [drainLine, beq_iff_eq, hb, if_false, ih, ne_eq, not_false_eq_true, true_and]
        constructor
        · rintro ⟨hc, w, rfl, hw⟩
          exact ⟨c :: w, rfl, List.not_mem_cons_of_ne_of_not_mem (Ne.symm hc) hw⟩
        · rintro ⟨w, heq, hw⟩
          cases w with
          | nil => cases heq
          | cons d w =>
            cases heq
            refine ⟨Ne.symm (List.ne_of_not_mem_cons hw), w, rfl, ?_⟩
            exact List.not_mem_of_not_mem_cons hw

/-- The end of the stream is reported as such before the first octet of a line, and again while an
oversized line is drained. -/
theorem lineLoop_eof :
  (lineLoop max line s).1 = .error .eof ↔
    (line = [] ∧ s = []) ∨
      ∃ w : Bytes, s = Feed.items w ∧ lf ∉ w ∧ w ≠ [] ∧ max < line.length + w.length
  := by
  induction s generalizing line with
  | nil =>
    cases line with
    | nil => simp [lineLoop]
    | cons b line =>
      simp only [lineLoop, List.isEmpty_cons, Bool.false_eq_true, if_false, Except.error.injEq,
        reduceCtorEq, false_and, false_or, false_iff, not_exists, not_and]
      intro w hw _ hne
      exact absurd (List.map_eq_nil_iff.mp hw.symm) hne
  | cons event s ih =>
    cases event with
    | fault e =>
      simp only [lineLoop, Except.error.injEq, reduceCtorEq, and_false, false_or, false_iff]
      rintro ⟨w, hw, -⟩
      cases w <;> cases hw
    | item b =>
      have hcons : (∃ w : Bytes, Event.item b :: s = Feed.items w ∧ lf ∉ w ∧ w ≠ [] ∧
            max < line.length + w.length) ↔
          b ≠ lf ∧ ∃ w : Bytes, s = Feed.items w ∧ lf ∉ w ∧ max < line.length + 1 + w.length := by
        constructor
        · rintro ⟨w, heq, hw, hne, hmax⟩
          cases w with
          | nil => cases heq
          | cons d w =>
            cases heq
            refine ⟨Ne.symm (List.ne_of_not_mem_cons hw), w, rfl, ?_, ?_⟩
            · exact List.not_mem_of_not_mem_cons hw
            · rw [List.length_cons] at hmax
              omega
        · rintro ⟨hb, w, rfl, hw, hmax⟩
          refine ⟨b :: w, rfl, ?_, List.cons_ne_nil b w, ?_⟩
          · exact List.not_mem_cons_of_ne_of_not_mem (Ne.symm hb) hw
          · rw [List.length_cons]
            omega
      rw [hcons, lineLoop]
      by_cases hlong : line.length + 1 > max
      · have hmax (w : Bytes) : max < line.length + 1 + w.length := by omega
        simp only [hlong, if_true, Except.error.injEq, drainLine_eof, hmax, and_true, reduceCtorEq,
          and_false, false_or]
      · by_cases hb : b = lf
        · subst hb
          simp only [hlong, if_false, bne_self_eq_false, Bool.false_eq_true]
          by_cases hcr : line.getLast? = some cr <;> simp [hcr]
        · have hne (w : Bytes) : max < line.length + 1 + w.length → w ≠ [] := by
            rintro hmax rfl
            exact hlong hmax
          simp only [hlong, if_false, bne_iff_ne, ne_eq, hb, not_false_eq_true, if_true, ih,
            List.append_eq_nil_iff, List.cons_ne_nil, and_false, false_and, false_or, true_and,
            List.length_append, List.length_singleton]
          constructor
          · rintro ⟨w, hs, hw, -, hmax⟩
            exact ⟨w, hs, hw, hmax⟩
          · rintro ⟨w, hs, hw, hmax⟩
            exact ⟨w, hs, hw, hne w hmax, hmax⟩

theorem readCommandLine_eof :
  (readCommandLine max s).1 = .error .eof ↔ s = [] ∨ Overrun max s
  := by
  rw [readCommandLine, lineLoop_eof]
  constructor
  · rintro (⟨-, hs⟩ | ⟨w, hs, hw, -, hmax⟩)
    · exact .inl hs
    · exact .inr ⟨w, hs, hw, by simpa using hmax⟩
  · rintro (hs | ⟨w, hs, hw, hmax⟩)
    · exact .inl ⟨rfl, hs⟩
    · refine .inr ⟨w, hs, hw, ?_, by simpa using hmax⟩
      rintro rfl
      exact absurd hmax (Nat.not_lt_zero max)

theorem parseCommand_ne_eof (text : Bytes) :
  (parseCommand text : Except (CommandError φ) Command) ≠ .error .eof
  := by
  intro h
  simp only [parseCommand] at h
  split at h
  · cases h
  · split at h <;> cases h

namespace LineReader

theorem readCommand_eof {limits : WireLimits} :
  (readCommand limits s).1 = .error .eof ↔ s = [] ∨ Overrun limits.commandLine s
  := by
  rw [← readCommandLine_eof, readCommand]
  generalize readCommandLine limits.commandLine s = r
  obtain ⟨r | line, s⟩ := r
  · simp
  · by_cases hempty : line = []
    · simp [hempty]
    · simp [hempty, parseCommand_ne_eof]

theorem readSASLResponse_eof {limits : WireLimits} :
  (readSASLResponse limits s).1 = .error .eof ↔ s = [] ∨ Overrun limits.saslResponse s
  := by
  rw [← readCommandLine_eof, readSASLResponse]
  generalize readCommandLine limits.saslResponse s = r
  obtain ⟨r | line, s⟩ := r
  · simp
  · by_cases hcontrol : line.any isControl = true <;> simp [hcontrol]

end LineReader

theorem not_overrun_nil (max : Nat) :
  ¬ Overrun max ([] : Feed UInt8 φ)
  := by
  rintro ⟨w, hw, -, hmax⟩
  rw [List.map_eq_nil_iff.mp hw.symm] at hmax
  exact absurd hmax (Nat.not_lt_zero max)

/-- The bare `io.EOF` means that the stream ended before the line, unless the stream ends inside a
line that is too long already: then the loop that drains it returns the `io.EOF` of the stream. -/
theorem cleanEOF_iff (limits : WireLimits) (s : Feed UInt8 φ) :
  (((LineReader.readCommand limits s).1 = .error .eof → s = []) ↔
    ¬ Overrun limits.commandLine s) ∧
  (((LineReader.readSASLResponse limits s).1 = .error .eof → s = []) ↔
    ¬ Overrun limits.saslResponse s)
  := by
  have hiff {max : Nat} : (s = [] ∨ Overrun max s → s = []) ↔ ¬ Overrun max s := by
    constructor
    · intro h hover
      have hs := h (.inr hover)
      subst hs
      exact not_overrun_nil max hover
    · rintro hnot (hs | hover)
      · exact hs
      · exact absurd hover hnot
  rw [LineReader.readCommand_eof, LineReader.readSASLResponse_eof]
  exact ⟨hiff, hiff⟩

/-- Five octets of a line of at most four, then the end of the stream. -/
theorem cleanEOF_overrun :
  LineReader.readCommand { maxCommandLineLength := 4 }
      (Feed.items (ascii "EHLO ") : Feed UInt8 Unit) = (.error .eof, []) ∧
    LineReader.readSASLResponse { maxSASLResponseLength := 4 }
      (Feed.items (ascii "AGEAY") : Feed UInt8 Unit) = (.error .eof, [])
  := by decide

end GoSmtp
