import GoSmtp.Client.Conn
import GoSmtp.Wire.Decimal

/-!
# The command pipeline

`smtpclient/pipeline.go`: a group of commands is written in windows, and the replies to a
window are read before the next one is written.  Without PIPELINING a window holds one
command.
-/

namespace GoSmtp.Client

open Exec

variable {φ ω α : Type}
variable {env : Env φ ω} {command : Bytes} {opts : Options}
variable (opts : Options) (env : Env φ ω)

def maxPipelineDepth : Nat := 16

def maxPipelineBytes : Nat := 65536

/-- `queuedCommand`, without its timeout. -/
structure QueuedCommand where
  verb : Bytes
  args : List Bytes := []
  syncPoint : Bool := false
  /-- The command completes a mail transaction. -/
  completes : Bool := false
  deriving DecidableEq, Repr

namespace QueuedCommand

/-- `commandLength`. -/
def length (c : QueuedCommand) : Nat :=
  c.verb.length + 2 + (c.args.map fun a => a.length + 1).sum

/-- The line on the wire, without its end. -/
def line (c : QueuedCommand) : Bytes := c.args.foldl (fun l a => l ++ sp :: a) c.verb

def kind (c : QueuedCommand) : LineKind :=
  if c.verb = ascii "AUTH" then .auth else if c.verb = ascii "DATA" then .data else .plain

/-- The request that the command is. -/
def request (c : QueuedCommand) : Request := .line c.line c.kind

end QueuedCommand

def isSyncPoint (verb : Bytes) : Bool :=
  toUpper verb ∈ [ascii "EHLO", ascii "DATA", ascii "VRFY", ascii "EXPN", ascii "TURN",
    ascii "QUIT", ascii "NOOP"]

def depth (s : Conn φ ω) : Nat :=
  if s.advertises (ascii "PIPELINING") then maxPipelineDepth else 1

/-- `validateGroup`: the commands with their verbs in upper case. -/
def validateGroup (cmds : List QueuedCommand) : Except (ClientError φ) (List QueuedCommand) :=
  match cmds with
  | [] => .ok []
  | c :: rest =>
    let c := { c with verb := toUpper c.verb }
    if (c.syncPoint || isSyncPoint c.verb) && !rest.isEmpty then
      .error (.message (ascii "smtpclient: " ++ c.verb ++
        ascii " is a pipelining sync point and must be last in a group"))
    else (validateGroup rest).map (c :: ·)

/-- `validateCommandToken`. -/
def validCommandToken (w : Bytes) : Bool := w.all fun b => 32 ≤ b && b != 127

/-- Whether `EncodeCommand` takes the command. -/
def QueuedCommand.valid (c : QueuedCommand) : Bool := (c.verb :: c.args).all validCommandToken

/-- The write of an operation begins, which may complete a transaction. -/
def noteCompleting (completes : Bool) : Call φ ω Unit :=
  if completes then record .completing else pure ()

/-- `EncodeCommand` on the raw connection.  A token that is not valid is refused before
anything is written. -/
def encodeCommand (c : QueuedCommand) (kind : LineKind) :
    Call φ ω (Option (Cause φ)) := do
  if !c.valid then pure (some .invalidCommandToken)
  else
    noteCompleting c.completes
    match ← outside (env.write (c.line ++ crlf)) with
    | some e => pure (some (.io e))
    | none =>
      record (.sent (.line c.line kind) 1)
      pure none

def redactedPayload : Bytes := ascii "[redacted]"

/-- `traceCommandLine`: of AUTH only the mechanism is told. -/
def traceCommandLine (c : QueuedCommand) : Bytes :=
  if toUpper c.verb = ascii "AUTH" then
    (c.args.take 1 ++ (c.args.drop 1).map fun _ => redactedPayload).foldl
      (fun l a => l ++ sp :: a) c.verb
  else c.line

/-- `traceReplyLine`: challenges are not told. -/
def traceReplyLine (r : Reply) : Bytes :=
  if r.code = 334 then ascii "334 " ++ redactedPayload
  else if r.lines.isEmpty then itoa r.code ++ sp :: r.text
  else itoa r.code ++ sp :: [lf].intercalate r.lines

/-- What `write` and `authResponse` share: a line is written unless the context is
cancelled, and a cancellation during the write poisons the connection.  The trace is told of `told`
in place of the line. -/
def writeLine (command : Bytes) (c : QueuedCommand) (kind : LineKind)
    (told : Bytes) : Call φ ω Unit := do
  if ← canceled env .before then Exec.fail .canceled
  else
    let e ← encodeCommand env c kind
    if ← canceled env .after then poisoned .canceled
    else
      match e with
      | some cause => poisoned (.transport command cause)
      | none => trace env .sent told

/-- `pipeline.write`. -/
def write (c : QueuedCommand) : Call φ ω Unit :=
  writeLine env c.verb c c.kind (traceCommandLine c)

/-- `pipeline.read`. -/
def read (command : Bytes) : Call φ ω Reply := do
  if ← canceled env .before then Exec.fail .canceled
  else
    let r ← readReply
    if ← canceled env .after then poisoned .canceled
    else
      match r with
      | .error cause => poisoned (.transport command cause)
      | .ok r =>
        trace env .received (traceReplyLine r)
        let s ← Exec.read
        if r.code = 421 then poisoned (.reply command (replyError opts s.enhancedStatusCodes r))
        else pure r

/-- A failure of a command that completes a transaction leaves its status unknown. -/
def classified (c : QueuedCommand) (m : Call φ ω α) : Call φ ω α :=
  Exec.mapErr (fun e => if c.completes then e.unknown c.verb else e) m

/-- A command that completes a transaction is not begun once the context is cancelled. -/
def checkCompletes (c : QueuedCommand) : Call φ ω Unit :=
  if c.completes then do
    if ← canceled env .before then Exec.fail .canceled else pure ()
  else pure ()

/-- A window is written: the commands of it, and those that are left.  `k` commands with
`bytes` octets in total are already in the window. -/
def writeWindow (env : Env φ ω) (limit : Nat) :
    Nat → Nat → List QueuedCommand → Call φ ω (List QueuedCommand × List QueuedCommand)
  | _, _, [] => pure ([], [])
  | k, bytes, c :: cmds =>
    if k ≥ limit then pure ([], c :: cmds)
    else if c.length > maxPipelineBytes then
      Exec.fail (.message (ascii "smtpclient: " ++ c.verb ++
        ascii " command exceeds pipeline byte bound of 65536"))
    else if k > 0 ∧ bytes + c.length > maxPipelineBytes then pure ([], c :: cmds)
    else do
      checkCompletes env c
      classified c (write env c)
      if c.syncPoint then pure ([c], cmds)
      else
        let (window, rest) ← writeWindow env limit (k + 1) (bytes + c.length) cmds
        pure (c :: window, rest)

/-- The replies to a window. -/
def readWindow (opts : Options) (env : Env φ ω) : List QueuedCommand → Call φ ω (List Reply)
  | [] => pure []
  | c :: cmds => do
      let r ← classified c (read opts env c.verb)
      let rs ← readWindow opts env cmds
      pure (r :: rs)

/-- The windows of a group.  Every window takes a command, so `n` windows are enough for `n`
commands. -/
def windows (opts : Options) (env : Env φ ω) : Nat → List QueuedCommand → Call φ ω (List Reply)
  | _, [] => pure []
  | 0, _ => pure []
  | n + 1, cmds => do
      let s ← Exec.read
      let (window, rest) ← writeWindow env (depth s) 0 0 cmds
      let rs ← readWindow opts env window
      let rs' ← windows opts env n rest
      pure (rs ++ rs')

def executeLocked (cmds : List QueuedCommand) :
    Call φ ω (List Reply) := do
  if cmds.isEmpty then pure []
  else
    match validateGroup cmds with
    | .error e => Exec.fail e
    | .ok cmds =>
      let s ← Exec.read
      if s.closed then Exec.fail (.message (ascii "smtpclient: connection is closed"))
      else windows opts env cmds.length cmds

/-- A group of one command. -/
def executeOne (c : QueuedCommand) : Call φ ω Reply := do
  match ← executeLocked opts env [c] with
  | [] => fun s => (.panic, s)
  | r :: _ => pure r

/-! ### Single commands -/

/-- The command with its verb in upper case. -/
def QueuedCommand.upper (c : QueuedCommand) : QueuedCommand := { c with verb := toUpper c.verb }

theorem executeOne_eq (c : QueuedCommand) :
  executeOne opts env c = (do
    let s ← Exec.read
    if s.closed then Exec.fail (.message (ascii "smtpclient: connection is closed"))
    else if c.upper.length > maxPipelineBytes then
      Exec.fail (.message (ascii "smtpclient: " ++ c.upper.verb ++
        ascii " command exceeds pipeline byte bound of 65536"))
    else do
      checkCompletes env c.upper
      classified c.upper (write env c.upper)
      classified c.upper (read opts env c.upper.verb))
  := by
  have hdepth (s : Conn φ ω) : ¬ 0 ≥ depth s := by
    rw [depth]
    split <;> decide
  have hgroup : (validateGroup [c] : Except (ClientError φ) _) = .ok [c.upper] := by
    simp [validateGroup, QueuedCommand.upper, Except.map]
  funext s
  by_cases hclosed : s.closed
  · simp [executeOne, executeLocked, hgroup, Bind.bind, Exec.read, hclosed, Exec.fail]
  by_cases hlong : c.upper.length > maxPipelineBytes
  · simp [executeOne, executeLocked, hgroup, Bind.bind, Exec.read, hclosed, Exec.fail, windows,
      writeWindow, hdepth, hlong]
  · rcases hc : checkCompletes env c.upper s with ⟨_ | _ | _, s₁⟩
    · rcases hw : classified c.upper (write env c.upper) s₁ with ⟨_ | _ | _, s₂⟩
      · rcases hr : classified c.upper (read opts env c.upper.verb) s₂ with ⟨_ | _ | _, s₃⟩ <;>
          cases hs : c.upper.syncPoint <;>
          simp [executeOne, executeLocked, hgroup, Exec.read, hclosed, hdepth, hlong, windows,
            writeWindow, readWindow, hc, hw, hr, hs, Bind.bind, Pure.pure]
      all_goals
        simp [executeOne, executeLocked, hgroup, Exec.read, hclosed, hdepth, hlong, windows,
          writeWindow, hc, hw, Bind.bind]
    all_goals
      simp [executeOne, executeLocked, hgroup, Exec.read, hclosed, hdepth, hlong, windows, writeWindow,
        hc, Bind.bind]

/-! ### What a line does -/

section Rules

variable {s : Conn φ ω} {E : Option (ClientError φ) → Conn φ ω → Prop}

/-- What is noted about an operation before it is written. -/
def noted (completes : Bool) : List WireEvent := if completes then [.completing] else []

theorem wp_noteCompleting {Q : Unit → Conn φ ω → Prop} {completes : Bool} :
  wp (noteCompleting completes) Q E s
    ↔ Q () { s with log := s.log ++ noted completes }
  := by
  cases completes <;> simp [noteCompleting, noted]

theorem wp_writeLine {Q : Unit → Conn φ ω → Prop} {c : QueuedCommand} {kind : LineKind}
    {told : Bytes} (hQ : c.valid → ∀ w, Q () { s with
      world := w, log := s.log ++ noted c.completes ++ [.sent (.line c.line kind) 1] })
    (hbefore : (env.canceled .before s.log s.world).1 = true →
      ∀ w, E (some .canceled) { s with world := w })
    (hinvalid : c.valid = false → ∀ e w, e.isLocal →
      E (some e) { s with world := w, state := .closed }) (hlost : c.valid → ∀ e w log, e.isLocal →
      log = s.log ++ noted c.completes
        ∨ log = s.log ++ noted c.completes ++ [.sent (.line c.line kind) 1] →
      E (some e) { s with world := w, log := log, state := .closed }) :
  wp (writeLine env command c kind told) Q E s
  := by
  rw [writeLine, wp_bind, wp_canceled, wp_ite]
  constructor
  · intro h
    apply hbefore h
  · intro _
    rw [wp_bind, encodeCommand, wp_ite]
    constructor
    · intro hv
      have hv : c.valid = false := by simpa using hv
      simp only [wp_pure, wp_bind, wp_canceled, wp_ite, wp_poisoned]
      constructor
      · intro _
        apply hinvalid hv _ _ rfl
      · intro _
        apply hinvalid hv _ _ rfl
    · intro hv
      have hv : c.valid = true := by simpa using hv
      rw [wp_bind, wp_noteCompleting, wp_bind, wp_outside]
      split
      · simp only [wp_pure, wp_bind, wp_canceled, wp_ite, wp_poisoned]
        constructor
        · intro _
          apply hlost hv _ _ _ rfl (.inl rfl)
        · intro _
          apply hlost hv _ _ _ rfl (.inl rfl)
      · simp only [wp_pure, wp_bind, wp_record, wp_canceled, wp_ite, wp_poisoned,
          wp_trace]
        constructor
        · intro _
          apply hlost hv _ _ _ rfl (.inr rfl)
        · intro _
          apply hQ hv

theorem wp_readAny {Q : Reply → Conn φ ω → Prop}
    (hQ : ∀ r replies w, s.replies = .item r :: replies → r.code ≠ 421 →
      Q r { s with world := w, replies := replies, log := s.log ++ [.reply r] })
    (hbefore : (env.canceled .before s.log s.world).1 = true →
      ∀ w, E (some .canceled) { s with world := w }) (hlost : ∀ e w replies log, e.isLocal →
      log = s.log ∨ (∃ r, log = s.log ++ [.reply r]) →
      E (some e) { s with world := w, replies := replies, log := log, state := .closed })
    (h421 : ∀ e r replies w, r.code = 421 → e.code = 421 → E (some (.reply command e)) { s with
      world := w, replies := replies, log := s.log ++ [.reply r], state := .closed }) :
  wp (read opts env command) Q E s
  := by
  rw [read, wp_bind, wp_canceled, wp_ite]
  constructor
  · intro h
    apply hbefore h
  · intro _
    rw [wp_bind]
    apply wp_readReply
    · intro r replies hr
      simp only [wp_bind, wp_canceled, wp_ite, wp_poisoned, wp_read, wp_pure,
        wp_trace]
      constructor
      · intro _
        apply hlost _ _ _ _ rfl (.inr ⟨r, rfl⟩)
      · intro _
        constructor
        · intro hcode
          apply h421 _ r _ _ hcode
          rw [replyError]
          split <;> exact hcode
        · intro hcode
          apply hQ r replies _ hr hcode
    · intro cause replies _
      simp only [wp_bind, wp_canceled, wp_ite, wp_poisoned]
      constructor
      · intro _
        apply hlost _ _ _ _ rfl (.inl rfl)
      · intro _
        apply hlost _ _ _ _ rfl (.inl rfl)

/-- The world after the check of `checkCompletes`. -/
def begun (c : QueuedCommand) (s : Conn φ ω) : ω :=
  if c.completes then (env.canceled .before s.log s.world).2 else s.world

/-- A command is not refused before its write: it is short enough, and the context is not
cancelled yet. -/
structure Admitted (env : Env φ ω) (c : QueuedCommand) (s : Conn φ ω) : Prop where
  opened : s.state ≠ .closed
  short : c.upper.length ≤ maxPipelineBytes
  uncanceled : c.completes → (env.canceled .before s.log s.world).1 = false

/-- The error of a command, as the pipeline reports it. -/
def reported (c : QueuedCommand) (e : ClientError φ) : ClientError φ :=
  if c.completes then e.unknown c.upper.verb else e

/-- A single command is refused, or it is written and its reply is read, or something
fails on the way. -/
theorem wp_executeAny {Q : Reply → Conn φ ω → Prop} {c : QueuedCommand}
    (hQ : ∀ r replies w, Admitted env c s → c.upper.valid → s.replies = .item r :: replies →
      Q r { s with
        world := w
        replies := replies
        log := s.log ++ noted c.completes ++ [.sent c.upper.request 1] ++ [.reply r] })
    (hrefused : ∀ e w, e.isUnknown = false → E (some e) { s with world := w })
    (hcanceled : Admitted env c s → (env.canceled .before s.log (begun env c s)).1 = true →
      ∀ w, E (some (reported c .canceled)) { s with world := w })
    (hinvalid : Admitted env c s → c.upper.valid = false → ∀ e w, e.isLocal →
      E (some (reported c e)) { s with world := w, state := .closed })
    (hlost : ∀ e s' new, e.isLocal → s'.log = s.log ++ noted c.completes ++ new →
      .completing ∉ new → E (some (reported c e)) s')
    (h421 : ∀ e s' r, e.code = 421 → r.code = 421 →
      s'.log = s.log ++ noted c.completes ++ [.sent c.upper.request 1] ++ [.reply r] →
      E (some (reported c (.reply c.upper.verb e))) s') :
  wp (executeOne opts env c) Q E s
  := by
  have hsend (hadmitted : Admitted env c s) :
      wp (do
        classified c.upper (write env c.upper)
        classified c.upper (read opts env c.upper.verb)) Q E { s with world := begun env c s } := by
    rw [wp_bind, classified, wp_mapErr]
    apply wp_writeLine
    · intro hvalid w
      rw [classified, wp_mapErr]
      apply wp_readAny
      · intro r replies w hr _
        apply hQ r replies w hadmitted hvalid hr
      · intro _ w
        apply hlost _ _ [.sent c.upper.request 1] rfl rfl (by simp)
      · rintro e w replies log he (rfl | ⟨r, rfl⟩)
        · apply hlost _ _ [.sent c.upper.request 1] he rfl (by simp)
        · apply hlost _ _ [.sent c.upper.request 1, .reply r] he (List.append_assoc _ _ _) (by simp)
      · intro e r replies w hr he
        apply h421 e _ r he hr rfl
    · intro h w
      apply hcanceled hadmitted h
    · intro hv e w he
      apply hinvalid hadmitted hv e w he
    · rintro _ e w log he (rfl | rfl)
      · apply hlost _ _ [] he (List.append_nil _).symm (by simp)
      · apply hlost _ _ [.sent c.upper.request 1] he rfl (by simp)
  rw [executeOne_eq, wp_bind, wp_read, wp_ite]
  refine ⟨fun _ => hrefused _ s.world rfl, fun hopen => ?_⟩
  have hopen : s.state ≠ .closed := by simpa [Conn.closed] using hopen
  rw [wp_ite]
  refine ⟨fun _ => hrefused _ s.world rfl, fun hshort => ?_⟩
  have hshort : c.upper.length ≤ maxPipelineBytes := Nat.not_lt.mp hshort
  rw [wp_bind, checkCompletes, wp_ite]
  constructor
  · intro hcompletes
    have hcompletes : c.completes = true := hcompletes
    rw [wp_bind, wp_canceled, wp_ite]
    refine ⟨fun _ => hrefused _ _ rfl, fun hno => ?_⟩
    rw [begun, if_pos hcompletes] at hsend
    apply hsend ⟨hopen, hshort, fun _ => by simpa using hno⟩
  · intro hcompletes
    have hcompletes : ¬ c.completes = true := hcompletes
    rw [begun, if_neg hcompletes] at hsend
    apply hsend ⟨hopen, hshort, fun h => absurd h hcompletes⟩

end Rules

/-! ### What the pipeline leaves alone -/

/-- The part of a connection that only the calls themselves change. -/
def Conn.settings (s : Conn φ ω) :
    SessionState × List (Bytes × Bytes) × List Bytes × Bool × Bool :=
  (s.transactionBase, s.ext, s.recipients, s.smtpUTF8, s.binaryMIME)

section Frame

variable {opts : Options} {env : Env φ ω}

theorem keeps_poisoned (e : ClientError φ) :
  Keeps Conn.settings (poisoned e : Call φ ω α)
  := fun _ => rfl

theorem keeps_readReply :
  Keeps Conn.settings (readReply : Call φ ω _)
  := by
  intro s
  rw [readReply]
  split <;> rfl

theorem keeps_encodeCommand (c : QueuedCommand) (kind : LineKind) :
  Keeps Conn.settings (encodeCommand env c kind)
  := by
  apply Keeps.ite
  · apply Keeps.pure
  · apply Keeps.bind
    · rw [noteCompleting]
      apply Keeps.ite
      · exact fun _ => rfl
      · apply Keeps.pure
    · intro _
      apply Keeps.bind fun _ => rfl
      rintro (_ | e)
      · apply Keeps.bind fun _ => rfl
        intro _
        apply Keeps.pure
      · apply Keeps.pure

theorem keeps_writeLine (command : Bytes) (c : QueuedCommand) (kind : LineKind) (told : Bytes) :
  Keeps Conn.settings (writeLine env command c kind told)
  := by
  apply Keeps.bind fun _ => rfl
  intro _
  apply Keeps.ite (Keeps.fail _)
  apply Keeps.bind (keeps_encodeCommand c kind)
  intro e
  apply Keeps.bind fun _ => rfl
  intro _
  apply Keeps.ite (keeps_poisoned _)
  cases e with
  | some cause => apply keeps_poisoned
  | none => exact fun _ => rfl

theorem keeps_read (command : Bytes) :
  Keeps Conn.settings (read opts env command)
  := by
  apply Keeps.bind fun _ => rfl
  intro _
  apply Keeps.ite (Keeps.fail _)
  apply Keeps.bind keeps_readReply
  intro r
  apply Keeps.bind fun _ => rfl
  intro _
  apply Keeps.ite (keeps_poisoned _)
  cases r with
  | error cause => apply keeps_poisoned
  | ok r =>
    apply Keeps.bind fun _ => rfl
    intro _
    apply Keeps.bind Keeps.read
    intro s
    apply Keeps.ite (keeps_poisoned _) (Keeps.pure _)

theorem keeps_checkCompletes (c : QueuedCommand) :
  Keeps Conn.settings (checkCompletes env c)
  := by
  apply Keeps.ite
  · apply Keeps.bind fun _ => rfl
    intro _
    apply Keeps.ite (Keeps.fail _) (Keeps.pure _)
  · apply Keeps.pure

theorem keeps_writeWindow (limit k bytes : Nat) (cmds : List QueuedCommand) :
  Keeps Conn.settings (writeWindow env limit k bytes cmds)
  := by
  induction cmds generalizing k bytes with
  | nil => apply Keeps.pure
  | cons c cmds ih =>
    apply Keeps.ite (Keeps.pure _)
    apply Keeps.ite (Keeps.fail _)
    apply Keeps.ite (Keeps.pure _)
    apply Keeps.bind (keeps_checkCompletes c)
    intro _
    apply Keeps.bind ((keeps_writeLine _ _ _ _).mapErr _)
    intro _
    apply Keeps.ite (Keeps.pure _)
    apply Keeps.bind (ih _ _)
    intro x
    apply Keeps.pure

theorem keeps_readWindow (cmds : List QueuedCommand) :
  Keeps Conn.settings (readWindow opts env cmds)
  := by
  induction cmds with
  | nil => apply Keeps.pure
  | cons c cmds ih =>
    apply Keeps.bind ((keeps_read _).mapErr _)
    intro r
    apply Keeps.bind ih
    intro rs
    apply Keeps.pure

theorem keeps_windows (n : Nat) (cmds : List QueuedCommand) :
  Keeps Conn.settings (windows opts env n cmds)
  := by
  induction n generalizing cmds with
  | zero => cases cmds <;> apply Keeps.pure
  | succ n ih =>
    cases cmds with
    | nil => apply Keeps.pure
    | cons c cmds =>
      apply Keeps.bind Keeps.read
      intro s
      apply Keeps.bind (keeps_writeWindow _ _ _ _)
      rintro ⟨window, rest⟩
      apply Keeps.bind (keeps_readWindow window)
      intro rs
      apply Keeps.bind (ih rest)
      intro rs'
      apply Keeps.pure

theorem keeps_executeLocked (opts : Options) (env : Env φ ω) (cmds : List QueuedCommand) :
  Keeps Conn.settings (executeLocked opts env cmds)
  := by
  apply Keeps.ite (Keeps.pure _)
  split
  · apply Keeps.fail
  · apply Keeps.bind Keeps.read
    intro s
    apply Keeps.ite (Keeps.fail _) (keeps_windows _ _)

end Frame

end GoSmtp.Client
