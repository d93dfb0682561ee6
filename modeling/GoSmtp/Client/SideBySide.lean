import GoSmtp.Client.Calls
import GoSmtp.Lib.Twins
import Mathlib.Data.List.Forall2

/-!
# Sessions side by side

Two sessions of the client, for which the outside answers alike.  A view says how far the two
may be apart: which worlds and which logs stand for each other, and whether challenges and
the lines of an AUTH exchange are hidden.  Calls that agree on everything else keep the two
connections together, and return the same.
-/

namespace GoSmtp.Client

open Exec

variable {φ ω α β μ : Type}
variable {c c' : QueuedCommand} {m : Call φ ω α} {m' : Call φ ω β} {cmds : List QueuedCommand}

open Sasl

/-! ### What may differ -/

/-- Equal replies, up to the contents of challenges if these are hidden. -/
inductive Reply.Alike (hide : Bool) : Reply → Reply → Prop where
  | refl (r : Reply) : Alike hide r r
  | challenge {r r' : Reply} (h : hide = true) (hr : r.code = 334) (hr' : r'.code = 334) :
      Alike hide r r'

namespace Reply.Alike

variable {hide : Bool} {r r' : Reply}

theorem code_eq (h : r.Alike hide r') :
  r.code = r'.code
  := by
  cases h with
  | refl => rfl
  | challenge _ hr hr' => rw [hr, hr']

theorem eq_of_code_ne (h : r.Alike hide r') (hr : r.code ≠ 334) :
  r = r'
  := by
  cases h with
  | refl => rfl
  | challenge _ hr' => exact absurd hr' hr

theorem eq_of_shown (h : r.Alike hide r') (hhide : hide = false) :
  r = r'
  := by
  cases h with
  | refl => rfl
  | challenge h => rw [hhide] at h; cases h

theorem traceReplyLine_eq (h : r.Alike hide r') :
  traceReplyLine r = traceReplyLine r'
  := by
  cases h with
  | refl => rfl
  | challenge _ hr hr' => rw [traceReplyLine, traceReplyLine, if_pos hr, if_pos hr']

end Reply.Alike

/-- Two events of the feeds. -/
inductive EventAlike (hide : Bool) : Event Reply φ → Event Reply φ → Prop where
  | item {r r' : Reply} (h : r.Alike hide r') : EventAlike hide (.item r) (.item r')
  | fault (e : φ) : EventAlike hide (.fault e) (.fault e)

/-- Feeds that agree event by event. -/
def FeedAlike (hide : Bool) (f f' : Feed Reply φ) : Prop := List.Forall₂ (EventAlike hide) f f'

theorem FeedAlike.refl (hide : Bool) (f : Feed Reply φ) :
  FeedAlike hide f f
  := by
  apply List.forall₂_same.mpr
  intro e _
  cases e with
  | item r => exact .item (.refl r)
  | fault e => exact .fault e

/-- Two events of the logs: the lines of an AUTH exchange may be hidden. -/
inductive WireEvent.Alike (hide : Bool) : WireEvent → WireEvent → Prop where
  | refl (e : WireEvent) : Alike hide e e
  | reply {r r' : Reply} (h : r.Alike hide r') : Alike hide (.reply r) (.reply r')
  | auth (h : hide = true) (text text' : Bytes) (n : Nat) :
      Alike hide (.sent (.line text .auth) n) (.sent (.line text' .auth) n)

/-- Equal, unless it is hidden. -/
def Veiled (hide : Bool) (a b : α) : Prop := hide = false → a = b

theorem Veiled.refl (hide : Bool) (a : α) :
  Veiled hide a a
  := fun _ => rfl

theorem Veiled.map {hide : Bool} {a b : α} (h : Veiled hide a b) (f : α → β) :
  Veiled hide (f a) (f b)
  := fun hhide => congrArg f (h hhide)

/-- Lines that differ only in an AUTH exchange, if it is hidden. -/
structure QueuedCommand.LineAlike (hide : Bool) (kind : LineKind) (c c' : QueuedCommand) :
    Prop where
  completes : c.completes = c'.completes
  valid : c.valid = c'.valid
  kept : c = c' ∨ kind = .auth
  shown : Veiled hide c c'

/-- Commands of which the trace is told the same.  Those of AUTH may differ. -/
structure QueuedCommand.Alike (hide : Bool) (c c' : QueuedCommand) : Prop
    extends c.LineAlike hide c.kind c' where
  verb : c.verb = c'.verb
  told : traceCommandLine c = traceCommandLine c'

theorem QueuedCommand.Alike.refl (hide : Bool) (c : QueuedCommand) :
  c.Alike hide c
  := ⟨⟨rfl, rfl, .inl rfl, .refl hide c⟩, rfl, rfl⟩

/-- Two results of a call: both have an error, or none has. -/
structure Returned.Alike (hide : Bool) (x y : Returned φ) : Prop where
  failed : x.err.isSome = y.err.isSome
  shown : Veiled hide x y

theorem Returned.Alike.refl (hide : Bool) (x : Returned φ) :
  x.Alike hide x
  := ⟨rfl, .refl hide x⟩

/-! ### Writing -/

/-- The operations that a write is made of keep two connections in a relation. -/
structure InPace (hide : Bool) (env : Env φ ω) (R : Conn φ ω → Conn φ ω → Prop) : Prop where
  canceled : ∀ c, Exec.Twins R Eq (Veiled hide) R (canceled env c) (canceled env c)
  poison : Exec.Twins R (fun _ _ => True) (Veiled hide) R poison poison
  record : ∀ {e e'}, e.Alike hide e' →
    Exec.Twins R (fun _ _ => True) (Veiled hide) R (record e) (record e')
  output : ∀ {o o'}, Veiled hide o o' →
    Exec.Twins R Eq (Veiled hide) R (outside (env.write o)) (outside (env.write o'))
  trace : ∀ direction line,
    Exec.Twins R (fun _ _ => True) (Veiled hide) R (trace env direction line)
      (trace env direction line)

section Writing

variable {hide : Bool} {env : Env φ ω} {R : Conn φ ω → Conn φ ω → Prop}

theorem twins_classified (hc : c.Alike hide c') {V : α → β → Prop}
    (h : Exec.Twins R V (Veiled hide) R m m') :
  Exec.Twins R V (Veiled hide) R (classified c m) (classified c' m')
  := by
  apply h.mapErr
  intro e e' he
  rw [hc.completes, hc.verb]
  apply he.map fun e => if c'.completes then e.unknown c'.verb else e

variable (h : InPace hide env R)
include h

theorem inPace_poisoned {V : α → β → Prop} {e e' : ClientError φ} (he : Veiled hide e e') :
  Exec.Twins R V (Veiled hide) R (poisoned e) (poisoned e')
  := h.poison.bind fun _ _ _ => .fail he

theorem inPace_ifCanceled (c : Check) {V : α → β → Prop} {k : Call φ ω α} {k' : Call φ ω β}
    (hm : Exec.Twins R V (Veiled hide) R m m') (hk : Exec.Twins R V (Veiled hide) R k k') :
  Exec.Twins R V (Veiled hide) R (do if ← canceled env c then m else k)
    (do if ← canceled env c then m' else k')
  := by
  apply (h.canceled c).bind
  rintro answer _ rfl
  apply Twins.ite Iff.rfl
  · apply hm
  · apply hk

theorem inPace_noteCompleting (completes : Bool) :
  Exec.Twins R (fun _ _ => True) (Veiled hide) R (noteCompleting completes)
    (noteCompleting completes)
  := by
  apply Twins.ite Iff.rfl
  · apply h.record (.refl _)
  · apply Twins.pure trivial

theorem inPace_encodeCommand {kind : LineKind} (hc : c.LineAlike hide kind c') :
  Exec.Twins R Eq (Veiled hide) R (encodeCommand env c kind) (encodeCommand env c' kind)
  := by
  apply Twins.ite (by rw [hc.valid])
  · apply Twins.pure rfl
  · rw [hc.completes]
    apply (inPace_noteCompleting h _).bind
    intro _ _ _
    apply (h.output (hc.shown.map fun c => c.line ++ crlf)).bind
    rintro e _ rfl
    split
    · apply Twins.pure rfl
    · have hevent : (WireEvent.sent (.line c.line kind) 1).Alike hide
          (.sent (.line c'.line kind) 1) := by
        rcases hc.kept with rfl | rfl
        · apply WireEvent.Alike.refl
        · by_cases hhide : hide = false
          · rw [hc.shown hhide]
            apply WireEvent.Alike.refl
          · apply WireEvent.Alike.auth (by simpa using hhide)
      apply (h.record hevent).bind
      intro _ _ _
      apply Twins.pure rfl

theorem inPace_writeLine (command : Bytes) {kind : LineKind}
    (hc : c.LineAlike hide kind c') (told : Bytes) :
  Exec.Twins R (fun _ _ => True) (Veiled hide) R (writeLine env command c kind told)
    (writeLine env command c' kind told)
  := by
  apply inPace_ifCanceled h
  · apply Twins.fail (.refl _ _)
  · apply (inPace_encodeCommand h hc).bind
    rintro e _ rfl
    apply inPace_ifCanceled h
    · apply inPace_poisoned h (.refl _ _)
    · split
      · apply inPace_poisoned h (.refl _ _)
      · apply h.trace

theorem inPace_write (hc : c.Alike hide c') :
  Exec.Twins R (fun _ _ => True) (Veiled hide) R (write env c) (write env c')
  := by
  have hkind : c.kind = c'.kind := by
    rw [QueuedCommand.kind, QueuedCommand.kind, hc.verb]
  rw [write, write, hc.verb, hkind, hc.told]
  apply inPace_writeLine h
  rw [← hkind]
  apply hc.toLineAlike

theorem inPace_checkCompletes (hc : c.Alike hide c') :
  Exec.Twins R (fun _ _ => True) (Veiled hide) R (checkCompletes env c) (checkCompletes env c')
  := by
  apply Twins.ite (by rw [hc.completes])
  · apply inPace_ifCanceled h
    · apply Twins.fail (.refl _ _)
    · apply Twins.pure trivial
  · apply Twins.pure trivial

end Writing

/-! ### Views -/

/-- How far two sessions may be apart. -/
structure View (ω : Type) where
  /-- Challenges, responses and errors may differ. -/
  hide : Bool
  /-- The worlds that stand for each other. -/
  worlds : ω → ω → Prop
  /-- The logs that stand for each other. -/
  logs : List WireEvent → List WireEvent → Prop

namespace View

/-- The outside answers both sessions alike. -/
structure Uniform (v : View ω) (env : Env φ ω) : Prop where
  canceled : ∀ c {l l' w w'}, v.logs l l' → v.worlds w w' →
    (env.canceled c l w).1 = (env.canceled c l' w').1
      ∧ v.worlds (env.canceled c l w).2 (env.canceled c l' w').2
  write : ∀ {o o' w w'}, Veiled v.hide o o' → v.worlds w w' →
    (env.write o w).1 = (env.write o' w').1 ∧ v.worlds (env.write o w).2 (env.write o' w').2
  watcher : ∀ {w w'}, v.worlds w w' →
    (env.watcher w).1 = (env.watcher w').1 ∧ v.worlds (env.watcher w).2 (env.watcher w').2
  handshake : ∀ {w w'}, v.worlds w w' →
    (env.handshake w).1.Rel (FeedAlike v.hide) Eq (env.handshake w').1
      ∧ v.worlds (env.handshake w).2 (env.handshake w').2
  extraReply : ∀ {w w'}, v.worlds w w' →
    (env.extraReply w).1 = (env.extraReply w').1
      ∧ v.worlds (env.extraReply w).2 (env.extraReply w').2
  trace : ∀ e {w w'}, v.worlds w w' → v.worlds (env.trace e w) (env.trace e w')
  log : ∀ {e e' l l'}, e.Alike v.hide e' → v.logs l l' → v.logs (l ++ [e]) (l' ++ [e'])

/-- Two connections that stand for each other. -/
structure Twin (v : View ω) (s s' : Conn φ ω) : Prop where
  replies : FeedAlike v.hide s.replies s'.replies
  worlds : v.worlds s.world s'.world
  state : s.state = s'.state
  settings : s.settings = s'.settings
  logs : v.logs s.log s'.log

/-- Two calls that keep the connections together. -/
abbrev Twins (v : View ω) (V : α → β → Prop) (m : Call φ ω α) (m' : Call φ ω β) : Prop :=
  Exec.Twins v.Twin V (Veiled v.hide) v.Twin m m'

namespace Twin

variable {v : View ω} {s s' : Conn φ ω}

theorem closed_eq (h : v.Twin s s') :
  s.closed = s'.closed
  := by
  rw [Conn.closed, Conn.closed, h.state]

theorem ext_eq (h : v.Twin s s') :
  s.ext = s'.ext
  := congrArg (·.2.1) h.settings

theorem recipients_eq (h : v.Twin s s') :
  s.recipients = s'.recipients
  := congrArg (·.2.2.1) h.settings

theorem transactionBase_eq (h : v.Twin s s') :
  s.transactionBase = s'.transactionBase
  := congrArg (·.1) h.settings

theorem smtpUTF8_eq (h : v.Twin s s') :
  s.smtpUTF8 = s'.smtpUTF8
  := congrArg (·.2.2.2.1) h.settings

theorem binaryMIME_eq (h : v.Twin s s') :
  s.binaryMIME = s'.binaryMIME
  := congrArg (·.2.2.2.2) h.settings

theorem advertises_eq (h : v.Twin s s') (keyword : Bytes) :
  s.advertises keyword = s'.advertises keyword
  := by
  rw [Conn.advertises, Conn.advertises, h.ext_eq]

theorem enhancedStatusCodes_eq (h : v.Twin s s') :
  s.enhancedStatusCodes = s'.enhancedStatusCodes
  := h.advertises_eq _

theorem assign (h : v.Twin s s') {state state' base base' : SessionState}
    {ext ext' : List (Bytes × Bytes)} {recipients recipients' : List Bytes} {u u' b b' : Bool}
    (hstate : state = state') (hbase : base = base') (hext : ext = ext')
    (hrecipients : recipients = recipients') (hu : u = u') (hb : b = b') :
  v.Twin { s with state := state, transactionBase := base, ext := ext,
                  recipients := recipients, smtpUTF8 := u, binaryMIME := b }
    { s' with state := state', transactionBase := base', ext := ext',
              recipients := recipients', smtpUTF8 := u', binaryMIME := b' }
  := by
  subst hstate hbase hext hrecipients hu hb
  exact ⟨h.replies, h.worlds, rfl, rfl, h.logs⟩

end Twin

/-! ### Operations -/

section Operations

variable {v : View ω} {env : Env φ ω}

theorem twins_poison :
  v.Twins (fun _ _ => True) (poison : Call φ ω Unit) poison
  := by
  apply Twins.update
  intro s s' hs
  apply hs.assign rfl hs.transactionBase_eq hs.ext_eq hs.recipients_eq hs.smtpUTF8_eq
    hs.binaryMIME_eq

theorem twins_poisoned {V : α → β → Prop} {e e' : ClientError φ} (he : Veiled v.hide e e') :
  v.Twins V (poisoned e) (poisoned e')
  := twins_poison.bind fun _ _ _ => .fail he

theorem twins_unlessClosed {f g : Conn φ ω → Conn φ ω}
    (h : ∀ s s', v.Twin s s' → v.Twin (f s) (g s')) :
  v.Twins (fun _ _ => True) (unlessClosed f) (unlessClosed g)
  := by
  apply Twins.update
  intro s s' hs
  simp only [hs.closed_eq]
  split
  · exact hs
  · apply h s s' hs

theorem twins_outside {V : α → β → Prop} {f : ω → α × ω} {f' : ω → β × ω}
    (h : ∀ {w w'}, v.worlds w w' → V (f w).1 (f' w').1 ∧ v.worlds (f w).2 (f' w').2) :
  v.Twins V (outside f : Call φ ω α) (outside f')
  := by
  intro s s' hs
  obtain ⟨hvalue, hworlds⟩ := h hs.worlds
  exact ⟨.ok hvalue, ⟨hs.replies, hworlds, hs.state, hs.settings, hs.logs⟩⟩

theorem unexpectedReply_alike {hide : Bool} (opts : Options) (command : Bytes) {r r' : Reply}
    (hr : r.Alike hide r') (enhanced : Bool) (want : List Int) :
  (r.code ∈ want ∧ (unexpectedReply opts command r enhanced want : Option (ClientError φ)) = none
      ∧ (unexpectedReply opts command r' enhanced want : Option (ClientError φ)) = none)
    ∨ ∃ e e' : ClientError φ, unexpectedReply opts command r enhanced want = some e
      ∧ unexpectedReply opts command r' enhanced want = some e' ∧ Veiled hide e e'
  := by
  have hcode := hr.code_eq
  by_cases h : r.code ∈ want
  · left
    rw [unexpectedReply, unexpectedReply, if_pos h, if_pos (hcode ▸ h)]
    exact ⟨h, rfl, rfl⟩
  · right
    have h' : r'.code ∉ want := hcode ▸ h
    simp only [unexpectedReply, if_neg h', hcode]
    split
    · refine ⟨_, _, rfl, rfl, fun hhide => ?_⟩
      rw [hr.eq_of_shown hhide]
    · exact ⟨_, _, rfl, rfl, .refl _ _⟩

theorem twins_expectReply (opts : Options) (command : Bytes) {r r' : Reply}
    (hr : r.Alike v.hide r') (want : List Int) :
  v.Twins (fun _ _ => r.code ∈ want) (expectReply opts command r want : Call φ ω Unit)
    (expectReply opts command r' want)
  := by
  apply Twins.read
  intro s s' hs
  rw [hs.enhancedStatusCodes_eq]
  obtain ⟨hcode, h, h'⟩ | ⟨e, e', h, h', he⟩ :=
    unexpectedReply_alike opts command hr s'.enhancedStatusCodes want
  · rw [h, h']
    apply Twins.pure
    apply hcode
  · rw [h, h']
    apply Twins.fail he

theorem twins_requireState (command : Bytes) (allowed : List SessionState) :
  v.Twins (fun _ _ => True) (requireState command allowed : Call φ ω Unit)
    (requireState command allowed)
  := by
  apply Twins.read
  intro s s' hs
  rw [hs.state]
  apply Twins.ite Iff.rfl
  · apply Twins.pure trivial
  · apply Twins.fail (.refl _ _)

variable (henv : v.Uniform env)
include henv

theorem twins_canceled (c : Check) :
  v.Twins Eq (canceled env c) (canceled env c)
  := by
  intro s s' hs
  obtain ⟨hanswer, hworlds⟩ := henv.canceled c hs.logs hs.worlds
  exact ⟨.ok hanswer, ⟨hs.replies, hworlds, hs.state, hs.settings, hs.logs⟩⟩

theorem twins_trace (direction : TraceDirection) (line : Bytes) :
  v.Twins (fun _ _ => True) (trace env direction line) (trace env direction line)
  := twins_outside fun hw => ⟨trivial, henv.trace _ hw⟩

theorem twins_record {e e' : WireEvent} (he : e.Alike v.hide e') :
  v.Twins (fun _ _ => True) (record e : Call φ ω Unit) (record e')
  := by
  apply Twins.update
  intro s s' hs
  exact ⟨hs.replies, hs.worlds, hs.state, hs.settings, henv.log he hs.logs⟩

theorem Uniform.inPace :
  InPace v.hide env v.Twin
  where
  canceled c := twins_canceled henv c
  poison := twins_poison
  record he := twins_record henv he
  output ho := twins_outside fun hw => henv.write ho hw
  trace direction line := twins_trace henv direction line

theorem twins_ifCanceled (c : Check) {V : α → β → Prop} {k : Call φ ω α} {k' : Call φ ω β}
    (hm : v.Twins V m m') (hk : v.Twins V k k') :
  v.Twins V (do if ← canceled env c then m else k) (do if ← canceled env c then m' else k')
  := inPace_ifCanceled henv.inPace c hm hk

theorem twins_readReply :
  v.Twins (Except.Rel (Reply.Alike v.hide) Eq) (readReply : Call φ ω _) readReply
  := by
  intro s s' hs
  have hreplies := hs.replies
  rcases h : s.replies with _ | ⟨x, rest⟩ <;> rcases h' : s'.replies with _ | ⟨x', rest'⟩ <;>
    rw [h, h'] at hreplies <;> cases hreplies
  · simp only [readReply, h, h', Feed.next]
    exact ⟨.ok (.error rfl), ⟨.nil, hs.worlds, hs.state, hs.settings, hs.logs⟩⟩
  · next hx hrest =>
    cases hx with
    | item hr =>
      simp only [readReply, h, h', Feed.next]
      exact ⟨.ok (.ok hr),
        ⟨hrest, hs.worlds, hs.state, hs.settings, henv.log (.reply hr) hs.logs⟩⟩
    | fault e =>
      simp only [readReply, h, h', Feed.next]
      exact ⟨.ok (.error rfl), ⟨hrest, hs.worlds, hs.state, hs.settings, hs.logs⟩⟩

end Operations

/-! ### The pipeline -/

section Pipeline

variable {v : View ω} {env : Env φ ω}

variable (henv : v.Uniform env)
include henv

theorem twins_read (opts : Options) (command : Bytes) :
  v.Twins (Reply.Alike v.hide) (read opts env command) (read opts env command)
  := by
  apply twins_ifCanceled henv
  · apply Twins.fail (.refl _ _)
  · apply (twins_readReply henv).bind
    intro x y hxy
    apply twins_ifCanceled henv
    · apply twins_poisoned (.refl _ _)
    · cases hxy with
      | ok hr =>
        simp only [hr.traceReplyLine_eq]
        apply (twins_trace henv _ _).bind
        intro _ _ _
        apply Twins.read
        intro s s' hs
        apply Twins.cond (by rw [hr.code_eq])
        · intro hcode
          obtain rfl := hr.eq_of_code_ne (by rw [hcode]; decide)
          rw [hs.enhancedStatusCodes_eq]
          apply twins_poisoned (.refl _ _)
        · intro _
          apply Twins.pure hr
      | error h =>
        subst h
        apply twins_poisoned (.refl _ _)

theorem twins_writeWindow (limit : Nat) {k bytes : Nat} :
  v.Twins Eq (writeWindow env limit k bytes cmds) (writeWindow env limit k bytes cmds)
  := by
  induction cmds generalizing k bytes with
  | nil =>
    apply Twins.pure rfl
  | cons c cmds ih =>
    simp only [writeWindow]
    apply Twins.ite Iff.rfl
    · apply Twins.pure rfl
    apply Twins.ite Iff.rfl
    · apply Twins.fail (.refl _ _)
    apply Twins.ite Iff.rfl
    · apply Twins.pure rfl
    apply (inPace_checkCompletes henv.inPace (.refl _ c)).bind
    intro _ _ _
    apply (twins_classified (.refl _ c) (inPace_write henv.inPace (.refl _ c))).bind
    intro _ _ _
    apply Twins.ite Iff.rfl
    · apply Twins.pure rfl
    · apply ih.bind
      rintro x _ rfl
      apply Twins.pure rfl

theorem twins_readWindow (opts : Options) :
  v.Twins (List.Forall₂ (Reply.Alike v.hide)) (readWindow opts env cmds)
    (readWindow opts env cmds)
  := by
  induction cmds with
  | nil =>
    apply Twins.pure .nil
  | cons c cmds ih =>
    apply (twins_classified (.refl _ c) (twins_read henv opts c.verb)).bind
    intro r r' hr
    apply ih.bind
    intro rs rs' hrs
    apply Twins.pure (.cons hr hrs)

theorem twins_windows (opts : Options) {n : Nat} :
  v.Twins (List.Forall₂ (Reply.Alike v.hide)) (windows opts env n cmds)
    (windows opts env n cmds)
  := by
  induction n generalizing cmds with
  | zero =>
    cases cmds <;> exact Twins.pure .nil
  | succ n ih =>
    cases cmds with
    | nil =>
      apply Twins.pure .nil
    | cons c cmds =>
      apply Twins.read
      intro s s' hs
      have hdepth : depth s = depth s' := by
        rw [depth, depth, hs.advertises_eq]
      rw [hdepth]
      apply (twins_writeWindow henv _).bind
      rintro x _ rfl
      apply (twins_readWindow henv opts).bind
      intro rs rs' hrs
      apply ih.bind
      intro ts ts' hts
      apply Twins.pure (List.rel_append hrs hts)

theorem twins_executeLocked (opts : Options) (cmds : List QueuedCommand) :
  v.Twins (List.Forall₂ (Reply.Alike v.hide)) (executeLocked opts env cmds)
    (executeLocked opts env cmds)
  := by
  apply Twins.ite Iff.rfl
  · apply Twins.pure .nil
  · split
    · apply Twins.fail (.refl _ _)
    · apply Twins.read
      intro s s' hs
      apply Twins.ite (by rw [hs.closed_eq])
      · apply Twins.fail (.refl _ _)
      · apply twins_windows henv

theorem twins_executeOne (opts : Options) (hc : c.upper.Alike v.hide c'.upper)
    (hlength : c.upper.length > maxPipelineBytes ↔ c'.upper.length > maxPipelineBytes) :
  v.Twins (Reply.Alike v.hide) (executeOne opts env c) (executeOne opts env c')
  := by
  rw [executeOne_eq, executeOne_eq]
  apply Twins.read
  intro s s' hs
  apply Twins.ite (by rw [hs.closed_eq])
  · apply Twins.fail (.refl _ _)
  apply Twins.ite hlength
  · rw [hc.verb]
    apply Twins.fail (.refl _ _)
  apply (inPace_checkCompletes henv.inPace hc).bind
  intro _ _ _
  apply (twins_classified hc (inPace_write henv.inPace hc)).bind
  intro _ _ _
  rw [hc.verb]
  apply twins_classified hc (twins_read henv opts _)

end Pipeline

end View

end GoSmtp.Client
