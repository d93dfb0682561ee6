import GoSmtp.Client.Calls

/-!
# Replies and their commands

A client and its server are in step when every line that the client has written is
answered, and the server waits for a command.  A call on a connection that is in step
leaves it in step, or closes it, and the replies that a group of commands returns are the
replies to its commands.

Two kinds of early returns break this.  The context is looked at before an operation
touches the connection, and if it is cancelled there the call returns although replies are
still to come; and so it does at a command that is too long, behind commands of the same
window.  The first kind is excluded by `Calm`, the second by `longBehind`.
-/

namespace GoSmtp.Client

open Exec

variable {φ ω α μ : Type}
variable {Q : List Reply → Conn φ ω → Prop}
variable {bytes k limit n : Nat} {q : Request} {env : Env φ ω} {command : Bytes}
variable {s : Conn φ ω} {cmds : List QueuedCommand} {log : List WireEvent} {c : QueuedCommand}

/-! ### In step -/

/-- Every request is answered. -/
def Drained (log : List WireEvent) : Prop := (dialogue log).fifo.queue = []

/-- Every request is answered, and the server waits for a command. -/
structure InStep (log : List WireEvent) : Prop where
  drained : Drained log
  expects : (dialogue log).expects = .command

theorem inStep_nil :
  InStep []
  := ⟨rfl, rfl⟩

/-- The context is not found cancelled before an operation while the server owes a reply or
is in the middle of an exchange. -/
def Calm (env : Env φ ω) : Prop :=
  ∀ log w, ¬ InStep log → (env.canceled .before log w).1 = false

/-- The connection is closed, or in step. -/
def Settled (s : Conn φ ω) : Prop := s.state = .closed ∨ InStep s.log

/-- The connection is closed, or has no request to be answered. -/
def Quiet (s : Conn φ ω) : Prop := s.state = .closed ∨ Drained s.log

theorem Settled.quiet (h : Settled s) :
  Quiet s
  := h.imp id InStep.drained

/-! ### Windows -/

/-- Whether a command of the group is too long and stands in a window behind others.  `k`
commands with `bytes` octets are already in the window. -/
def longBehind (limit : Nat) : Nat → Nat → List QueuedCommand → Bool
  | _, _, [] => false
  | k, bytes, c :: cmds =>
    if 0 < k ∧ k < limit ∧ c.length > maxPipelineBytes then true
    else if c.length > maxPipelineBytes then false
    else if 0 < k ∧ k < limit ∧ bytes + c.length ≤ maxPipelineBytes then
      longBehind limit (if c.syncPoint then 0 else k + 1) (bytes + c.length) cmds
    else longBehind limit (if c.syncPoint then 0 else 1) c.length cmds

theorem longBehind_start (h : longBehind limit k bytes (c :: cmds) = false)
    (hfull : limit ≤ k ∨ bytes + c.length > maxPipelineBytes) :
  longBehind limit 0 0 (c :: cmds) = false
  := by
  have hfit : ¬ (0 < k ∧ k < limit ∧ bytes + c.length ≤ maxPipelineBytes) := by omega
  simp only [longBehind, hfit, if_false, Nat.lt_irrefl, false_and] at h ⊢
  split at h
  · cases h
  · exact h

theorem longBehind_zero (limit bytes : Nat) (cmds : List QueuedCommand) :
  longBehind limit 0 bytes cmds = longBehind limit 0 0 cmds
  := by
  cases cmds <;> simp [longBehind]

@[simp]
theorem dialogue_noted (log : List WireEvent) (completes : Bool) :
  dialogue (log ++ noted completes) = dialogue log
  := by
  cases completes <;> simp [noted, Dialogue.step]

theorem dialogue_line (log : List WireEvent) (completes : Bool) (text : Bytes) (kind : LineKind) :
  dialogue (log ++ noted completes ++ [.sent (.line text kind) 1])
    = ⟨(dialogue log).fifo.ask (.line text kind) 1, (dialogue log).expects⟩
  := by
  rw [dialogue_append, dialogue_noted]
  simp [Dialogue.step]

theorem Calm.drained (hcalm : Calm env) {w : ω} (h : (env.canceled .before log w).1 = true) :
  InStep log
  := by
  by_contra hno
  simp [hcalm log w hno] at h

section Groups

variable {opts : Options} {env : Env φ ω} (hcalm : Calm env)
include hcalm

theorem wp_writeLine_calm {Q : Unit → Conn φ ω → Prop} {kind : LineKind} {told : Bytes}
    (hQ : ∀ w log, dialogue log
        = ⟨(dialogue s.log).fifo.ask (.line c.line kind) 1, (dialogue s.log).expects⟩ →
      Q () { s with world := w, log := log }) :
  wp (writeLine env command c kind told) Q (fun _ => Settled) s
  := by
  apply wp_writeLine
  · intro _ w
    apply hQ w _ (dialogue_line _ _ _ _)
  · intro h w
    exact .inr (hcalm.drained h)
  · intro _ e w _
    exact .inl rfl
  · intro _ e w log _ _
    exact .inl rfl

/-- A reply that is due goes to the request that waits for it, or the connection is
closed. -/
theorem wp_read_due {Q : Reply → Conn φ ω → Prop}
    {queue : List Request} (hq : (dialogue s.log).fifo.queue = q :: queue)
    (hQ : ∀ r replies w log, s.replies = .item r :: replies →
      dialogue log
        = ⟨⟨queue, (dialogue s.log).fifo.pairs ++ [(q, r)]⟩, Dialogue.after r (some q)⟩ →
      Q r { s with world := w, replies := replies, log := log }) :
  wp (read opts env command) Q (fun _ s => s.state = .closed) s
  := by
  apply wp_readAny
  · intro r replies w hr _
    apply hQ r replies w _ hr
    rw [dialogue_append, Dialogue.step, Fifo.answer_of_queue hq, Fifo.next, hq]
    rfl
  · intro h
    have hempty := hq.symm.trans (hcalm.drained h).drained
    cases hempty
  · intro e w replies log _ _
    rfl
  · intro e r replies w _ _
    rfl

theorem wp_checkCompletes_calm {Q : Unit → Conn φ ω → Prop} (hQ : ∀ w, Q () { s with world := w }) :
  wp (checkCompletes env c) Q (fun _ => Settled) s
  := by
  rw [checkCompletes, wp_ite]
  constructor
  · intro _
    simp only [wp_bind, wp_canceled, wp_ite, wp_fail, wp_pure]
    constructor
    · intro h
      exact .inr (hcalm.drained h)
    · intro _
      apply hQ
  · intro _
    apply hQ

theorem wp_writeWindow {Q : List QueuedCommand × List QueuedCommand → Conn φ ω → Prop}
    (hlimit : 0 < limit)
    (hlong : longBehind limit k bytes cmds = false) (hstart : k = 0 → bytes = 0 ∧ Drained s.log)
    (hQ : ∀ window rest w log, cmds = window ++ rest → (k = 0 → cmds ≠ [] → window ≠ []) →
      longBehind limit 0 0 rest = false →
      dialogue log = ⟨⟨(dialogue s.log).fifo.queue ++ window.map QueuedCommand.request,
        (dialogue s.log).fifo.pairs⟩, (dialogue s.log).expects⟩ →
      Q (window, rest) { s with world := w, log := log }) :
  wp (writeWindow env limit k bytes cmds) Q (fun _ => Quiet) s
  := by
  -- The induction follows the commands; the window is what they have in common.
  induction cmds generalizing k bytes s Q with
  | nil =>
    rw [writeWindow]
    apply hQ [] [] s.world s.log rfl (by simp) rfl
    rw [List.map_nil, List.append_nil]
  | cons c cmds ih =>
    have hstop (hk : k ≠ 0) (hfull : limit ≤ k ∨ bytes + c.length > maxPipelineBytes) :
        Q ([], c :: cmds) s := by
      apply hQ [] (c :: cmds) s.world s.log rfl (fun h => absurd h hk)
        (longBehind_start hlong hfull)
      rw [List.map_nil, List.append_nil]
    rw [writeWindow, wp_ite]
    constructor
    · intro hfull
      apply hstop (by omega) (.inl hfull)
    intro hroom
    rw [wp_ite]
    constructor
    · intro hlen
      right
      apply (hstart _).2
      by_contra hk
      rw [longBehind, if_pos ⟨by omega, by omega, hlen⟩] at hlong
      cases hlong
    intro hlen
    rw [wp_ite]
    constructor
    · rintro ⟨hk, hfull⟩
      apply hstop (by omega) (.inr hfull)
    intro hfit
    have hnext : longBehind limit (if c.syncPoint then 0 else k + 1) (bytes + c.length) cmds
        = false := by
      rw [longBehind, if_neg (by omega), if_neg hlen] at hlong
      rcases Nat.eq_zero_or_pos k with rfl | hk
      · rw [if_neg (by omega)] at hlong
        rw [(hstart rfl).1, Nat.zero_add, Nat.zero_add]
        exact hlong
      · rw [if_pos (by omega)] at hlong
        exact hlong
    rw [wp_bind]
    refine wp_mono (wp_checkCompletes_calm hcalm fun w => ?_) (fun _ _ => id)
      fun _ _ h => h.quiet
    rw [wp_bind, classified, wp_mapErr]
    refine wp_mono (wp_writeLine_calm hcalm fun w log hlog => ?_) (fun _ _ => id)
      fun _ _ h => h.quiet
    rw [wp_ite]
    constructor
    · intro hsync
      rw [if_pos hsync, longBehind_zero] at hnext
      apply hQ [c] cmds w log rfl (by simp) hnext
      rw [hlog]
      rfl
    · intro hsync
      rw [if_neg hsync] at hnext
      rw [wp_bind]
      apply ih hnext (by omega)
      intro window rest w log' hcmds _ hrest hlog'
      apply hQ (c :: window) rest w log' (by rw [hcmds, List.cons_append]) (by simp) hrest
      rw [hlog', hlog]
      simp [QueuedCommand.request]

theorem wp_readWindow {window : List QueuedCommand}
    (hq : (dialogue s.log).fifo.queue = window.map QueuedCommand.request)
    (hQ : ∀ rs replies w log, rs.length = window.length →
      (dialogue log).fifo
        = ⟨[], (dialogue s.log).fifo.pairs ++ (window.map QueuedCommand.request).zip rs⟩ →
      Q rs { s with world := w, replies := replies, log := log }) :
  wp (readWindow opts env window) Q (fun _ => Quiet) s
  := by
  induction window generalizing s Q with
  | nil =>
    apply hQ [] s.replies s.world s.log rfl
    rw [List.zip_nil_right, List.append_nil, ← List.map_nil, ← hq]
  | cons c window ih =>
    rw [readWindow, wp_bind, classified, wp_mapErr]
    refine wp_mono (wp_read_due hcalm hq fun r replies w log _ hlog => ?_) (fun _ _ => id)
      fun _ _ h => .inl h
    rw [wp_bind]
    apply ih
    · rw [hlog]
    · intro rs replies w log' hlen hlog'
      apply hQ (r :: rs) replies w log' (by rw [List.length_cons, hlen, List.length_cons])
      rw [hlog', hlog, List.append_assoc]
      rfl

theorem wp_windows (hn : cmds.length ≤ n)
    (hstart : Drained s.log) (hlong : longBehind (depth s) 0 0 cmds = false)
    (hQ : ∀ rs replies w log, rs.length = cmds.length → Drained log →
      (dialogue log).fifo.pairs
        = (dialogue s.log).fifo.pairs ++ (cmds.map QueuedCommand.request).zip rs →
      Q rs { s with world := w, replies := replies, log := log }) :
  wp (windows opts env n cmds) Q (fun _ => Quiet) s
  := by
  induction n generalizing cmds s Q with
  | zero =>
    obtain rfl := List.length_eq_zero_iff.mp (Nat.le_zero.mp hn)
    apply hQ [] s.replies s.world s.log rfl hstart
    simp
  | succ n ih =>
    cases cmds with
    | nil =>
      apply hQ [] s.replies s.world s.log rfl hstart
      simp
    | cons c cmds =>
      have hdepth : 0 < depth s := by
        rw [depth]
        split <;> decide
      rw [windows.eq_3 _ _ _ _ (List.cons_ne_nil _ _), wp_bind, wp_read, wp_bind]
      apply wp_writeWindow hcalm hdepth hlong fun _ => ⟨rfl, hstart⟩
      intro window rest w log hcmds hne hrest hlog
      have hstart : (dialogue s.log).fifo.queue = [] := hstart
      have hq : (dialogue log).fifo.queue = window.map QueuedCommand.request := by
        rw [hlog, hstart, List.nil_append]
      rw [wp_bind]
      apply wp_readWindow hcalm hq
      intro rs replies w log' hlen hlog'
      have hfifo : (dialogue log').fifo
          = ⟨[], (dialogue s.log).fifo.pairs ++ (window.map QueuedCommand.request).zip rs⟩ := by
        rw [hlog', hlog]
      have hshort : rest.length ≤ n := by
        have hpos : 0 < window.length := List.length_pos_iff.mpr (hne rfl (by simp))
        have htotal := congrArg List.length hcmds
        simp only [List.length_append] at htotal
        omega
      rw [wp_bind]
      apply ih hshort
      · exact congrArg Fifo.queue hfifo
      · exact hrest
      · intro rs' replies w log'' hlen' hdrained hpairs
        apply hQ (rs ++ rs') replies w log'' _ hdrained
        · rw [hpairs, hfifo, hcmds, List.map_append, List.zip_append]
          · rw [List.append_assoc]
          · rw [List.length_map, hlen]
        · rw [hcmds, List.length_append, List.length_append, hlen, hlen']

end Groups

/-! ### Lines that ask for nothing more -/

/-- Whatever the reply to the request is, the server waits for a command after it. -/
def Simple (q : Request) : Prop := ∀ r, Dialogue.after r (some q) = .command

/-- The server waits for a command, and will do so after its replies. -/
structure Tame (log : List WireEvent) : Prop where
  expects : (dialogue log).expects = .command
  simple : ∀ q ∈ (dialogue log).fifo.queue, Simple q

theorem InStep.tame (h : InStep log) :
  Tame log
  := by
  use h.expects
  have hq : (dialogue log).fifo.queue = [] := h.drained
  simp [hq]

theorem Tame.sent (h : Tame log) (hq : Simple q) (n : Nat) :
  Tame (log ++ [.sent q n])
  := by
  constructor <;> simp only [dialogue_append, Dialogue.step]
  · split
    · rfl
    · apply h.expects
  · intro p hp
    rcases List.mem_append.mp hp with hp | hp
    · apply h.simple p hp
    · rw [List.eq_of_mem_replicate hp]
      apply hq

theorem Tame.reply (h : Tame log) (r : Reply) :
  Tame (log ++ [.reply r])
  := by
  have hsimple := h.simple
  constructor <;> simp only [dialogue_append, Dialogue.step, Fifo.next, Fifo.answer] <;>
    rcases hq : (dialogue log).fifo.queue with _ | ⟨q, queue⟩ <;> rw [hq] at hsimple
  · rfl
  · apply hsimple q List.mem_cons_self
  · simp [hq]
  · intro p hp
    apply hsimple p (List.mem_cons_of_mem _ hp)

theorem Tame.replies (h : Tame log) {rs : List Reply}
    (hq : (dialogue log).fifo.queue = List.replicate rs.length q) :
  InStep (log ++ rs.map .reply)
  := by
  induction rs generalizing log with
  | nil =>
    rw [List.map_nil, List.append_nil]
    exact ⟨hq, h.expects⟩
  | cons r rs ih =>
    rw [List.length_cons, List.replicate_succ] at hq
    have hq : (dialogue (log ++ [.reply r])).fifo.queue = List.replicate rs.length q := by
      rw [dialogue_append, Dialogue.step, Fifo.answer_of_queue hq]
    have hrest := ih (h.reply r) hq
    rw [List.append_assoc] at hrest
    exact hrest

theorem Tame.noted (h : Tame log) (completes : Bool) :
  Tame (log ++ Client.noted completes)
  := by
  obtain ⟨hexpects, hsimple⟩ := h
  constructor <;> simpa only [dialogue_noted]

/-- The connection is closed, or tame. -/
def Tamed (s : Conn φ ω) : Prop := s.state = .closed ∨ Tame s.log

theorem Tamed.settled (htame : Tamed s) (h : Quiet s) :
  Settled s
  := by
  rcases h with h | h
  · exact .inl h
  · exact htame.imp id fun htame => ⟨h, htame.expects⟩

section Plain

variable {opts : Options} {env : Env φ ω}

theorem simple_plain (text : Bytes) :
  Simple (.line text .plain)
  := fun _ => rfl

theorem tame_writeLine (command : Bytes) (c : QueuedCommand) (told : Bytes) :
  Maintains (Tame ·.log) Tamed (writeLine env command c .plain told)
  := by
  intro s hs
  apply wp_writeLine
  · intro _ w
    apply (hs.noted c.completes).sent (simple_plain c.line)
  · intro _ w
    exact .inr hs
  · intro _ e w _
    exact .inl rfl
  · intro _ e w log _ _
    exact .inl rfl

theorem tame_read (command : Bytes) :
  Maintains (Tame ·.log) Tamed (read opts env command)
  := by
  intro s hs
  apply wp_readAny
  · intro r replies w _ _
    apply hs.reply
  · intro _ w
    exact .inr hs
  · intro e w replies log _ _
    exact .inl rfl
  · intro e r replies w _ _
    exact .inl rfl

theorem tame_checkCompletes (c : QueuedCommand) :
  Maintains (Tame ·.log) Tamed (checkCompletes env c : Call φ ω Unit)
  := by
  apply Maintains.ite
  · apply Maintains.bind (fun s hs => hs)
    intro b
    apply Maintains.ite
    · apply Maintains.fail fun _ => .inr
    · apply Maintains.pure
  · apply Maintains.pure

theorem tame_writeWindow (hplain : ∀ c ∈ cmds, c.kind = .plain) (hs : Tame s.log) :
  wp (writeWindow env limit k bytes cmds)
    (fun x s => (∀ c ∈ x.2, c.kind = .plain) ∧ Tame s.log) (fun _ => Tamed) s
  := by
  induction cmds generalizing k bytes s with
  | nil => exact ⟨hplain, hs⟩
  | cons c cmds ih =>
    obtain ⟨hc, hcmds⟩ := List.forall_mem_cons.mp hplain
    rw [writeWindow, wp_ite]
    refine ⟨fun _ => ⟨hplain, hs⟩, fun _ => ?_⟩
    rw [wp_ite]
    refine ⟨fun _ => .inr hs, fun _ => ?_⟩
    rw [wp_ite]
    refine ⟨fun _ => ⟨hplain, hs⟩, fun _ => ?_⟩
    rw [wp_bind]
    apply wp_mono (tame_checkCompletes c s hs) _ fun _ _ => id
    intro _ s hs
    rw [wp_bind, classified, write, hc]
    apply wp_mono ((tame_writeLine c.verb c _).mapErr _ s hs) _ fun _ _ => id
    intro _ s hs
    rw [wp_ite]
    refine ⟨fun _ => ⟨hcmds, hs⟩, fun _ => ?_⟩
    rw [wp_bind]
    apply wp_mono (ih hcmds hs) _ fun _ _ => id
    intro x s hx
    exact hx

theorem tame_readWindow (cmds : List QueuedCommand) :
  Maintains (Tame ·.log) Tamed (readWindow opts env cmds)
  := by
  induction cmds with
  | nil => apply Maintains.pure
  | cons c cmds ih =>
    apply Maintains.bind ((tame_read c.verb).mapErr _)
    intro r
    apply Maintains.bind ih
    intro rs
    apply Maintains.pure

theorem tame_windows (hplain : ∀ c ∈ cmds, c.kind = .plain) :
  Maintains (Tame ·.log) Tamed (windows opts env n cmds)
  := by
  induction n generalizing cmds with
  | zero =>
    cases cmds <;> apply Maintains.pure
  | succ n ih =>
    cases cmds with
    | nil => apply Maintains.pure
    | cons c cmds =>
      intro s hs
      rw [windows.eq_3 _ _ _ _ (List.cons_ne_nil _ _), wp_bind, wp_read, wp_bind]
      apply wp_mono (tame_writeWindow hplain hs) _ fun _ _ => id
      rintro ⟨window, rest⟩ s ⟨hrest, hs⟩
      apply Maintains.bind (tame_readWindow window) _ s hs
      intro rs
      apply Maintains.bind (ih hrest)
      intro rs'
      apply Maintains.pure

end Plain

/-! ### Groups of commands -/

theorem validateGroup_ok {cmds' : List QueuedCommand}
    (h : (validateGroup cmds : Except (ClientError φ) _) = .ok cmds') :
  cmds' = cmds.map QueuedCommand.upper
  := by
  induction cmds generalizing cmds' with
  | nil =>
    cases h
    rfl
  | cons c cmds ih =>
    simp only [validateGroup] at h
    split at h
    · cases h
    · rcases hrest : (validateGroup cmds : Except (ClientError φ) _) with e | rest
      · rw [hrest] at h
        cases h
      · rw [hrest] at h
        cases h
        rw [List.map_cons, ← ih hrest]
        rfl

theorem tame_executeLocked {opts : Options}
    (hplain : ∀ c ∈ cmds.map QueuedCommand.upper, c.kind = .plain) :
  Maintains (Tame ·.log) Tamed (executeLocked opts env cmds)
  := by
  apply Maintains.ite
  · apply Maintains.pure
  · split
    · apply Maintains.fail fun _ => .inr
    · next cmds' hvalid =>
      obtain rfl := validateGroup_ok hvalid
      apply Maintains.read
      intro s hs
      rw [wp_ite]
      exact ⟨fun _ => .inr hs, fun _ => tame_windows hplain s hs⟩

/-- Replies to a group, each of which belongs to its command. -/
structure Answers (cmds : List QueuedCommand) (rs : List Reply) (log log' : List WireEvent) :
    Prop where
  length : rs.length = cmds.length
  pairs : (dialogue log').fifo.pairs
    = (dialogue log).fifo.pairs ++ ((cmds.map QueuedCommand.upper).map QueuedCommand.request).zip rs

section Calm

variable {opts : Options} {env : Env φ ω} (hcalm : Calm env)
include hcalm

theorem wp_executeLocked (hs : Quiet s)
    (hlong : longBehind (depth s) 0 0 (cmds.map QueuedCommand.upper) = false)
    (hQ : ∀ rs replies w log, Answers cmds rs s.log log →
      Quiet { s with world := w, replies := replies, log := log } →
      Q rs { s with world := w, replies := replies, log := log }) :
  wp (executeLocked opts env cmds) Q (fun _ => Quiet) s
  := by
  rw [executeLocked, wp_ite]
  constructor
  · intro hempty
    obtain rfl := List.isEmpty_iff.mp hempty
    apply hQ [] s.replies s.world s.log ⟨rfl, by simp⟩ hs
  · intro _
    split
    · exact hs
    · next cmds' hvalid =>
      obtain rfl := validateGroup_ok hvalid
      rw [wp_bind, wp_read, wp_ite]
      refine ⟨fun _ => hs, fun hopen => ?_⟩
      have hdrained : Drained s.log := hs.resolve_left (by simpa [Conn.closed] using hopen)
      apply wp_windows hcalm (Nat.le_refl _) hdrained hlong
      intro rs replies w log hlen hdrained hpairs
      apply hQ rs replies w log ⟨hlen.trans (List.length_map _), hpairs⟩ (.inr hdrained)

theorem wp_executeOne {Q : Reply → Conn φ ω → Prop} (hs : Settled s)
    (hQ : ∀ r replies w log, s.replies = .item r :: replies → Drained log →
      (dialogue log).expects = Dialogue.after r (some c.upper.request) →
      Q r { s with world := w, replies := replies, log := log }) :
  wp (executeOne opts env c) Q (fun _ => Settled) s
  := by
  rw [executeOne_eq, wp_bind, wp_read, wp_ite]
  refine ⟨fun _ => hs, fun hopen => ?_⟩
  have hdrained : (dialogue s.log).fifo.queue = [] :=
    (hs.resolve_left (by simpa [Conn.closed] using hopen)).drained
  rw [wp_ite]
  refine ⟨fun _ => hs, fun _ => ?_⟩
  rw [wp_bind]
  apply wp_checkCompletes_calm hcalm
  intro w
  rw [wp_bind, classified, wp_mapErr]
  refine wp_writeLine_calm hcalm fun w log hlog => ?_
  have hqueue : (dialogue log).fifo.queue = [c.upper.request] := by
    rw [hlog, Fifo.queue_ask, hdrained]
    rfl
  rw [classified, wp_mapErr]
  refine wp_mono (wp_read_due hcalm hqueue fun r replies w log hr hlog => ?_) (fun _ _ => id)
    fun _ _ h => .inl h
  apply hQ r replies w log hr
  · rw [Drained, hlog]
  · rw [hlog]

end Calm

end GoSmtp.Client
