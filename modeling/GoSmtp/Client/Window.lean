import GoSmtp.Client.InStep

/-!
# Windows of commands

While a group of commands runs, the commands that are written and not yet answered form a
window, of at most 16 commands and at most 65536 octets, and of a single command if the
server does not offer PIPELINING.  This holds after every event on the wire, also in a group
that fails, whatever the context and the transport do.  A group that succeeds has one reply
for each of its commands, and these are the next replies that the peer sent, in order.
-/

namespace GoSmtp.Client

variable {φ ω : Type}
variable {Q : List Reply → Conn φ ω → Prop}
variable {cmds window : List QueuedCommand} {c : QueuedCommand}

/-- The octets of a command on the wire. -/
def QueuedCommand.octets (c : QueuedCommand) : Bytes := c.line ++ crlf

theorem QueuedCommand.length_octets (c : QueuedCommand) :
  c.octets.length = c.length
  := by
  have hline (args : List Bytes) (verb : Bytes) :
      (args.foldl (fun l a => l ++ sp :: a) verb).length
        = verb.length + (args.map fun a => a.length + 1).sum := by
    induction args generalizing verb with
    | nil => rfl
    | cons a args ih =>
      rw [List.foldl_cons, ih, List.length_append, List.length_cons, List.map_cons, List.sum_cons]
      omega
  have hcrlf : crlf.length = 2 := rfl
  rw [octets, List.length_append, line, hline, length, hcrlf]
  omega

/-- The octets of a window. -/
def windowOctets (window : List QueuedCommand) : Nat := (window.map (·.octets.length)).sum

/-- What waits for a reply after the events `p` is a window of at most `limit` commands. -/
def FitsWindow (limit : Nat) (p : List WireEvent) : Prop :=
  ∃ window : List QueuedCommand, (dialogue p).fifo.queue = window.map QueuedCommand.request ∧
    window.length ≤ limit ∧ windowOctets window ≤ maxPipelineBytes

/-- At every moment of the events `t` a window waits. -/
def Paced (limit : Nat) (t : List WireEvent) : Prop := ∀ p, p <+: t → FitsWindow limit p

theorem paced_nil (limit : Nat) :
  Paced limit []
  := by
  intro p hp
  obtain rfl := List.prefix_nil.mp hp
  exact ⟨[], rfl, Nat.zero_le _, Nat.zero_le _⟩

theorem Paced.snoc {limit : Nat} {t : List WireEvent} {e : WireEvent} (h : Paced limit t)
    (he : FitsWindow limit (t ++ [e])) :
  Paced limit (t ++ [e])
  := by
  intro p hp
  rcases List.prefix_concat_iff.mp hp with rfl | hp
  · exact he
  · exact h p hp

/-! ### A window grows and shrinks -/

/-- Since the log was `log₀` it was paced; now the commands of `window` wait, and `pairs` are
answered. -/
structure Unread (limit : Nat) (log₀ log : List WireEvent) (window : List QueuedCommand)
    (pairs : List (Request × Reply)) : Prop where
  since : ∃ t, log = log₀ ++ t ∧ Paced limit t ∧
    (dialogue t).fifo = ⟨window.map QueuedCommand.request, pairs⟩
  count : window.length ≤ limit
  octets : windowOctets window ≤ maxPipelineBytes

namespace Unread

variable {limit : Nat} {log₀ log : List WireEvent} {window : List QueuedCommand}
variable {pairs : List (Request × Reply)}

theorem start (limit : Nat) (log₀ : List WireEvent) :
  Unread limit log₀ log₀ [] []
  where
  since := ⟨[], (List.append_nil log₀).symm, paced_nil limit, rfl⟩
  count := Nat.zero_le _
  octets := Nat.zero_le _

theorem step (h : Unread limit log₀ log window pairs) {e : WireEvent}
    {window' : List QueuedCommand} {pairs' : List (Request × Reply)}
    (hstep : ∀ d : Dialogue, d.fifo = ⟨window.map QueuedCommand.request, pairs⟩ →
      (d.step e).fifo = ⟨window'.map QueuedCommand.request, pairs'⟩)
    (hcount : window'.length ≤ limit) (hoctets : windowOctets window' ≤ maxPipelineBytes) :
  Unread limit log₀ (log ++ [e]) window' pairs'
  := by
  obtain ⟨t, rfl, hpaced, hfifo⟩ := h.since
  have hnext : (dialogue (t ++ [e])).fifo = ⟨window'.map QueuedCommand.request, pairs'⟩ := by
    rw [dialogue_append]
    apply hstep _ hfifo
  refine ⟨⟨t ++ [e], List.append_assoc .., ?_, hnext⟩, hcount, hoctets⟩
  apply hpaced.snoc
  exact ⟨window', congrArg Fifo.queue hnext, hcount, hoctets⟩

theorem note (h : Unread limit log₀ log window pairs) (completes : Bool) :
  Unread limit log₀ (log ++ noted completes) window pairs
  := by
  cases completes with
  | false =>
    rw [noted, if_neg Bool.false_ne_true, List.append_nil]
    exact h
  | true =>
    apply h.step _ h.count h.octets
    intro d hd
    exact hd

theorem send (h : Unread limit log₀ log window pairs) (hcount : window.length < limit)
    (hoctets : windowOctets window + c.length ≤ maxPipelineBytes) :
  Unread limit log₀ (log ++ [.sent c.request 1]) (window ++ [c]) pairs
  := by
  apply h.step
  · intro d hd
    rw [Dialogue.step, Fifo.ask, hd, List.map_append]
    rfl
  · rw [List.length_append]
    exact hcount
  · rw [windowOctets, List.map_append, List.sum_append]
    simp only [List.map_cons, List.map_nil, List.sum_cons, List.sum_nil, c.length_octets]
    exact hoctets

theorem receive (h : Unread limit log₀ log (c :: window) pairs) (r : Reply) :
  Unread limit log₀ (log ++ [.reply r]) window (pairs ++ [(c.request, r)])
  := by
  apply h.step
  · intro d hd
    rw [Dialogue.step, hd]
    rfl
  · apply Nat.le_trans _ h.count
    rw [List.length_cons]
    exact Nat.le_succ _
  · apply Nat.le_trans _ h.octets
    rw [windowOctets, windowOctets, List.map_cons, List.sum_cons]
    exact Nat.le_add_left _ _

end Unread

/-! ### Groups -/

/-- Since the log was `log₀` it was paced. -/
def KeptPace (limit : Nat) (log₀ : List WireEvent) (s : Conn φ ω) : Prop :=
  ∃ t, s.log = log₀ ++ t ∧ Paced limit t

section Groups

variable {opts : Options} {env : Env φ ω} {limit : Nat} {log₀ : List WireEvent} {s : Conn φ ω}
variable {pairs : List (Request × Reply)}

theorem Unread.keptPace (h : Unread limit log₀ s.log window pairs) :
  KeptPace limit log₀ s
  := by
  obtain ⟨t, hlog, hpaced, -⟩ := h.since
  exact ⟨t, hlog, hpaced⟩

theorem wp_write_unread {Q : Unit → Conn φ ω → Prop} (h : Unread limit log₀ s.log window pairs)
    (hcount : window.length < limit) (hoctets : windowOctets window + c.length ≤ maxPipelineBytes)
    (hQ : ∀ w log, Unread limit log₀ log (window ++ [c]) pairs →
      Q () { s with world := w, log := log }) :
  wp (do checkCompletes env c; classified c (write env c)) Q
    (fun _ => KeptPace limit log₀) s
  := by
  have hsent := (h.note c.completes).send hcount hoctets
  have hwrite (w : ω) : wp (classified c (write env c)) Q (fun _ => KeptPace limit log₀)
      { s with world := w } := by
    rw [classified, wp_mapErr, write]
    apply wp_writeLine
    · intro _ w
      apply hQ w _ hsent
    · intro _ w
      apply h.keptPace
    · intro _ _ w _
      apply h.keptPace
    · rintro _ _ w log _ (rfl | rfl)
      · apply (h.note c.completes).keptPace
      · apply hsent.keptPace
  rw [wp_bind, checkCompletes, wp_ite]
  constructor
  · intro _
    rw [wp_bind, wp_canceled, wp_ite]
    refine ⟨fun _ => ?_, fun _ => hwrite _⟩
    apply h.keptPace
  · intro _
    apply hwrite

theorem wp_writeWindow_unread {Q : List QueuedCommand × List QueuedCommand → Conn φ ω → Prop}
    (h : Unread limit log₀ s.log window pairs) (hQ : ∀ more rest w log, cmds = more ++ rest →
      (window.length < limit → window = [] → cmds ≠ [] → more ≠ []) →
      Unread limit log₀ log (window ++ more) pairs →
      Q (more, rest) { s with world := w, log := log }) :
  wp (writeWindow env limit window.length (windowOctets window) cmds) Q
    (fun _ => KeptPace limit log₀) s
  := by
  induction cmds generalizing window s Q with
  | nil =>
    apply hQ [] [] s.world s.log rfl (fun _ _ hne => absurd rfl hne)
    rw [List.append_nil]
    exact h
  | cons c cmds ih =>
    -- the window is closed before `c`
    have hstop (hfull : limit ≤ window.length ∨ window ≠ []) :
        Q ([], c :: cmds) s := by
      apply hQ [] (c :: cmds) s.world s.log rfl
      · intro hroom hempty _
        rcases hfull with hfull | hfull
        · exact absurd hroom (Nat.not_lt.mpr hfull)
        · exact absurd hempty hfull
      · rw [List.append_nil]
        exact h
    rw [writeWindow, wp_ite]
    refine ⟨fun hfull => hstop (.inl hfull), fun hroom => ?_⟩
    rw [wp_ite]
    refine ⟨fun _ => h.keptPace, fun hshort => ?_⟩
    rw [wp_ite]
    refine ⟨fun hfull => hstop (.inr (List.length_pos_iff.mp hfull.1)), fun hfits => ?_⟩
    have hroom : window.length < limit := Nat.not_le.mp hroom
    have hoctets : windowOctets window + c.length ≤ maxPipelineBytes := by
      rcases window with _ | ⟨c', window⟩
      · rw [windowOctets, List.map_nil, List.sum_nil, Nat.zero_add]
        exact Nat.not_lt.mp hshort
      · apply Nat.not_lt.mp
        intro hlong
        exact hfits ⟨Nat.succ_pos _, hlong⟩
    rw [← Exec.bind_bind, wp_bind]
    apply wp_write_unread h hroom hoctets
    intro w log hlog
    rw [wp_ite]
    constructor
    · intro _
      apply hQ [c] cmds w log rfl (fun _ _ _ => List.cons_ne_nil _ _) hlog
    · intro _
      have hlen : window.length + 1 = (window ++ [c]).length := by
        rw [List.length_append]
        rfl
      have hsum : windowOctets window + c.length = windowOctets (window ++ [c]) := by
        simp [windowOctets, c.length_octets]
      rw [wp_bind, hlen, hsum]
      apply ih hlog
      intro more rest w log' hcmds _ hlog'
      apply hQ (c :: more) rest w log' (by rw [hcmds, List.cons_append])
      · intro _ _ _
        exact List.cons_ne_nil _ _
      · rw [List.append_assoc] at hlog'
        exact hlog'

theorem wp_readWindow_unread (h : Unread limit log₀ s.log window pairs)
    (hQ : ∀ rs replies w log, rs.length = window.length → s.replies = Feed.items rs ++ replies →
      Unread limit log₀ log [] (pairs ++ (window.map QueuedCommand.request).zip rs) →
      Q rs { s with world := w, replies := replies, log := log }) :
  wp (readWindow opts env window) Q (fun _ => KeptPace limit log₀) s
  := by
  induction window generalizing s pairs Q with
  | nil =>
    apply hQ [] s.replies s.world s.log rfl rfl
    rw [List.zip_nil_right, List.append_nil]
    exact h
  | cons c window ih =>
    rw [readWindow, wp_bind, classified, wp_mapErr]
    apply wp_readAny
    · intro r replies w hr _
      rw [wp_bind]
      apply ih (h.receive r)
      intro rs replies' w log hlen hrs hlog
      apply hQ (r :: rs) replies' w log (by rw [List.length_cons, hlen, List.length_cons])
      · have hrs : replies = Feed.items rs ++ replies' := hrs
        rw [hr, hrs, Feed.items_cons, List.cons_append]
      · rw [List.append_assoc] at hlog
        exact hlog
    · intro _ w
      apply h.keptPace
    · rintro _ w replies log _ (rfl | ⟨r, rfl⟩)
      · apply h.keptPace
      · apply (h.receive r).keptPace
    · intro _ r replies w _ _
      apply (h.receive r).keptPace

theorem wp_windows_unread {n : Nat} (hn : cmds.length ≤ n)
    (hlimit : limit = depth s) (h : Unread limit log₀ s.log [] pairs)
    (hQ : ∀ rs replies w log, rs.length = cmds.length → s.replies = Feed.items rs ++ replies →
      Unread limit log₀ log [] (pairs ++ (cmds.map QueuedCommand.request).zip rs) →
      Q rs { s with world := w, replies := replies, log := log }) :
  wp (windows opts env n cmds) Q (fun _ => KeptPace limit log₀) s
  := by
  induction n generalizing cmds s pairs Q with
  | zero =>
    obtain rfl := List.length_eq_zero_iff.mp (Nat.le_zero.mp hn)
    apply hQ [] s.replies s.world s.log rfl rfl
    rw [List.zip_nil_right, List.append_nil]
    exact h
  | succ n ih =>
    cases cmds with
    | nil =>
      apply hQ [] s.replies s.world s.log rfl rfl
      rw [List.zip_nil_right, List.append_nil]
      exact h
    | cons c cmds =>
      have hdepth : 0 < depth s := by
        rw [depth]
        split <;> decide
      rw [windows.eq_3 _ _ _ _ (List.cons_ne_nil _ _), wp_bind, wp_read, wp_bind,
        ← hlimit]
      apply wp_writeWindow_unread h
      intro window rest w log hcmds hne hlog
      rw [wp_bind]
      apply wp_readWindow_unread hlog
      intro rs replies w log' hlen hrs hlog'
      have hrs : s.replies = Feed.items rs ++ replies := hrs
      have hshort : rest.length ≤ n := by
        have hwindow : window ≠ [] := hne (hlimit ▸ hdepth) rfl (List.cons_ne_nil _ _)
        have hpos : 0 < window.length := List.length_pos_iff.mpr hwindow
        have htotal := congrArg List.length hcmds
        rw [List.length_append] at htotal
        omega
      rw [wp_bind]
      apply ih hshort
      · exact hlimit
      · exact hlog'
      · intro rs' replies' w' log'' hlen' hrs' hlog''
        have hrs' : replies = Feed.items rs' ++ replies' := hrs'
        apply hQ (rs ++ rs') replies' w' log''
        · rw [hcmds, List.length_append, List.length_append, hlen, hlen']
        · rw [hrs, hrs', Feed.items_append, List.append_assoc]
        · rw [hcmds, List.map_append, List.zip_append (by rw [List.length_map, hlen]),
            ← List.append_assoc]
          exact hlog''

/-- A group is refused or fails on the way, or every command has its reply.  In between it keeps
the pace. -/
theorem wp_executeLocked_unread
    (hQ : ∀ rs replies w log, rs.length = cmds.length → s.replies = Feed.items rs ++ replies →
      Unread (depth s) s.log log [] ((cmds.map (·.upper.request)).zip rs) →
      Q rs { s with world := w, replies := replies, log := log }) :
  wp (executeLocked opts env cmds) Q (fun _ => KeptPace (depth s) s.log) s
  := by
  have hstart := Unread.start (depth s) s.log
  rw [executeLocked, wp_ite]
  constructor
  · intro hempty
    obtain rfl := List.isEmpty_iff.mp hempty
    apply hQ [] s.replies s.world s.log rfl rfl hstart
  · intro _
    split
    · apply hstart.keptPace
    · next cmds' hvalid =>
      obtain rfl := validateGroup_ok hvalid
      rw [wp_bind, wp_read, wp_ite]
      refine ⟨fun _ => hstart.keptPace, fun _ => ?_⟩
      apply wp_windows_unread (Nat.le_refl _) rfl hstart
      intro rs replies w log hlen hrs hlog
      rw [List.nil_append, List.map_map] at hlog
      rw [List.length_map] at hlen
      apply hQ rs replies w log hlen hrs hlog

end Groups

/-- What is written and not yet answered is a window: at most 16 commands of at most 65536
octets, and one command if the server does not offer PIPELINING. -/
def BoundedWindow (s : Conn φ ω) (p : List WireEvent) : Prop :=
  ∃ window : List QueuedCommand, (dialogue p).fifo.queue = window.map QueuedCommand.request ∧
    window.length ≤ 16 ∧ (window.map (·.octets.length)).sum ≤ 65536 ∧
    (s.advertises (ascii "PIPELINING") = false → window.length ≤ 1)

theorem FitsWindow.boundedWindow {s : Conn φ ω} {p : List WireEvent} (h : FitsWindow (depth s) p) :
  BoundedWindow s p
  := by
  obtain ⟨window, hqueue, hcount, hoctets⟩ := h
  refine ⟨window, hqueue, ?_, hoctets, ?_⟩
  · apply Nat.le_trans hcount
    rw [depth]
    split <;> decide
  · intro hno
    rw [depth, hno] at hcount
    exact hcount

/-- A group of commands keeps a bounded window at every moment.  If it succeeds, every command
is answered, in order, by the next reply of the peer. -/
theorem executeLocked_bounded (opts : Options) (env : Env φ ω) (cmds : List QueuedCommand)
    (s : Conn φ ω) :
  ∃ t, (executeLocked opts env cmds s).2.log = s.log ++ t ∧
    (∀ p, p <+: t → BoundedWindow s p) ∧
    ∀ rs, (executeLocked opts env cmds s).1 = .ok rs →
      rs.length = cmds.length ∧
      (dialogue t).fifo = ⟨[], (cmds.map (·.upper.request)).zip rs⟩ ∧
      s.replies = Feed.items rs ++ (executeLocked opts env cmds s).2.replies
  := by
  have hrun : wp (executeLocked opts env cmds)
      (fun rs s' => ∃ t, s'.log = s.log ++ t ∧ Paced (depth s) t ∧ rs.length = cmds.length ∧
        (dialogue t).fifo = ⟨[], (cmds.map (·.upper.request)).zip rs⟩ ∧
        s.replies = Feed.items rs ++ s'.replies)
      (fun _ => KeptPace (depth s) s.log) s := by
    apply wp_executeLocked_unread
    intro rs replies w log hlen hrs hlog
    obtain ⟨t, hlog, hpaced, hfifo⟩ := hlog.since
    exact ⟨t, hlog, hpaced, hlen, hfifo, hrs⟩
  apply wp_elim hrun (P := fun x => ∃ t, x.2.log = s.log ++ t ∧
    (∀ p, p <+: t → BoundedWindow s p) ∧ ∀ rs, x.1 = .ok rs → rs.length = cmds.length ∧
      (dialogue t).fifo = ⟨[], (cmds.map (·.upper.request)).zip rs⟩ ∧
      s.replies = Feed.items rs ++ x.2.replies)
  · rintro rs s' ⟨t, hlog, hpaced, hanswered⟩
    refine ⟨t, hlog, fun p hp => (hpaced p hp).boundedWindow, ?_⟩
    rintro rs' ⟨⟩
    exact hanswered
  · rintro e s' ⟨t, hlog, hpaced⟩
    exact ⟨t, hlog, fun p hp => (hpaced p hp).boundedWindow, by simp⟩
  · rintro s' ⟨t, hlog, hpaced⟩
    exact ⟨t, hlog, fun p hp => (hpaced p hp).boundedWindow, by simp⟩

end GoSmtp.Client
