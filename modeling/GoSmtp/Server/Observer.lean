import GoSmtp.Server.Walk

/-!
# Observers of the transport

An observer sees what a session does to the transport: the replies, the flushes, the reads with
what is left of the feed, and the handshakes.  A session that is observed runs in a world that
carries what the observer has seen.
-/

namespace GoSmtp.Server

open Exec

variable {φ ω τ α : Type}

/-- What an observer makes of the transport.  The observer also says whether the decoder holds
octets, if it knows. -/
structure Observer (φ τ : Type) where
  wrote : WireReply → τ → τ
  flushed : τ → τ
  awaits : Awaited → Feed UInt8 φ → τ → τ
  shaken : τ → τ
  buffered : Feed UInt8 φ → τ → Option Bool

/-! ### Worlds with an observer -/

/-- An operation that the observer does not see. -/
def unseen (op : ω → α × ω) (x : ω × τ) : α × (ω × τ) := ((op x.1).1, (op x.1).2, x.2)

/-- An operation of the transport that the observer sees if it succeeds. -/
def seen (f : τ → τ) (op : ω → Option φ × ω) (x : ω × τ) : Option φ × (ω × τ) :=
  match op x.1 with
  | (none, w) => (none, w, f x.2)
  | (some e, w) => (some e, w, x.2)

def DataCall.unseen (t : τ) : DataCall φ ω → DataCall φ (ω × τ)
  | .ret result err w => .ret result err (w, t)
  | .panic w => .panic (w, t)
  | .read n w k => .read n (w, t) fun x => (k x).unseen t

def AuthDialog.unseen (t : τ) : AuthDialog ω → AuthDialog (ω × τ)
  | .challenge text w k => .challenge text (w, t) fun line x => (k line x.1).unseen x.2
  | .call c w k => .call c (w, t) (k.unseen t)
  | .accepted w => .accepted (w, t)
  | .refused r w => .refused r (w, t)
  | .failed w => .failed (w, t)
  | .panic w => .panic (w, t)

def Storage.unseen (io : Storage ω φ) : Storage (ω × τ) φ where
  createFile := Server.unseen io.createFile
  writeFile p := Server.unseen (io.writeFile p)
  rewind := Server.unseen io.rewind
  reread f := Server.unseen (io.reread f)
  others m := Server.unseen (io.others m)
  writeFile_le p x := io.writeFile_le p x.1
  writeFile_full p x := io.writeFile_full p x.1
  reread_payload f x := io.reread_payload f x.1
  others_opts m x := io.others_opts m x.1

/-- The operations of the world, observed. -/
def Env.observed (env : Env φ ω) (o : Observer φ τ) : Env φ (ω × τ) where
  storage := env.storage.unseen
  mail mailbox params := unseen (env.mail mailbox params)
  rcpt mailbox := unseen (env.rcpt mailbox)
  data x := (env.data x.1).unseen x.2
  reset reason := unseen (env.reset reason)
  close := unseen env.close
  verify := env.verify.map fun f address => unseen (f address)
  expand := env.expand.map fun f list => unseen (f list)
  help := env.help.map fun f topic => unseen (f topic)
  etrn := env.etrn.map fun f domain => unseen (f domain)
  atrn := env.atrn.map fun f domains => unseen (f domains)
  takeover := unseen env.takeover
  auth mechanism initial x := (env.auth mechanism initial x.1).unseen x.2
  write r := seen (o.wrote r) (env.write r)
  flush := seen o.flushed env.flush
  setDeadline := unseen env.setDeadline
  received state extended recipients := unseen (env.received state extended recipients)
  handshake x :=
    match env.handshake x.1 with
    | (.ok feed, w) => (.ok feed, w, o.shaken x.2)
    | (.error e, w) => (.error e, w, x.2)
  canceled := unseen env.canceled
  buffered feed x :=
    match o.buffered feed x.2 with
    | some b => (b, x)
    | none => unseen (env.buffered feed) x
  await awaited feed := seen (o.awaits awaited feed) (env.await awaited feed)
  pieces w := unseen (env.pieces w)
  pieces_flatten w x := env.pieces_flatten w x.1

/-! ### Spools -/

namespace Spool

/-- What the observer has seen. -/
def ghost (s : SpoolState (ω × τ)) : τ := s.world.2

variable (io : Storage ω φ)

theorem ghost_system (op : ω → α × ω) :
  Keeps ghost (system (unseen op) : Op (ω × τ) φ α)
  := fun _ => rfl

theorem ghost_reserve (total memory : Nat) :
  Keeps (ghost (τ := τ)) (reserve io.unseen total memory)
  := Keeps.bind (fun _ => rfl) fun _ => Keeps.read.bind fun _ =>
    .ite (.fail _) (.ite (.fail _) fun _ => rfl)

theorem ghost_spillLocked :
  Keeps (ghost (τ := τ)) (spillLocked io.unseen)
  := by
  apply Keeps.read.bind
  intro s
  apply Keeps.ite (.pure _)
  apply (ghost_system io.createFile).bind
  intro e
  split
  · exact .fail _
  · apply Keeps.ite fun _ => rfl
    apply (ghost_system (io.writeFile s.spool.memory)).bind
    intro r
    split
    · exact .fail _
    · exact Keeps.bind (fun _ => rfl) fun _ => fun _ => rfl

theorem ghost_reserveRoom (n : Nat) :
  Keeps (ghost (τ := τ)) (reserveRoom io.unseen n)
  := by
  apply Keeps.read.bind
  intro s
  apply (ghost_reserve io n _).attempt.bind
  intro r
  split
  · exact .pure _
  · apply Keeps.ite _ (.fail _)
    exact (ghost_spillLocked io).bind fun _ => (ghost_reserve io n 0).bind fun _ => .pure _
  · exact .fail _

theorem ghost_write (p : Bytes) :
  Keeps (ghost (τ := τ)) (write io.unseen p)
  := by
  have hroom : Keeps (ghost (τ := τ)) (makeRoom io.unseen p.length) :=
    Keeps.read.bind fun _ => .ite ((ghost_spillLocked io).bind fun _ =>
      ghost_reserveRoom io p.length) (ghost_reserveRoom io p.length)
  have hstore : Keeps (ghost (τ := τ)) (store io.unseen p) := by
    apply Keeps.read.bind
    intro s
    split
    · exact Keeps.bind (fun _ => rfl) fun _ => .pure _
    · exact (ghost_system (io.writeFile p)).bind fun _ =>
        Keeps.bind (fun _ => rfl) fun _ => .pure _
  apply Keeps.read.bind
  intro s
  apply Keeps.ite (.fail _)
  apply Keeps.ite (.pure _)
  apply Keeps.ite (.fail _)
  apply hroom.bind
  intro memory
  apply hstore.bind
  rintro ⟨n, e⟩
  apply Keeps.bind fun _ => rfl
  intro _
  apply Keeps.bind fun _ => rfl
  intro _
  split
  · exact .fail _
  · exact .ite (.fail _) (.pure _)

theorem ghost_writeChunk (ps : List Bytes) :
  Keeps (ghost (τ := τ)) (writeChunk io.unseen ps)
  := by
  induction ps with
  | nil => exact .pure _
  | cons p ps ih => exact (ghost_write io p).bind fun _ => ih

theorem ghost_reader :
  Keeps (ghost (τ := τ)) (reader io.unseen)
  := by
  apply Keeps.read.bind
  intro s
  apply Keeps.ite (.fail _)
  split
  · exact .pure _
  · apply (ghost_system io.rewind).bind
    intro r
    split
    · exact .fail _
    · exact fun _ => rfl

end Spool

/-! ### Turns -/

namespace Session

/-- What the observer has seen. -/
def ghost (s : Session φ (ω × τ)) : τ := s.world.2

theorem ghost_outside (op : ω → α × ω) :
  Keeps ghost (outside (unseen op) : Call φ (ω × τ) α)
  := fun _ => rfl

theorem ghost_callback (op : ω → Outcome BackendError α × ω) :
  Keeps ghost (callback (unseen op) : Call φ (ω × τ) _)
  := by
  intro s
  simp only [callback, unseen]
  rcases op s.world.1 with ⟨a | e | _, w⟩ <;> rfl

theorem ghost_transport (op : ω → Option φ × ω) :
  Keeps ghost (transport (unseen op) : Call φ (ω × τ) Unit)
  := by
  apply (ghost_outside op).bind
  intro e
  split
  · exact .fail _
  · exact .pure _

theorem ghost_onSpool {op : Spool.Op (ω × τ) φ α} (h : Keeps Spool.ghost op) :
  Keeps ghost (onSpool op)
  := by
  intro s
  rw [onSpool]
  split
  · rfl
  · next spool _ =>
    have hop := h ⟨s.manager, spool, s.world⟩
    rcases hrun : op ⟨s.manager, spool, s.world⟩ with ⟨a | e | _, t⟩ <;> rw [hrun] at hop <;>
      exact hop

theorem ghost_run {σ : Type} (call : DataCall φ ω) (t : τ) (r : Reader σ UInt8 (ContentError φ))
    (x : σ) :
  ((call.unseen t).run r x).2.1.2 = t
  := by
  induction call generalizing x with
  | ret result err w => rfl
  | panic w => rfl
  | read n w k ih =>
    rw [DataCall.unseen, DataCall.run]
    split
    · rfl
    · exact ih _ _

theorem ghost_evaluateDataCall {σ : Type} (mode : ListenerMode) (recipients : List Bytes)
    (command : Bytes) (r : Reader σ UInt8 (ContentError φ)) (fuel : Nat) (call : DataCall φ ω)
    (t : τ) (x : TrackedDataReader σ) :
  (evaluateDataCall mode recipients command r fuel (call.unseen t) x).2.1.2 = t
  := by
  have hrun := ghost_run call t (tracked r) x
  rw [evaluateDataCall]
  rcases hcall : (call.unseen t).run (tracked r) x with ⟨_ | ⟨result, err⟩, w, x'⟩ <;>
    rw [hcall] at hrun
  · exact hrun
  · dsimp only
    split
    · exact hrun
    · split <;> exact hrun

theorem ghost_evaluateContent {σ : Type} (env : Env φ ω) (o : Observer φ τ) (command : Bytes)
    (r : Reader σ UInt8 (ContentError φ)) (source : Source) (size : Nat) (content : σ) :
  Keeps ghost (evaluateContent (env.observed o) command r source size content)
  := by
  rw [Exec.keeps_iff_wp]
  intro s
  rw [evaluateContent, wp_bind, wp_read, wp_bind, wp_outside, wp_bind, wp_record]
  split
  · rfl
  · simp only [wp_bind, wp_record, wp_read, wp_update, wp_pure]
    apply ghost_evaluateDataCall

section Observed

variable {env : Env φ ω} {o : Observer φ τ} {s : Session φ (ω × τ)}

theorem wp_transport_seen {f : τ → τ} {op : ω → Option φ × ω} :
  wp (transport (seen f op))
    (fun _ s' => s' = { s with world := s'.world } ∧ s'.ghost = f s.ghost)
    (fun _ s' => s'.ghost = s.ghost) s
  := by
  rcases hop : op s.world.1 with ⟨_ | e, w⟩ <;>
    simp [wp, transport, outside, seen, hop, Bind.bind, Exec.fail, Pure.pure, ghost]

theorem wp_await_seen {awaited : Awaited} :
  wp (await (env.observed o) awaited)
    (fun _ s' => s' = { s with world := s'.world } ∧ s'.ghost = o.awaits awaited s.feed s.ghost)
    (fun _ s' => s'.ghost = s.ghost) s
  := wp_transport_seen

theorem wp_reply_seen {reply : WireReply} :
  wp (writeReply (env.observed o) reply) (fun _ s' => s'.ghost = o.wrote reply s.ghost)
    (fun _ s' => s'.ghost = s.ghost) s
  := by
  rw [writeReply, wp_bind]
  apply wp_mono (Exec.keeps_iff_wp.mp (ghost_transport env.setDeadline) s) _ fun _ _ => id
  intro _ s₁ h₁
  rw [wp_bind, ← h₁]
  exact wp_mono wp_transport_seen (fun _ _ h => h.2) fun _ _ => id

end Observed

/-- The relation allows what an observer can see of a turn, up to the reading of commands and
chunks. -/
structure Watches (o : Observer φ τ) (r : τ → τ → Prop) : Prop where
  wrote : ∀ reply t, r t (o.wrote reply t)
  flushed : ∀ t, r t (o.flushed t)
  shaken : ∀ t, r t (o.shaken t)
  /-- The server asks for content and for responses with a reply that is flushed. -/
  asks : ∀ reply awaited feed t, r t (o.awaits awaited feed (o.flushed (o.wrote reply t)))

/-- The relation between what was seen before and after. -/
def Watched (r : τ → τ → Prop) (s s' : Session φ (ω × τ)) : Prop := r s.ghost s'.ghost

instance (r : τ → τ → Prop) [IsPreorder τ r] : IsPreorder (Session φ (ω × τ)) (Watched r) where
  refl s := refl_of r s.ghost
  trans _ _ _ h h' := trans_of r h h'

namespace Watches

variable {r : τ → τ → Prop} [IsPreorder τ r] {env : Env φ ω} {o : Observer φ τ}

theorem keeps {m : Call φ (ω × τ) α} (hm : Keeps ghost m) :
  Along (Watched r) m
  := by
  intro s
  rw [Watched, hm s]
  exact refl_of r _

variable (h : Watches o r)
include h

theorem reply (reply : WireReply) :
  Along (Watched r) (writeReply (env.observed o) reply)
  := by
  intro s
  apply wp_state
  apply wp_mono wp_reply_seen
  · intro _ s' hs'
    rw [Watched, hs']
    exact h.wrote reply s.ghost
  · intro _ s' hs'
    rw [Watched, hs']
    exact refl_of r _

theorem flush :
  Along (Watched r) (transport (env.observed o).flush)
  := by
  intro s
  apply wp_state
  apply wp_mono wp_transport_seen
  · rintro _ s' ⟨-, hs'⟩
    rw [Watched, hs']
    exact h.flushed s.ghost
  · intro _ s' hs'
    rw [Watched, hs']
    exact refl_of r _

theorem ask (reply : WireReply) (awaited : Awaited) :
  Along (Watched r) (do
    writeReply (env.observed o) reply
    transport (env.observed o).flush
    await (env.observed o) awaited)
  := by
  intro s
  apply wp_state
  have hwrote := h.wrote reply s.ghost
  have hflushed := trans_of r hwrote (h.flushed _)
  rw [wp_bind]
  apply wp_mono wp_reply_seen
  · intro _ s₁ h₁
    rw [wp_bind]
    apply wp_mono wp_transport_seen
    · rintro _ s₂ ⟨-, h₂⟩
      apply wp_mono wp_await_seen
      · rintro _ s₃ ⟨-, h₃⟩
        rw [Watched, h₃, h₂, h₁]
        exact h.asks reply awaited s₂.feed s.ghost
      · intro _ s₃ h₃
        rw [Watched, h₃, h₂, h₁]
        exact hflushed
    · intro _ s₂ h₂
      rw [Watched, h₂, h₁]
      exact hwrote
  · intro _ s₁ h₁
    rw [Watched, h₁]
    exact refl_of r _

theorem ask_bind {reply : WireReply} {awaited : Awaited} {k : Unit → Call φ (ω × τ) α}
    (hk : ∀ u, Along (Watched r) (k u)) :
  Along (Watched r) (do
    writeReply (env.observed o) reply
    transport (env.observed o).flush
    let u ← await (env.observed o) awaited
    k u)
  := by simpa only [Exec.bind_bind] using (h.ask reply awaited).bind hk

omit h in
theorem callback {op : ω × τ → Outcome BackendError α × (ω × τ)}
    (hop : (env.observed o).Callback op) :
  Along (Watched r) (callback op : Call φ (ω × τ) _)
  := by
  cases hop with
  | mail mailbox params => exact keeps (ghost_callback (env.mail mailbox params))
  | rcpt mailbox => exact keeps (ghost_callback (env.rcpt mailbox))
  | takeover => exact keeps (ghost_callback env.takeover)
  | verify hf address =>
    obtain ⟨f, -, rfl⟩ := Option.map_eq_some_iff.mp hf
    exact keeps (ghost_callback (f address))
  | expand hf list =>
    obtain ⟨f, -, rfl⟩ := Option.map_eq_some_iff.mp hf
    exact keeps (ghost_callback (f list))
  | help hf topic =>
    obtain ⟨f, -, rfl⟩ := Option.map_eq_some_iff.mp hf
    exact keeps (ghost_callback (f topic))
  | etrn hf domain =>
    obtain ⟨f, -, rfl⟩ := Option.map_eq_some_iff.mp hf
    exact keeps (ghost_callback (f domain))
  | atrn hf domains =>
    obtain ⟨f, -, rfl⟩ := Option.map_eq_some_iff.mp hf
    exact keeps (ghost_callback (f domains))

theorem dialog (d : AuthDialog ω) (s : Session φ (ω × τ)) :
  Watched r s (runDialog (env.observed o) (d.unseen s.ghost) s).2
  := by
  have hanswer (reply : WireReply) (action : CommandAction) :
      Along (Watched r) (do writeReply (env.observed o) reply; pure action) :=
    (h.reply reply).bind fun _ => .pure action
  have hset (world : ω) (s : Session φ (ω × τ)) :
      Watched r s
        ((Exec.update fun s' => { s' with world := (world, s.ghost) } : Call φ (ω × τ) Unit) s).2 :=
    refl_of r s.ghost
  induction d generalizing s with
  | challenge text world k ih =>
    rw [AuthDialog.unseen, runDialog]
    apply Along.after (hset world s)
    intro _
    apply h.ask_bind
    intro _
    apply Along.read
    intro s₁
    apply Along.bind (keeps fun _ => rfl)
    intro _
    split
    · exact hanswer _ _
    · exact .fail _
    · exact fun s₂ => ih _ _ s₂
  | call c world k ih => exact ih { s with world := (world, s.ghost), log := s.log ++ [.auth c] }
  | accepted world =>
    rw [AuthDialog.unseen, runDialog]
    apply Along.after (hset world s)
    intro _
    apply (keeps (keeps_transition (fun _ _ => rfl) (fun _ _ => rfl) _)).bind
    exact fun _ => (keeps fun _ => rfl).bind fun _ => hanswer _ _
  | refused reply world =>
    rw [AuthDialog.unseen, runDialog]
    exact Along.after (hset world s) fun _ => hanswer reply sync
  | failed world => exact refl_of r _
  | panic world => exact refl_of r _

omit h in
theorem own {s s' : Session φ (ω × τ)} (heq : s'.common = s.common) :
  Watched r s s'
  := by
  have hghost : s'.ghost = s.ghost := congrArg (fun x => x.1.2) heq
  rw [Watched, hghost]
  exact refl_of r _

theorem walk :
  Walk (env.observed o) (fun _ => True) (Watched r)
  where
  ordinary := trivial
  own _ hown := own hown.common
  callback := callback
  notify reason := keeps fun _ => rfl
  reply _ := h.reply _
  flush := h.flush
  canceled := keeps fun _ => rfl
  buffered := keeps fun s => by
    simp only [Session.buffered, outside, Env.observed]
    split <;> rfl
  handshake _ s := by
    rcases hshake : env.handshake s.world.1 with ⟨_ | _, w⟩
    · simp only [Watched, outside, Env.observed, hshake]
      exact refl_of r _
    · simp only [Watched, outside, Env.observed, hshake]
      exact h.shaken _
  pieces w := keeps fun _ => rfl
  content _ := h.ask _ .content
  evaluate _ _ command reader source size content s _ :=
    keeps (ghost_evaluateContent env o command reader source size content) s
  auth _ mechanism initial s := h.dialog _ s
  detach s := by
    rw [Watched, detachSpool]
    split <;> exact refl_of r _
  attach := by
    apply keeps
    apply Keeps.bind fun _ => rfl
    intro _
    apply Keeps.read.bind
    intro s
    split
    · exact .pure _
    · exact Keeps.bind (fun _ => rfl) fun _ => Keeps.bind (fun _ => rfl) fun _ => .pure _
  write pieces := keeps (ghost_onSpool (Spool.ghost_writeChunk env.storage pieces))
  read := keeps (ghost_onSpool (Spool.ghost_reader env.storage))

theorem close :
  Along (Watched r) (close (env.observed o))
  := by
  have hwalk : Walk (env.observed o) (fun _ => True) (Watched r) := h.walk
  have hend : Along (Watched r) (lifecycleClose (env.observed o)) := by
    apply Along.read
    intro s
    refine .ite (.pure _) ?_
    apply (keeps fun _ => rfl).bind
    intro _
    apply (hwalk.resetIfOpen _).bind
    exact fun _ => (keeps fun _ => rfl).bind fun _ => keeps fun _ => rfl
  exact hend.bind fun _ => (hwalk.transition _ trivial).attempt.bind fun _ => .pure _

end Watches

end Session

end GoSmtp.Server
