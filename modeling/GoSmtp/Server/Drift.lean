import GoSmtp.Server.Walk

/-!
# Relations that leave the outside alone

A relation between sessions that does not look at the world, nor at the spool and its manager, holds
along a handler if it allows what the session does to its own fields.  What it has to allow is only
what the handler is about.
-/

namespace GoSmtp.Server.Session

open Exec

variable {φ ω α : Type}

/-- The relation allows every change of the outside and of the spool, and the own steps of a session
that are about the concerns. -/
structure Drift (K : Concern → Prop) (R : Session φ ω → Session φ ω → Prop) : Prop where
  ordinary : K .ordinary
  own : ∀ {k s s'}, K k → Own k s s' → R s s'
  beyond : ∀ (s : Session φ ω) w manager spool,
    R s { s with world := w, manager := manager, spool := spool }
  /-- An exchange may end in any reply. -/
  reply : K .authentication → ∀ (s : Session φ ω) r, R s { s with log := s.log ++ [.reply r] }

namespace Drift

variable {K : Concern → Prop} {R : Session φ ω → Session φ ω → Prop} (h : Drift K R)
include h

theorem world (s : Session φ ω) (w : ω) :
  R s { s with world := w }
  := h.beyond s w s.manager s.spool

theorem update {k : Concern} (hk : K k) {f : Session φ ω → Session φ ω} (hf : ∀ s, Own k s (f s)) :
  Along R (Exec.update f : Call φ ω Unit)
  := fun s => h.own hk (hf s)

theorem around :
  Around K R
  where
  ordinary := h.ordinary
  world := h.world
  feed s _ := h.own h.ordinary (.feed s _)
  state s hk hstate := h.own hk (.state s hstate)
  event s _ _ hk he := h.own hk (.events s (by simpa using he))
  reply := h.reply

variable [IsPreorder (Session φ ω) R]

theorem onSpool (op : Spool.Op ω φ α) :
  Along R (onSpool op)
  := by
  intro s
  simp only [Session.onSpool]
  split
  · exact refl_of R s
  · split <;> exact h.beyond s _ _ _

theorem attachSpool (env : Env φ ω) :
  Along R (attachSpool env)
  := by
  refine Along.bind (fun s => h.beyond s _ _ s.spool) fun _ => ?_
  apply Along.read
  intro s
  split
  · exact .pure _
  · refine Along.bind (fun s => h.beyond s s.world _ _) fun _ => ?_
    exact (h.around.record h.ordinary rfl).bind fun _ => .pure _

theorem walk {env : Env φ ω}
    (hevaluate : K .content → ∀ {σ : Type} (command : Bytes) (r : Reader σ UInt8 (ContentError φ))
      (source : Source) (size : Nat) (content : σ) {s : Session φ ω}, s.recipients ≠ [] →
      R s (Session.evaluateContent env command r source size content s).2) :
  Walk env K R
  := by
  refine h.around.walk h.own hevaluate (fun s => ?_) (h.attachSpool env) (fun _ => h.onSpool _)
    (h.onSpool _)
  rw [detachSpool_eq]
  exact h.beyond s s.world _ _

theorem close (hK : K .ending) (env : Env φ ω)
    (hevaluate : K .content → ∀ {σ : Type} (command : Bytes) (r : Reader σ UInt8 (ContentError φ))
      (source : Source) (size : Nat) (content : σ) {s : Session φ ω}, s.recipients ≠ [] →
      R s (Session.evaluateContent env command r source size content s).2) :
  Along R (close env)
  := by
  have hwalk := h.walk hevaluate
  have hend : Along R (lifecycleClose env) := by
    apply Along.read
    intro s
    refine .ite (.pure _) ?_
    apply (h.update h.ordinary .closed).bind
    intro _
    apply (hwalk.resetIfOpen _).bind
    exact fun _ => (h.around.record h.ordinary rfl).bind fun _ => h.around.notify _
  exact hend.bind fun _ => (hwalk.transition .close hK).attempt.bind fun _ => .pure _

end Drift

/-! ### Runs -/

section Runs

variable {cfg : Config} {env : Env φ ω} {I F : Session φ ω → Prop}

/-- A turn from a session that meets `J`, which holds up to the command, to one that meets `I`, which
holds from the command on. -/
theorem wp_turn_walk {J : Session φ ω → Prop} {K K' : Concern → Prop}
    {R R' : Session φ ω → Session φ ω → Prop} [IsPreorder (Session φ ω) R]
    [IsPreorder (Session φ ω) R'] (h : Walk env K R) (h' : Walk env K' R')
    (hawait : Along R (await env .command)) (hJ : ∀ {s s'}, R s s' → J s → J s')
    (hI : ∀ {s s'}, R' s s' → I s → I s') (hpost : ∀ {s}, J s → I s) (hF : ∀ {s}, I s → F s)
    (hexecute : ∀ {c : Command} {s : Session φ ω} {feed rest : Feed UInt8 φ},
      readCommand feed = (.ok c, rest) → J s →
      wp (execute cfg env c) (fun _ => I) (fun _ => F) { s with log := s.log ++ [.decoded c] })
    {s : Session φ ω} (hs : J s) :
  wp (turn cfg env) (fun _ => I) (fun _ => F) s
  := by
  have hkeeps {α : Type} {m : Call φ ω α} (hm : Along R m) : Maintains J F m :=
    hm.maintains hJ fun h => hF (hpost h)
  have hends {α : Type} {m : Call φ ω α} (hm : Along R' m) : Maintains I F m :=
    hm.maintains hI hF
  have hflush : Along R (flushBeforeRead env) :=
    h.buffered.bind fun _ => .ite (.pure _) h.flush
  rw [turn, wp_bind]
  apply wp_mono (hkeeps h.canceled s hs) _ fun _ _ => id
  intro canceled s hs
  rw [wp_ite]
  refine ⟨fun _ => hF (hpost hs), fun _ => ?_⟩
  rw [wp_bind]
  apply wp_mono (hkeeps hflush s hs) _ fun _ _ => id
  intro _ s hs
  rw [wp_bind]
  apply wp_mono (hkeeps hawait s hs) _ fun _ _ => id
  intro _ s hs
  rw [wp_bind, wp_read, wp_bind, wp_update]
  have hs : J { s with feed := (readCommand s.feed).2 } := hJ (h.own h.ordinary (.feed s _)) hs
  split
  · exact hpost hs
  · exact hends ((h'.handleCommandReadError _).bind fun action => h'.finishTurn action) _ (hpost hs)
  · next c hc =>
    rw [wp_bind, wp_record, wp_bind]
    apply wp_mono (hexecute (Prod.ext hc rfl) hs) _ fun _ _ => id
    exact fun action s' => hends (h'.finishTurn action) s'

/-- A turn maintains an invariant that every step has which is about no command, if the commands
maintain it. -/
theorem maintains_turn {K : Concern → Prop} {R : Session φ ω → Session φ ω → Prop}
    [IsPreorder (Session φ ω) R] (h : Walk env K R) (hawait : Along R (await env .command))
    (hI : ∀ {s s'}, R s s' → I s → I s') (hF : ∀ {s}, I s → F s)
    (hexecute : ∀ {c : Command} {s : Session φ ω} {feed rest : Feed UInt8 φ},
      readCommand feed = (.ok c, rest) → I s →
      wp (execute cfg env c) (fun _ => I) (fun _ => F) { s with log := s.log ++ [.decoded c] }) :
  Maintains I F (turn cfg env)
  := fun _ hs => wp_turn_walk h h hawait hI hI id hF hexecute hs

theorem maintains_serve (hturn : Maintains I F (turn cfg env)) (hF : ∀ {s}, I s → F s)
    (hclose : ∀ {s}, F s → F (close env s).2) {n : Nat} {s : Session φ ω} (hs : I s) :
  F (serve cfg env n s).1 ∧ ((serve cfg env n s).2 = true → I (serve cfg env n s).1)
  := by
  induction n generalizing s with
  | zero => exact ⟨hF hs, fun _ => hs⟩
  | succ n ih =>
    have hstep := hturn s hs
    rw [serve]
    rcases hx : turn cfg env s with ⟨(_ | _) | e | _, s'⟩ <;> simp only [wp, hx] at hstep
    · exact ⟨hclose (hF hstep), by simp⟩
    · exact ih hstep
    · exact ⟨hclose hstep, by simp⟩
    · exact ⟨hclose hstep, by simp⟩

end Runs

end GoSmtp.Server.Session
