import GoSmtp.Server.Commands

/-!
# Handlers that only talk

Many handlers do nothing but ask the outside and write replies.  They maintain every invariant
that does not look at the world and survives a reply in the log.
-/

namespace GoSmtp.Server.Session

open Exec

variable {φ ω α : Type} {I F : Session φ ω → Prop}

/-- The invariant survives what is said to the outside, and implies what is asked of failures. -/
structure Talk (I F : Session φ ω → Prop) : Prop where
  world : ∀ {s : Session φ ω} (w : ω), I s → I { s with world := w }
  reply : ∀ {s : Session φ ω} (r : WireReply) (w : ω), I s →
    I { s with world := w, log := s.log ++ [.reply r] }
  fails : ∀ {s : Session φ ω}, I s → F s

namespace Talk

variable (h : Talk I F)
include h

theorem fail (e : SessionError φ) :
  Maintains I F (Exec.fail e : Call φ ω α)
  := .fail (fun _ => h.fails) e

theorem outside (op : ω → α × ω) :
  Maintains I F (outside op : Call φ ω α)
  := fun _ hs => h.world _ hs

theorem buffered (env : Env φ ω) :
  Maintains I F (buffered env)
  := fun _ hs => h.world _ hs

theorem transport (op : ω → Option φ × ω) :
  Maintains I F (transport op)
  := by
  intro s hs
  apply wp_transport
  · exact fun w => h.world w hs
  · exact fun _ w => h.fails (h.world w hs)

theorem await (env : Env φ ω) (awaited : Awaited) :
  Maintains I F (await env awaited)
  := fun s hs => h.transport (env.await awaited s.feed) s hs

theorem callback (op : ω → Outcome BackendError α × ω) :
  Maintains I F (callback op : Call φ ω (Except BackendError α))
  := by
  intro s hs
  apply wp_callback
  · exact fun _ w => h.world w hs
  · exact fun _ w => h.fails (h.world w hs)

theorem writeReply (env : Env φ ω) (r : WireReply) :
  Maintains I F (writeReply env r)
  := by
  intro s hs
  apply wp_writeReply
  · exact fun w => h.reply r w hs
  · exact fun _ w => h.fails (h.world w hs)

theorem answer (env : Env φ ω) (r : WireReply) (action : CommandAction) :
  Maintains I F (do Session.writeReply env r; pure action)
  := (h.writeReply env r).bind fun _ => .pure action

theorem writeResults (env : Env φ ω) (results : DataResult) :
  Maintains I F (writeResults env results)
  := by
  induction results with
  | nil => exact .pure _
  | cons r rs ih => exact (h.writeReply env _).bind fun _ => ih

theorem handleQUIT (cfg : Config) (env : Env φ ω) (c : Command) :
  Maintains I F (handleQUIT cfg env c)
  := .ite (h.answer _ _ _) (h.answer _ _ _)

theorem runDialog (hfeed : ∀ {s : Session φ ω} feed, I s → I { s with feed := feed })
    (hcall : ∀ c, Maintains I F (record (.auth c) : Call φ ω Unit))
    (htransition : Maintains I F (transition .authenticated : Call φ ω Unit))
    (hdone : Maintains I F (record .authenticated : Call φ ω Unit)) (env : Env φ ω)
    (dialog : AuthDialog ω) :
  Maintains I F (runDialog env dialog)
  := by
  have hset (world : ω) : Maintains I F (Exec.update fun s => { s with world := world } :
    Call φ ω Unit) := fun _ hs => h.world world hs
  induction dialog with
  | challenge text world k ih =>
    rw [Session.runDialog]
    apply (hset world).bind
    intro _
    apply (h.writeReply env _).bind
    intro _
    apply (h.transport _).bind
    intro _
    apply (h.await env _).bind
    intro _
    apply Maintains.read
    intro s hs
    refine (?_ : Maintains I F _) s hs
    refine Maintains.bind (fun _ hs => hfeed _ hs) fun _ => ?_
    split
    · exact h.answer env _ _
    · exact h.fail _
    · exact Maintains.read fun s hs => ih _ s.world s hs
  | call c world k ih =>
    rw [Session.runDialog]
    exact (hset world).bind fun _ => (hcall c).bind fun _ => ih
  | accepted world =>
    rw [Session.runDialog]
    apply (hset world).bind
    intro _
    apply htransition.bind
    exact fun _ => hdone.bind fun _ => h.answer env _ _
  | refused r world =>
    rw [Session.runDialog]
    exact (hset world).bind fun _ => h.answer env _ _
  | failed world =>
    rw [Session.runDialog]
    exact (hset world).bind fun _ => h.fail _
  | panic world => exact fun s hs => h.fails (h.world world hs)

end Talk

end GoSmtp.Server.Session
