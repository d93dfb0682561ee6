import GoSmtp.Server.Walk

/-!
# The custody of the spool

What a session can do to its spool and to the manager: attach a spool, write chunks to it, read
it, and detach it.  A relation that allows this much, and does not care for the rest of the
session, holds along every turn.
-/

namespace GoSmtp.Server.Session

open Exec

variable {φ ω : Type}

/-- The relation allows everything that a session can do to its spool. -/
structure Custody (env : Env φ ω) (R : Session φ ω → Session φ ω → Prop) : Prop where
  frame : ∀ {s s'}, s'.holding = s.holding → R s s'
  detach : ∀ s, R s s.detachSpool
  attach : Along R (attachSpool env)
  write : ∀ pieces, Along R (onSpool (Spool.writeChunk env.storage pieces))
  read : Along R (onSpool (Spool.reader env.storage))

/-! ### Turns -/

namespace Custody

variable {env : Env φ ω} {R : Session φ ω → Session φ ω → Prop} (h : Custody env R)
include h

theorem around :
  Around (fun _ => True) R
  where
  ordinary := trivial
  world _ _ := h.frame rfl
  feed _ _ := h.frame rfl
  state _ _ _ := h.frame rfl
  event _ _ _ _ _ := h.frame rfl
  reply _ _ _ := h.frame rfl

theorem serve [IsPreorder (Session φ ω) R] (cfg : Config) {n : Nat} {s : Session φ ω}
    (hon : (serve cfg env n s).2 = true) :
  R s (serve cfg env n s).1
  := by
  have hwalk : Walk env (fun _ => True) R :=
    h.around.walk (fun _ hown => h.frame (congrArg Prod.snd hown.common))
      (fun _ _ command r source size content s _ =>
        h.around.evaluateContent trivial env command r source size content s)
      h.detach h.attach h.write h.read
  apply hwalk.serve (fun _ => trivial) _ cfg hon
  constructor
  case chunk => exact h.around.takeChunk env
  case command => exact h.around.await env _
  case decoded => exact fun _ _ => h.frame rfl
  case count => exact fun _ => h.frame rfl

end Custody

end GoSmtp.Server.Session
