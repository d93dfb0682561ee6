import GoSmtp.Lib.Monitor
import GoSmtp.Server.Commands

/-!
# The journal of a session

What the log of a session tells about it, and when an event is in order.  The contract of the
server with its backend is that every log is accepted by this monitor: callbacks are made only
under the policy of the server and inside of a transaction, every transaction that was opened is
reset once, and an authentication is committed at most once and only with success.
-/

namespace GoSmtp.Server

/-- The AUTH exchange that a session is in. -/
inductive Exchange where
  | none
  /-- So far there were challenges and verifications only.  The last verification had the
  result. -/
  | started (last : Option AuthResult)
  /-- The authentication is committed, and the reply is due. -/
  | committed
  deriving DecidableEq, Repr

def Exchange.step : Exchange → LogEvent → Exchange
  | _, .decoded c => if Verb.ofSpelling c.verb = .auth then .started Option.none else .none
  | .started last, .reply r => if r.code = 334 then .started last else .none
  | .started _, .auth (.verify result) => .started result
  | _, .auth (.commit _) => .committed
  | .committed, .reply _ => .none
  | .committed, _ => .committed
  | _, _ => .none

/-- What the log tells. -/
structure Journal where
  tls : Bool
  authenticated : Bool
  /-- The calls of `CommitAuth` since the last handshake. -/
  commits : Nat
  exchange : Exchange
  /-- `Session.Mail` was called just now. -/
  calling : Bool
  /-- A MAIL has succeeded, and there was no reset since. -/
  opened : Bool
  /-- The recipients that were accepted since the last MAIL. -/
  recipients : List Bytes
  /-- A chunk has failed, and there was no RSET since. -/
  failed : Bool
  /-- A spool is open. -/
  spool : Bool
  /-- The last call of `Session.Data` had an authoritative outcome. -/
  decided : Bool
  /-- The content of that call was too large. -/
  oversize : Bool
  /-- The results of a message are being emitted. -/
  emitting : Bool
  /-- `Session.Close` was called. -/
  closed : Bool
  deriving DecidableEq, Repr

namespace Journal

/-- The journal of a session before its first event. -/
def new (tls : Bool) : Journal where
  tls := tls
  authenticated := false
  commits := 0
  exchange := .none
  calling := false
  opened := false
  recipients := []
  failed := false
  spool := false
  decided := false
  oversize := false
  emitting := false
  closed := false

/-- The command is RSET in its proper form. -/
def isRSET (c : Command) : Bool := Verb.ofSpelling c.verb = .rset ∧ c.argument = []

def step (j : Journal) (e : LogEvent) : Journal :=
  let j := { j with exchange := j.exchange.step e, calling := e = .mailCall }
  match e with
  | .decoded c => { j with failed := j.failed && !isRSET c }
  | .mail _ => { j with opened := true, recipients := [] }
  | .rcpt mailbox => { j with recipients := j.recipients ++ [mailbox] }
  | .dataCall _ => { j with decided := false, oversize := false }
  | .outcome authoritative => { j with decided := authoritative }
  | .oversize => { j with oversize := true }
  | .emit => { j with emitting := true }
  | .bdatFailed => { j with failed := true }
  | .spoolOpened => { j with spool := true }
  | .spoolClosed => { j with spool := false }
  | .auth (.commit _) => { j with commits := j.commits + 1 }
  | .authenticated => { j with authenticated := true }
  | .handshake => { j with tls := true, authenticated := false, commits := 0 }
  | .reset _ => { j with opened := false, emitting := false }
  | .close => { j with closed := true }
  | _ => j

@[simp]
theorem exchange_step (j : Journal) (e : LogEvent) :
  (j.step e).exchange = j.exchange.step e
  := by
  unfold step
  split <;> rfl

@[simp]
theorem calling_step (j : Journal) (e : LogEvent) :
  (j.step e).calling = decide (e = .mailCall)
  := by
  unfold step
  split <;> rfl

/-- The policy of the server is met, and the session is in use. -/
structure Admits (cfg : Config) (j : Journal) : Prop where
  tls : cfg.requireTLS = true → j.tls = true
  authenticated : cfg.requireAuth = true → j.authenticated = true
  failed : j.failed = false
  closed : j.closed = false

/-- The outcome that the backend decided on is being emitted. -/
def completing (j : Journal) : Bool := j.emitting && j.decided && !j.oversize

/-- When an event is in order. -/
def legal (cfg : Config) (j : Journal) : LogEvent → Prop
  | .decoded _ => j.exchange ≠ .committed
  | .reply r => j.exchange = .committed → r.code = 235
  | .mailCall => j.Admits cfg ∧ j.opened = false
  | .mail _ => j.calling = true ∧ j.opened = false
  | .rcptCall => j.Admits cfg ∧ j.opened = true
  | .dataCall _ => j.Admits cfg ∧ j.opened = true ∧ j.recipients ≠ []
  | .auth (.commit result) =>
    j.exchange = .started (some result) ∧ result.failure = none ∧ j.commits = 0
  -- A reset ends a transaction whose spool is closed, except for the one of STARTTLS.
  | .reset reason =>
    (j.opened = true ↔ reason ≠ .startTLS) ∧ j.spool = false ∧ j.closed = false ∧
      (reason = .completed ↔ j.completing = true)
  | .close => j.opened = false ∧ j.spool = false ∧ j.closed = false
  | .refused _ => False
  | _ => True

end Journal

/-- The monitor of the sessions that begin with or without TLS. -/
def monitor (cfg : Config) (tls : Bool) : Monitor Journal LogEvent where
  init := .new tls
  step := Journal.step
  legal := Journal.legal cfg

/-- The journal of a log. -/
def journal (tls : Bool) (log : List LogEvent) : Journal := log.foldl Journal.step (.new tls)

@[simp]
theorem run_monitor (cfg : Config) (tls : Bool) (log : List LogEvent) :
  (monitor cfg tls).run log = journal tls log
  := rfl

@[simp]
theorem journal_snoc (tls : Bool) (log : List LogEvent) (e : LogEvent) :
  journal tls (log ++ [e]) = (journal tls log).step e
  := by
  simp [journal]

end GoSmtp.Server
