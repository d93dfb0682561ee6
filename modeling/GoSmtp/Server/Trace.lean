import Mathlib.Data.List.Forall2
import GoSmtp.Wire.ReplyEncoder
import GoSmtp.Server.Connection
import GoSmtp.Server.Observer

/-!
# The trace

`ServerOptions.Trace` is told of every command, of every line of a SASL exchange, and of every
reply.  The payload of an exchange is left out: of a response nothing is told, and of the argument
of AUTH only what stands before the first SP.  A challenge is told as it is.
-/

namespace GoSmtp.Server

variable {φ ω : Type}

/-- What goes over the wire, content aside. -/
inductive Traffic where
  | command (c : Command)
  /-- A line of a SASL exchange. -/
  | response (line : Bytes)
  | reply (r : WireReply)
  deriving DecidableEq, Repr

namespace Traffic

def redacted : Bytes := ascii "<redacted>"

/-- The line of `traceCommand`. -/
def traceCommand (verb argument : Bytes) : Bytes :=
  if argument.isEmpty then verb
  else if verb == ascii "AUTH" then
    verb ++ [sp] ++ (argument.takeWhile (· != sp) ++ [sp] ++ redacted)
  else verb ++ [sp] ++ argument

/-- The line for a reply.  Of the reply to EHLO only the first line is told. -/
def traceReply (r : WireReply) : Bytes :=
  itoa r.code ++ [sp] ++
    match r.context, r.lines with
    | .hello, identity :: _ => identity
    | _, [] => r.text
    | _, lines => [lf].intercalate lines

/-- What the trace is told. -/
def event : Traffic → TraceEvent
  | .command c => ⟨.received, traceCommand (toUpper c.verb) c.argument⟩
  | .response _ => ⟨.received, redacted⟩
  | .reply r => ⟨.sent, traceReply r⟩

/-- The commands are AUTH, with initial responses that stand between the given texts. -/
structure Initial (before after : Bytes) (c c' : Command) : Prop where
  verb : c'.verb = c.verb
  auth : toUpper c.verb = ascii "AUTH"
  left : ∃ initial, SecondField c.argument before initial after
  right : ∃ initial, SecondField c'.argument before initial after

/-- The traffic differs in the payload of SASL only, if at all. -/
inductive Alike : Traffic → Traffic → Prop where
  | same (x : Traffic) : Alike x x
  | initial {before after : Bytes} {c c' : Command} (h : Initial before after c c') :
      Alike (.command c) (.command c')
  | response (line line' : Bytes) : Alike (.response line) (.response line')
  | challenge (text text' : Bytes) :
      Alike (.reply { code := 334, text := text }) (.reply { code := 334, text := text' })

/-- What the traffic differs in, if anything, is not told: it is a response, or an initial response
that stands after a SP. -/
inductive Veiled : Traffic → Traffic → Prop where
  | same (x : Traffic) : Veiled x x
  | initial {before after : Bytes} {c c' : Command} (h : Initial before after c c')
      (hsp : sp ∈ before) : Veiled (.command c) (.command c')
  | response (line line' : Bytes) : Veiled (.response line) (.response line')

theorem takeWhile_of_mem {w : Bytes} (h : sp ∈ w) (rest : Bytes) :
  (w ++ rest).takeWhile (· != sp) = w.takeWhile (· != sp)
  := by
  induction w with
  | nil => cases h
  | cons b w ih =>
    by_cases hb : b = sp
    · simp [hb]
    · have hmem : sp ∈ w := (List.mem_cons.mp h).resolve_left (Ne.symm hb)
      simp [hb, ih hmem]

theorem takeWhile_of_not_mem {w : Bytes} (h : sp ∉ w) (rest : Bytes) :
  (w ++ rest).takeWhile (· != sp) = w ++ rest.takeWhile (· != sp)
  := by
  apply List.takeWhile_append_of_pos
  intro b hb
  simp only [bne_iff_ne, ne_eq]
  rintro rfl
  exact h hb

theorem traceCommand_auth {c : Command} {before initial after : Bytes}
    (hauth : toUpper c.verb = ascii "AUTH") (h : SecondField c.argument before initial after) :
  traceCommand (toUpper c.verb) c.argument = ascii "AUTH" ++ [sp] ++
    ((before ++ (initial ++ after)).takeWhile (· != sp) ++ [sp] ++ redacted)
  := by
  have hne : c.argument.isEmpty = false := by
    obtain ⟨lead, name, gap, last, trail, hw, -, -, -, -, -, hname, -⟩ := h
    cases hargument : c.argument with
    | nil =>
      rw [hargument] at hw
      simp [spaced, hname] at hw
    | cons _ _ => rfl
  rw [traceCommand, hne, hauth, ← h.eq]
  simp

theorem Veiled.event_eq {x x' : Traffic} (h : Veiled x x') :
  x.event = x'.event
  := by
  cases h with
  | same => rfl
  | response => rfl
  | initial h hsp =>
    obtain ⟨hverb, hauth, ⟨i, hi⟩, i', hi'⟩ := h
    rw [event, event, traceCommand_auth hauth hi, traceCommand_auth (hverb ▸ hauth) hi',
      takeWhile_of_mem hsp, takeWhile_of_mem hsp]

theorem Alike.veiled {x x' : Traffic} (h : Alike x x') (heq : x.event = x'.event) :
  Veiled x x'
  := by
  cases h with
  | same => exact .same x
  | response line line' => exact .response line line'
  | challenge text text' =>
    have htext : text = text' := by
      simpa [event, traceReply] using heq
    rw [htext]
    exact .same _
  | @initial before after c c' h =>
    by_cases hsp : sp ∈ before
    · exact .initial h hsp
    · obtain ⟨hverb, hauth, ⟨i, hi⟩, i', hi'⟩ := h
      rw [event, event, traceCommand_auth hauth hi, traceCommand_auth (hverb ▸ hauth) hi',
        takeWhile_of_not_mem hsp, takeWhile_of_not_mem hsp, takeWhile_of_not_mem hi.sp_not_mem,
        takeWhile_of_not_mem hi'.sp_not_mem] at heq
      have hii : i = i' := by simpa using heq
      have hargument : c'.argument = c.argument := by rw [hi.eq, hi'.eq, hii]
      obtain rfl : c' = c := by
        cases c
        cases c'
        simp_all
      exact .same _

theorem map_event_eq_iff {xs xs' : List Traffic} (h : List.Forall₂ Alike xs xs') :
  xs.map event = xs'.map event ↔ List.Forall₂ Veiled xs xs'
  := by
  induction h with
  | nil => simp
  | cons hx hxs ih =>
    rw [List.map_cons, List.map_cons, List.cons_eq_cons, ih, List.forall₂_cons]
    exact and_congr_left fun _ => ⟨hx.veiled, Veiled.event_eq⟩

/-! ### Runs -/

/-- The observer that keeps the traffic of a session. -/
def observer : Observer φ (List Traffic) where
  wrote r xs := xs ++ [.reply r]
  flushed xs := xs
  awaits awaited feed xs :=
    match awaited with
    | .command =>
      match (readCommand feed).1 with
      | .ok c => xs ++ [.command c]
      | .error _ => xs
    | .response =>
      match (readSASLResponse feed).1 with
      | .ok line => xs ++ [.response line]
      | .error _ => xs
    | .content | .chunk _ => xs
  shaken xs := xs
  buffered _ _ := none

end Traffic

/-- A run of a session: the greeting, and at most the given number of turns. -/
structure Run (φ ω : Type) where
  cfg : Config
  env : Env φ ω
  manager : SpoolManager
  tls : Bool
  feed : Feed UInt8 φ
  world : ω
  turns : Nat

namespace Run

def traffic (run : Run φ ω) : List Traffic :=
  (Session.attend run.cfg (run.env.observed Traffic.observer) run.turns
    (Session.new run.cfg run.manager run.tls run.feed (run.world, []))).2.ghost

/-- The events that the trace is told. -/
def trace (run : Run φ ω) : List TraceEvent := run.traffic.map Traffic.event

/-- Two runs that differ in the payload of SASL only have the same trace exactly if their challenges
are the same, and so is every initial response that does not stand after a SP. -/
theorem trace_eq_iff {φ' ω' : Type} (run : Run φ ω) (run' : Run φ' ω')
    (h : List.Forall₂ Traffic.Alike run.traffic run'.traffic) :
  run.trace = run'.trace ↔ List.Forall₂ Traffic.Veiled run.traffic run'.traffic
  := Traffic.map_event_eq_iff h

/-- A server that offers the given mechanisms. -/
def offering (mechanisms : List Bytes) : Config :=
  { Config.small 7 seven_lt with authMechanisms := fun _ _ => mechanisms }

/-- A peer that sends the given lines to a server with the given random octets. -/
def exchanging (mechanisms : List Bytes) (lines : List Bytes) (random : Bytes) : Run Empty Unit where
  cfg := offering mechanisms
  env := Env.plain.withAuth { AuthBackend.plain with random := fun w => (some random, w) }
  manager := Session.SpoolManager.small
  tls := false
  feed := Feed.items (lines.flatMap (· ++ crlf))
  world := ()
  turns := lines.length

/-- The traffic of a peer that greets, and an exchange. -/
def greeted (xs : List Traffic) : List Traffic :=
  [.reply { code := 220, text := ascii "b Service ready", context := .greeting },
    .command ⟨ascii "EHLO", ascii "a"⟩,
    .reply { code := 250, lines := [ascii "b"], context := .hello }] ++ xs

def malformed : Traffic :=
  .reply { code := 501, enhanced := ⟨5, 5, 2, []⟩,
           text := ascii "Authentication exchange cancelled or malformed" }

theorem alike_greeted {xs xs' : List Traffic} (h : List.Forall₂ Traffic.Alike xs xs') :
  List.Forall₂ Traffic.Alike (greeted xs) (greeted xs')
  := .cons (.same _) (.cons (.same _) (.cons (.same _) h))

theorem veiled_greeted {xs xs' : List Traffic} (h : List.Forall₂ Traffic.Veiled xs xs') :
  List.Forall₂ Traffic.Veiled (greeted xs) (greeted xs')
  := .cons (.same _) (.cons (.same _) (.cons (.same _) h))

/-- A peer that authenticates with PLAIN and an initial response that cannot be decoded. -/
def plain (initial : Bytes) : Run Empty Unit :=
  exchanging [ascii "PLAIN"] [ascii "EHLO a", ascii "AUTH PLAIN " ++ initial] []

/-- The traffic of such a peer. -/
def plainTraffic (initial : Bytes) : List Traffic :=
  greeted [.command ⟨ascii "AUTH", ascii "PLAIN " ++ initial⟩, malformed]

/-- Two initial responses that do not show. -/
theorem trace_eq_iff_plain :
  (plain (ascii "x")).traffic ≠ (plain (ascii "y")).traffic ∧
    (plain (ascii "x")).trace = (plain (ascii "y")).trace
  := by
  have hx : (plain (ascii "x")).traffic = plainTraffic (ascii "x") := by decide +kernel
  have hy : (plain (ascii "y")).traffic = plainTraffic (ascii "y") := by decide +kernel
  have hinitial : Traffic.Initial (ascii "PLAIN ") [] ⟨ascii "AUTH", ascii "PLAIN x"⟩
      ⟨ascii "AUTH", ascii "PLAIN y"⟩ :=
    ⟨rfl, rfl, ⟨[120], ⟨[], (ascii "PLAIN").map (·, false), [(sp, true)], [(120, false)], [],
      by decide⟩⟩, [121], ⟨[], (ascii "PLAIN").map (·, false), [(sp, true)], [(121, false)], [],
      by decide⟩⟩
  constructor
  · rw [hx, hy]
    decide
  · rw [trace_eq_iff, hx, hy]
    · exact veiled_greeted (.cons (.initial hinitial (by decide)) (.cons (.same _) .nil))
    · rw [hx, hy]
      exact alike_greeted (.cons (.initial hinitial) (.cons (.same _) .nil))

/-- A peer that gets the challenge of CRAM-MD5, and cancels the exchange. -/
def cram (random : Bytes) : Run Empty Unit :=
  exchanging [ascii "CRAM-MD5"] [ascii "EHLO a", ascii "AUTH CRAM-MD5", ascii "*"] random

def cramTraffic (challenge : Bytes) : List Traffic :=
  greeted [.command ⟨ascii "AUTH", ascii "CRAM-MD5"⟩, .reply { code := 334, text := challenge },
    .response (ascii "*"), malformed]

/-- Two challenges that differ, and so do the traces. -/
theorem not_trace_eq_challenge :
  List.Forall₂ Traffic.Alike (cram [1]).traffic (cram [2]).traffic ∧
    (cram [1]).trace ≠ (cram [2]).trace
  := by
  have h1 : (cram [1]).traffic = cramTraffic (ascii "<" ++ [1] ++ ascii "@b>") := by decide +kernel
  have h2 : (cram [2]).traffic = cramTraffic (ascii "<" ++ [2] ++ ascii "@b>") := by decide +kernel
  constructor
  · rw [h1, h2]
    exact alike_greeted
      (.cons (.same _) (.cons (.challenge _ _) (.cons (.same _) (.cons (.same _) .nil))))
  · rw [trace, trace, h1, h2]
    decide

end Run

end GoSmtp.Server
