import GoSmtp.Server.Utf8Gate
import GoSmtp.Wire.CommandFraming
import GoSmtp.Wire.Received

/-!
# Trace fields of a session

Before it hands a message to the backend, a session puts a Received field in front of it.  The name
that the client gave is valid, because there are no recipients without a valid name; the recipients
are free of control characters, because commands are; and the protocol is never one that the format
does not know.
-/

namespace GoSmtp.Server

open Octet

variable {φ ω : Type}
variable {identity : Bytes} {es : List LogEvent}

/-- The options with which `evaluateContent` calls `FormatReceived`, for the first recipient. -/
def receivedOptions (identity : Bytes) (state : ProtocolState) (extended : Bool) (recipient : Bytes)
    (count : Nat) (timestamp : Bytes) : ReceivedOptions where
  fromName := state.hello
  byName := identity
  extended := extended || state.tls || state.authenticated
  lmtp := state.mode = .lmtp
  tls := state.tls
  authenticated := state.authenticated
  forPath := langle :: recipient ++ [rangle]
  recipientCount := count
  timestamp := some timestamp

/-- The environment of a server with the identity, where `now` formats the time.  Without recipients
the first of them cannot be taken. -/
def Env.tracing (env : Env φ ω) (identity : Bytes) (now : ω → Bytes × ω) : Env φ ω :=
  { env with
    received := fun state extended recipients w =>
      match recipients with
      | [] => (none, w)
      | recipient :: rest =>
        let time := now w
        ((formatReceived (receivedOptions identity state extended recipient (rest.length + 1)
          time.1)).toOption, time.2) }

/-- The field is one line without control characters, and names extended SMTP unless it may not. -/
def Presentable (identity : Bytes) (state : ProtocolState) (extended : Bool)
    (header : Option Bytes) : Prop :=
  ∃ keyword tail,
    let line := ascii "Received: from " ++ state.hello ++ ascii " by " ++ identity ++
      ascii " with " ++ keyword ++ tail
    header = some (line ++ crlf) ∧ Clean line ∧
    (keyword ∈ esmtpKeywords ∨ state.mode = .lmtp ∨
      extended = false ∧ state.tls = false ∧ state.authenticated = false)

theorem clean_of_validGreetingIdentity (h : validGreetingIdentity identity = true) :
  Clean identity
  := by
  intro c hc
  obtain ⟨hlow, hhigh⟩ := (printable_of_validGreetingIdentity h).2 c hc
  rw [UInt8.le_iff_toNat_le] at hlow hhigh
  simp only [isControl, Bool.or_eq_false_iff, decide_eq_false_iff_not, UInt8.lt_iff_toNat_lt,
    beq_eq_false_iff_ne, ne_eq, ← UInt8.toNat_inj]
  change 0x21 ≤ c.toNat at hlow
  change c.toNat ≤ 0x7e at hhigh
  change ¬ c.toNat < 32 ∧ ¬ c.toNat = 127
  omega

theorem presentable_received {state : ProtocolState} {extended : Bool}
    {recipient timestamp : Bytes} {count : Nat} (hidentity : validGreetingIdentity identity = true)
    (hhello : validGreetingIdentity state.hello = true) (hrecipient : Clean recipient)
    (htime : Clean timestamp) :
  Presentable identity state extended
    (formatReceived (receivedOptions identity state extended recipient count timestamp)).toOption
  := by
  obtain ⟨keyword, tail, hformat, hline, hkeyword⟩ :=
    formatReceived_line (receivedOptions identity state extended recipient count timestamp)
      rfl htime
      (printable_of_validGreetingIdentity hhello).1 (clean_of_validGreetingIdentity hhello)
      (printable_of_validGreetingIdentity hidentity).1 (clean_of_validGreetingIdentity hidentity)
      rfl (Int.natCast_nonneg count) rfl hrecipient (by
        cases htls : state.tls <;> cases hauth : state.authenticated <;>
          simp [receivedOptions, htls, hauth])
  refine ⟨keyword, tail, by rw [hformat]; rfl, hline, ?_⟩
  simpa [receivedOptions, and_assoc] using hkeyword

theorem mem_argument_of_forwardPath {opts : PathOptions} {argument : Bytes} {path : WirePath}
    (h : parseForwardPath opts argument = .ok path) {c : UInt8} (hc : c ∈ path.mailbox) :
  c ∈ argument
  := by
  rw [parseForwardPath, parsePathArgument] at h
  split at h
  · cases h
  obtain ⟨raw, suffix, hrest, hdelimited⟩ := parseBracketed_eq_ok h
  have hraw : c ∈ raw := by
    rcases hdelimited.path with ⟨-, hnull, -⟩ | ⟨hraw, -, -, m, hm, hmailbox⟩
    · cases hnull
    · rw [(parseMailbox_eq_ok hmailbox).1.mailbox] at hc
      rcases (discardSourceRoute_eq_ok hraw hm).2 with ⟨rfl, -⟩ | ⟨hops, rfl⟩
      · exact hc
      · simp [hc]
  have hmem : c ∈ (argument.drop (ascii "TO:").length).dropWhile (· == sp) := by
    rw [hrest]
    simp [hraw]
  exact List.mem_of_mem_drop ((List.dropWhile_suffix _).subset hmem)

theorem clean_argument {feed rest : Feed UInt8 φ} {c : Command}
    (h : readCommand feed = (.ok c, rest)) :
  Clean c.argument
  := by
  rw [readCommand] at h
  split at h
  · cases h
  · next line _ _ =>
    obtain ⟨h, -⟩ := Prod.mk.inj h
    split at h
    · cases h
    · exact (parseCommand_eq_ok.mp h).2.2.1

/-- The fields that are formatted are presentable. -/
def Env.Traces (env : Env φ ω) (identity : Bytes) : Prop :=
  ∀ {state : ProtocolState} (extended : Bool) {recipients : List Bytes} (w : ω),
    recipients ≠ [] → (∀ r ∈ recipients, Clean r) → validGreetingIdentity state.hello = true →
    Presentable identity state extended (env.received state extended recipients w).1

theorem traces_tracing (env : Env φ ω) {now : ω → Bytes × ω}
    (hidentity : validGreetingIdentity identity = true) (hnow : ∀ w, Clean (now w).1) :
  (env.tracing identity now).Traces identity
  := by
  intro state extended recipients w hne hrecipients hhello
  cases recipients with
  | nil => exact absurd rfl hne
  | cons recipient rest =>
    apply presentable_received hidentity hhello _ (hnow w)
    exact hrecipients recipient List.mem_cons_self

namespace Session

section

variable {cfg : Config} {env : Env φ ω} {identity : Bytes} {s s' : Session φ ω}

/-- The recipients are clean, and so are the fields that were formatted. -/
structure Neat (identity : Bytes) (s : Session φ ω) : Prop where
  recipients : ∀ r ∈ s.recipients, Clean r
  fields : ∀ {state extended header}, .traced state extended header ∈ s.log →
    Presentable identity state extended header

/-- Moreover, there are no recipients without the name of a client. -/
structure Traceable (identity : Bytes) (s : Session φ ω) : Prop extends Neat identity s where
  hello : s.recipients ≠ [] → validGreetingIdentity s.state.hello = true

theorem Neat.of_events (h : Neat identity s) (hrecipients : s'.recipients ⊆ s.recipients)
    (hlog : s'.log = s.log ++ es)
    (hes : ∀ {state extended header}, .traced state extended header ∈ es →
      Presentable identity state extended header) :
  Neat identity s'
  := by
  refine ⟨fun r hr => h.recipients r (hrecipients hr), fun hmem => ?_⟩
  rw [hlog] at hmem
  rcases List.mem_append.mp hmem with hmem | hmem
  · exact h.fields hmem
  · exact hes hmem

theorem Neat.step (h : Neat identity s) (hrecipients : s'.recipients ⊆ s.recipients)
    (hlog : s'.log = s.log ++ es) (hes : ∀ e ∈ es, e.concern ≠ some .trace) :
  Neat identity s'
  := h.of_events hrecipients hlog fun hmem => absurd rfl (hes _ hmem)

theorem Neat.same (h : Neat identity s) (hrecipients : s'.recipients ⊆ s.recipients)
    (hlog : s'.log = s.log) :
  Neat identity s'
  := h.step hrecipients (hlog.trans (List.append_nil _).symm) (by simp)

theorem Traceable.step (h : Traceable identity s) (hrecipients : s'.recipients ⊆ s.recipients)
    (hhello : s'.state.hello = s.state.hello) (hlog : s'.log = s.log ++ es)
    (hes : ∀ e ∈ es, e.concern ≠ some .trace) :
  Traceable identity s'
  := by
  refine ⟨h.toNeat.step hrecipients hlog hes, fun hne => ?_⟩
  rw [hhello]
  apply h.hello
  intro hnil
  rw [hnil, List.subset_nil] at hrecipients
  exact hne hrecipients

theorem Traceable.same (h : Traceable identity s) (hrecipients : s'.recipients ⊆ s.recipients)
    (hhello : s'.state.hello = s.state.hello) (hlog : s'.log = s.log) :
  Traceable identity s'
  := h.step hrecipients hhello (hlog.trans (List.append_nil _).symm) (by simp)

/-- What is not about the recipients or the content of a message. -/
def Concern.Aside (k : Concern) : Prop := k ∉ [.recipient, .content, .trace]

/-- What is about the content of a message at most. -/
def Concern.Inner (k : Concern) : Prop := k = .ordinary ∨ k = .content

theorem drift_neat :
  Drift Concern.Aside (Exec.Preserves (Neat identity : Session φ ω → Prop))
  where
  ordinary := by simp [Concern.Aside]
  own {k} _ _ hk hown h := by
    cases hown with
    | events s hes =>
      refine h.step (List.Subset.refl _) rfl fun e he hconcern => hk ?_
      rw [hes e he] at hconcern
      rw [Option.some.inj hconcern]
      decide
    | added s => exact absurd (by decide) hk
    | clear s | greeted s | sent s =>
      exact h.same (List.nil_subset _) rfl
    | _ => exact h.same (List.Subset.refl _) rfl
  beyond s _ _ _ h := h.same (List.Subset.refl _) rfl
  reply _ s r h := by
    refine h.step (List.Subset.refl _) rfl fun e he => ?_
    rw [List.mem_singleton.mp he, LogEvent.concern, WireReply.concern]
    split <;> decide

theorem drift_traceable :
  Drift Concern.Inner (Exec.Preserves (Traceable identity : Session φ ω → Prop))
  where
  ordinary := .inl rfl
  own {k} _ _ hk hown h := by
    cases hown with
    | events s hes =>
      refine h.step (List.Subset.refl _) rfl rfl fun e he hconcern => ?_
      rw [hes e he] at hconcern
      rcases hk with rfl | rfl <;> cases hconcern
    | @state s event state hstate =>
      refine h.same (List.Subset.refl _) ?_ rfl
      -- The events that drop the name of the client have a concern of their own.
      rw [ProtocolState.transition] at hstate
      split at hstate
      · cases hstate
        cases event <;> first | rfl | (rcases hk with hk | hk <;> cases hk)
      · cases hstate
    | greeted s | sent s | added s | secured s => rcases hk with hk | hk <;> cases hk
    | clear s => exact h.same (List.nil_subset _) rfl rfl
    | _ => exact h.same (List.Subset.refl _) rfl rfl
  beyond s _ _ _ h := h.same (List.Subset.refl _) rfl rfl
  reply hk := by rcases hk with hk | hk <;> cases hk

theorem Traceable.evaluateContent (henv : env.Traces identity) (h : Traceable identity s)
    (hne : s.recipients ≠ []) {σ : Type} (command : Bytes) (r : Reader σ UInt8 (ContentError φ))
    (source : Source) (size : Nat) (content : σ) :
  Traceable identity (evaluateContent env command r source size content s).2
  := by
  have htraced (w : ω) : Traceable identity { s with
      world := w, log := s.log ++ [.traced s.state s.extended
        (env.received s.state s.extended s.recipients s.world).1] } := by
    refine ⟨h.toNeat.of_events (List.Subset.refl _) rfl fun hmem => ?_, h.hello⟩
    cases List.mem_singleton.mp hmem
    exact henv s.extended s.world hne h.recipients (h.hello hne)
  have hwp : wp (Session.evaluateContent env command r source size content)
      (fun _ => Traceable identity) (fun _ => Traceable identity) s := by
    rw [Session.evaluateContent, wp_bind, wp_read, wp_bind, wp_outside,
      wp_bind, wp_record]
    split
    · exact htraced _
    · simp only [wp_bind, wp_record, wp_read, wp_update, wp_pure]
      refine (htraced s.world).step (List.Subset.refl _) rfl (List.append_assoc _ _ _) ?_
      simp [LogEvent.concern]
  exact wp_elim (P := fun x => Traceable identity x.2) hwp (fun _ _ => id) (fun _ _ => id)
    fun _ => id

theorem walk_traceable (henv : env.Traces identity) :
  Walk env Concern.Inner (Exec.Preserves (Traceable identity : Session φ ω → Prop))
  := drift_traceable.walk fun _ _ command r source size content _ hne h =>
    h.evaluateContent henv hne command r source size content

theorem walk_neat (env : Env φ ω) (identity : Bytes) :
  Walk env Concern.Aside (Exec.Preserves (Neat identity : Session φ ω → Prop))
  := drift_neat.walk fun hk => absurd (by decide) hk

end

section

variable {cfg : Config} {time : TimeFormat} {binaryMIME : Bool} {extensions : Extensions}
  {env : Env φ ω} {identity : Bytes} {c : Command} {s : Session φ ω}

theorem Neat.added {utf8 : Bool} {path : Path} (hc : Clean c.argument)
    (hpath : (cfg.speaking time binaryMIME extensions).grammar.forwardPath utf8 c.argument =
      some path) (h : Neat identity s) :
  Neat identity { s with recipients := s.recipients ++ [path.mailbox] }
  := by
  obtain ⟨wire, hwire, rfl⟩ := forwardPath_wire hpath
  refine ⟨fun r hr => ?_, h.fields⟩
  rcases List.mem_append.mp hr with hr | hr
  · exact h.recipients r hr
  · rw [List.mem_singleton.mp hr]
    exact fun b hb => hc b (mem_argument_of_forwardPath hwire hb)

theorem Traceable.execute (henv : env.Traces identity) (h : Traceable identity s)
    (hc : Clean c.argument) :
  Neat identity (execute (cfg.speaking time binaryMIME extensions) env c s).2
  := by
  have hneat := walk_neat env identity
  have htraceable := walk_traceable (φ := φ) henv
  by_cases hinner : (Verb.ofSpelling c.verb).concern.Inner
  · refine (htraceable.execute hinner (fun s h => ?_) (fun _ _ => ?_) h).toNeat
    · exact h.same (List.Subset.refl _) rfl rfl
    · exact htraceable.handleBDAT (.inr rfl) fun framing _ _ _ =>
        ⟨drift_traceable.around.takeChunk env _ _, drift_traceable.around.takeChunk env _ _⟩
  · by_cases hverb : Verb.ofSpelling c.verb = .rcpt
    · simp only [Session.execute]
      rw [hverb, if_neg (by decide)]
      exact hneat.dispatch (fun _ => hneat.handleRcpt (fun hpath _ h => h.added hc hpath) s) h.toNeat
    · have haside : (Verb.ofSpelling c.verb).concern.Aside := by
        revert hinner hverb
        cases Verb.ofSpelling c.verb <;> simp [Concern.Inner, Concern.Aside, Verb.concern]
      refine hneat.execute haside (fun s h => ?_) (fun hbdat => ?_) h.toNeat
      · exact h.same (List.Subset.refl _) rfl
      · rw [hbdat] at hinner
        exact absurd (.inr rfl) hinner

theorem Traceable.turn (henv : env.Traces identity) (h : Traceable identity s) :
  Neat identity (turn (cfg.speaking time binaryMIME extensions) env s).2
  := by
  have hwp : wp (Session.turn (cfg.speaking time binaryMIME extensions) env)
      (fun _ => Neat identity) (fun _ => Neat identity) s := by
    refine wp_turn_walk (walk_traceable henv) (walk_neat env identity)
      (drift_traceable.around.await env _) (fun hstep => hstep) (fun hstep => hstep)
      (fun h => h.toNeat) id (fun hread h => ?_) h
    apply wp_of_state
    apply Traceable.execute henv _ (clean_argument hread)
    exact h.step (List.Subset.refl _) rfl rfl (by simp [LogEvent.concern])
  exact wp_elim (P := fun x => Neat identity x.2) hwp (fun _ _ => id) (fun _ _ => id)
    fun _ => id

theorem Neat.traceable {tls : Bool}
    (hsteady : s.facts.Steady (cfg.speaking time binaryMIME extensions) tls) (h : Neat identity s) :
  Traceable identity s
  := by
  refine ⟨h, fun hne => hsteady.hello_valid fun hphase => hne ?_⟩
  exact hsteady.coherent.cleared (by simp [hphase])

end

/-- In every run of a server with a valid identity and a clock that is printed without control
characters, every Received field is one line that ends in its only CRLF, and names extended SMTP
unless the session is LMTP, or SMTP without extensions, TLS and authentication. -/
theorem presentable_after (cfg : Config) (time : TimeFormat) (binaryMIME : Bool)
    (extensions : Extensions) (env : Env φ ω) (now : ω → Bytes × ω) (b : AuthBackend ω)
    (manager : SpoolManager) (tls : Bool) (feed : Feed UInt8 φ) (world : ω) (n : Nat)
    (hidentity : validGreetingIdentity cfg.identity = true) (hnow : ∀ w, Clean (now w).1)
    {state : ProtocolState} {extended : Bool} {header : Option Bytes}
    (hfield : .traced state extended header ∈ (after (cfg.speaking time binaryMIME extensions)
      (env.tracing cfg.identity now) b manager tls feed world n).1.log) :
  Presentable cfg.identity state extended header
  := by
  have henv : ((env.tracing cfg.identity now).withAuth b).Traces cfg.identity :=
    fun extended _ => traces_tracing env hidentity hnow extended
  have hnew : Neat cfg.identity
      (Session.new (cfg.speaking time binaryMIME extensions) manager tls feed world) :=
    ⟨by intros; contradiction, by intros; contradiction⟩
  have hneat : Neat cfg.identity (after (cfg.speaking time binaryMIME extensions)
      (env.tracing cfg.identity now) b manager tls feed world n).1 := by
    refine serve_invariant (fun s hsteady h => (h.traceable hsteady).turn henv) (fun s => ?_) hnew
      fun k _ hon => steady_after hon
    exact drift_neat.close (by simp [Concern.Aside]) _ (fun hk => absurd (by decide) hk) s
  exact hneat.fields hfield

/-- The log of a session in which a client that said HELO sends a message. -/
def heloLog : List LogEvent :=
  (after ((Config.small 7 seven_lt).speaking .never false fun _ => none)
    (Env.plain.tracing (ascii "b") fun _ => (ascii "now", ())) .plain SpoolManager.small false
    (script ["HELO a", "MAIL FROM:<a@b>", "RCPT TO:<a@b>", "DATA", "."]) () 4).1.log

theorem presentable_after_helo :
  ∃ state extended header, .traced state extended header ∈ heloLog ∧
    Presentable (ascii "b") state extended header
  := by
  have hlog : ∃ e ∈ heloLog, e.concern = some .trace := by decide +kernel
  obtain ⟨e, he, hconcern⟩ := hlog
  cases e with
  | traced state extended header =>
    refine ⟨state, extended, header, he, ?_⟩
    exact presentable_after (Config.small 7 (by decide)) .never false (fun _ => none) Env.plain
      (fun _ => (ascii "now", ())) .plain SpoolManager.small false _ () 4 (by decide)
      (fun _ => by unfold Clean; decide) he
  | reply r =>
    rw [LogEvent.concern, WireReply.concern] at hconcern
    split at hconcern <;> cases hconcern
  | _ => cases hconcern

end Session

end GoSmtp.Server
