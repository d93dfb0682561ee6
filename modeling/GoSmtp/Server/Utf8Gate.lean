import GoSmtp.Server.Dialect
import GoSmtp.Server.Drift
import GoSmtp.Server.OneReply
import GoSmtp.Server.ParamOrder

/-!
# The gate of SMTPUTF8

A path with octets beyond ASCII needs SMTPUTF8 on the MAIL command of its transaction.  MAIL is parsed
as if SMTPUTF8 were on, and its mailbox is checked afterwards; RCPT is parsed under a flag that the
session keeps from MAIL.  The mailbox of MAIL is without its source route, so that nothing looks at
the octets of that.
-/

namespace GoSmtp.Server

open Exec

open Octet

/-! ### Paths of arguments -/

/-- The text in the angle brackets behind the keyword of an argument. -/
def pathText (keyword argument : Bytes) : Bytes :=
  let rest := (argument.drop keyword.length).dropWhile (· == sp)
  (rest.take ((pathClosingAngle rest).getD 0)).drop 1

/-- The source route of a path. -/
def sourceRoute (text : Bytes) : Bytes :=
  if text.head? == some atSign then text.take ((sourceRouteColon text).getD 0) else []

/-- The argument of MAIL has the parameter SMTPUTF8. -/
def carriesUTF8 (argument : Bytes) : Bool :=
  match parseReversePath { smtpUTF8 := true } argument with
  | .error _ => false
  | .ok path => path.params.any fun p => toUpper p.keyword == ascii "SMTPUTF8"

theorem pathText_of_ok {keyword : Bytes} {allowNull allowPostmaster : Bool} {opts : PathOptions}
    (h : parsePathArgument argument keyword allowNull allowPostmaster opts = .ok path) :
  ∃ suffix, Delimited allowNull allowPostmaster opts (pathText keyword argument) suffix path
  := by
  rw [parsePathArgument] at h
  split at h
  · cases h
  · obtain ⟨raw, suffix, hrest, hdelimited⟩ := parseBracketed_eq_ok h
    have hclose : pathClosingAngle (langle :: (raw ++ rangle :: suffix)) = some (1 + raw.length) :=
      closingAngle_eq_some.mpr ⟨raw, suffix, rfl, hdelimited.stays, hdelimited.closes, rfl⟩
    have htext : pathText keyword argument = raw := by
      rw [pathText, hrest, hclose, Option.getD_some, take_bracketed]
    exact ⟨suffix, htext ▸ hdelimited⟩

theorem hasHighByte_discardSourceRoute {utf8 : Bool} {raw m : Bytes}
    (h : discardSourceRoute utf8 raw = .ok m) :
  hasHighByte raw = (hasHighByte (sourceRoute raw) || hasHighByte m)
  := by
  rw [discardSourceRoute] at h
  split at h
  · next hhead =>
    cases h
    rw [sourceRoute, if_neg (by simpa using hhead)]
    rfl
  · next hhead =>
    split at h
    · cases h
    · next i hcolon =>
      split at h
      · cases h
      · have hm : raw.drop (i + 1) = m := by
          cases hhops : ((raw.take i).splitOn comma).forM (validateHop utf8) with
          | error e =>
            rw [hhops] at h
            cases h
          | ok u =>
            rw [hhops] at h
            exact Except.ok.inj h
        obtain ⟨v, rest, rfl, rfl⟩ := routeColon_eq_some hcolon
        rw [sourceRoute, if_pos (by simpa using hhead), hcolon, ← hm]
        simp [hasHighByte, colon]

theorem hasHighByte_reversePath (h : parseReversePath { smtpUTF8 := true } argument = .ok path) :
  hasHighByte (pathText (ascii "FROM:") argument) =
    (hasHighByte (sourceRoute (pathText (ascii "FROM:") argument)) || hasHighByte path.mailbox)
  := by
  obtain ⟨suffix, hdelimited⟩ := pathText_of_ok h
  rcases hdelimited.path with ⟨hnil, -, hpath⟩ | ⟨-, -, -, m, hm, hmailbox⟩
  · rw [hnil, hpath]
    rfl
  · rw [hasHighByte_discardSourceRoute hm, (parseMailbox_eq_ok hmailbox).1.mailbox]

theorem hasHighByte_forwardPath (h : parseForwardPath { smtpUTF8 := false } argument = .ok path) :
  hasHighByte (pathText (ascii "TO:") argument) = false
  := by
  obtain ⟨suffix, hdelimited⟩ := pathText_of_ok h
  rcases hdelimited.path with ⟨hnil, -, -⟩ | ⟨-, -, hadmitted, -⟩
  · rw [hnil]
    rfl
  · rcases hadmitted with hutf8 | hlow
    · cases hutf8
    · exact hlow

/-! ### The parameter SMTPUTF8 -/

theorem smtpUTF8_apply {setting : MailSetting} (h : setting.slot ≠ .core .smtpUTF8)
    (o : MailOptions) :
  (setting.apply o).transport.any (·.smtpUTF8) = o.transport.any (·.smtpUTF8)
  := by
  cases setting with
  | smtpUTF8 => exact absurd rfl h
  | size n | body b =>
    obtain ⟨transport, -, -, -, -, -⟩ := o
    cases transport <;> rfl
  | _ => rfl

section

variable {time : TimeFormat} {features : MailParameterFeatures}

theorem smtpUTF8_act {p : EsmtpParam} (hkey : mailKey p ≠ some (.core .smtpUTF8)) :
  ((mailItems time features).act o p).transport.any (·.smtpUTF8) = o.transport.any (·.smtpUTF8)
  := by
  rw [mailItems]
  cases hp : mailKey p with
  | none =>
    rw [Exclusive.keyed_act_none hp]
  | some k =>
    rw [Exclusive.keyed_act_some hp]
    cases hset : mailSet time features p k with
    | none => rfl
    | some setting =>
      apply smtpUTF8_apply
      rw [mailSet_slot hset]
      intro hslot
      rcases Known.slot_eq k with heq | ⟨-, heq⟩
      · exact hkey (by rw [hp, ← heq, hslot])
      · rw [heq] at hslot
        cases hslot

theorem smtpUTF8_foldl {l : List EsmtpParam}
    (h : (l.foldl (mailItems time features).act o).transport.any (·.smtpUTF8) = true) :
  o.transport.any (·.smtpUTF8) = true ∨ ∃ p ∈ l, mailKey p = some (.core .smtpUTF8)
  := by
  induction l generalizing o with
  | nil => exact .inl h
  | cons p l ih =>
    by_cases hkey : mailKey p = some (.core .smtpUTF8)
    · exact .inr ⟨p, by simp, hkey⟩
    · rcases ih h with ho | ⟨q, hq, hkey'⟩
      · rw [smtpUTF8_act hkey] at ho
        exact .inl ho
      · exact .inr ⟨q, by simp [hq], hkey'⟩

theorem carries_of_parseMailParameters {params : List EsmtpParam} {opts : Option MailOptions}
    (h : parseMailParameters time features params = .ok opts)
    (hutf8 : (MailParams.ofOptions opts).smtpUTF8 = true) :
  params.any (fun p => toUpper p.keyword == ascii "SMTPUTF8") = true
  := by
  obtain ⟨-, rfl⟩ := (parseParameters_eq_ok mailState (fun _ => rfl) rfl
    (mailParameter_toOption time features)).mp h
  split at hutf8
  · cases hutf8
  · rcases smtpUTF8_foldl hutf8 with hnew | ⟨p, hp, hkey⟩
    · cases hnew
    · refine List.any_eq_true.mpr ⟨p, hp, beq_iff_eq.mpr ?_⟩
      rw [mailKey, Known.ofText] at hkey
      split at hkey
      · next hcore =>
        cases hkey
        exact CoreKeyword.eq_text hcore
      · next hcore =>
        obtain ⟨k, -, hk⟩ := Option.map_eq_some_iff.mp hkey
        cases hk

end

theorem carries_of_mailParams {time : TimeFormat}
    {features : ProtocolState → Bool → MailParameterFeatures} {extensions : Extensions}
    {state : ProtocolState} {extended : Bool}
    (h : (Grammar.wire time features extensions).mailParams state extended (.ofWire path) = .ok params)
    (hutf8 : params.smtpUTF8 = true) :
  path.params.any (fun p => toUpper p.keyword == ascii "SMTPUTF8") = true
  := by
  simp only [Grammar.wire, esmtpParams_ofWire, bind, Except.bind] at h
  split at h
  · cases h
  next opts hopts =>
  split at h
  · cases h
  cases h
  exact carries_of_parseMailParameters hopts hutf8

/-! ### The monitor -/

/-- The command that waits for its reply, and the MAIL command that was answered 250 last. -/
structure Dialogue where
  pending : Option Command := none
  mail : Option Command := none
  deriving DecidableEq, Repr

def isMail (c : Command) : Bool := Verb.ofSpelling c.verb = .mail

namespace Dialogue

def step (e : Dialogue) : LogEvent → Dialogue
  | .decoded c => { e with pending := some c }
  | .reply r =>
    { pending := none, mail := if r.code = 250 && e.pending.any isMail then e.pending else e.mail }
  | _ => e

theorem mail_reply {e : Dialogue} (h : ∀ c ∈ e.pending, isMail c = false) (r : WireReply) :
  (e.step (.reply r)).mail = e.mail
  := by
  obtain ⟨pending, mail⟩ := e
  cases pending with
  | none => simp [step]
  | some c => simp [step, h c rfl]

/-- The MAIL command of the transaction has SMTPUTF8. -/
def utf8 (e : Dialogue) : Bool := e.mail.any (carriesUTF8 ·.argument)

theorem utf8_eq {e : Dialogue} {mail : Option Command} (h : e.mail = mail) :
  e.utf8 = mail.any (carriesUTF8 ·.argument)
  := by
  rw [utf8, h]

/-- The command may be answered 250, as far as SMTPUTF8 goes. -/
def admits (e : Dialogue) (c : Command) : Bool :=
  match Verb.ofSpelling c.verb with
  | .mail => !hasHighByte (pathText (ascii "FROM:") c.argument) || carriesUTF8 c.argument
  | .rcpt => !hasHighByte (pathText (ascii "TO:") c.argument) || e.utf8
  | _ => true

end Dialogue

/-- A MAIL command without SMTPUTF8 whose source route is not ASCII. -/
def routesBeyondASCII (c : Command) : Bool :=
  isMail c && hasHighByte (sourceRoute (pathText (ascii "FROM:") c.argument)) &&
    !carriesUTF8 c.argument

/-- Only commands with the source route are answered 250 that may not be. -/
def gate : Monitor Dialogue LogEvent where
  init := {}
  step := Dialogue.step
  legal e
    | .reply r => r.code = 250 → ∀ c ∈ e.pending, e.admits c = !routesBeyondASCII c
    | _ => True

theorem gate_aside (hcommand : e.command = none) (hreply : e.isReply = false) (x : Dialogue) :
  gate.step x e = x ∧ gate.legal x e
  := by
  cases e with
  | decoded c => cases hcommand
  | reply r => cases hreply
  | _ => exact ⟨rfl, trivial⟩

theorem gate_silent (h : gate.Accepts log) (hes : ∀ e ∈ es, e.command = none ∧ e.isReply = false) :
  gate.Accepts (log ++ es) ∧ gate.run (log ++ es) = gate.run log
  := by
  induction es using List.reverseRecOn with
  | nil => simpa using h
  | append_singleton es e ih =>
    obtain ⟨haccepts, hrun⟩ := ih fun e he => hes e (by simp [he])
    obtain ⟨hcommand, hreply⟩ := hes e (by simp)
    obtain ⟨hstep, hlegal⟩ := gate_aside hcommand hreply (gate.run (log ++ es))
    rw [← List.append_assoc]
    exact ⟨haccepts.snoc hlegal, by rw [Monitor.run_snoc, hstep, hrun]⟩

/-- No MAIL command waits for its reply, and the command that does may be answered. -/
structure Settled (log : List LogEvent) : Prop where
  accepts : gate.Accepts log
  pending : ∀ c ∈ (gate.run log).pending,
    isMail c = false ∧ (gate.run log).admits c = !routesBeyondASCII c

theorem Settled.snoc (h : Settled log) (he : e.command = none) :
  Settled (log ++ [e]) ∧ (gate.run (log ++ [e])).mail = (gate.run log).mail
  := by
  cases hreply : e.isReply with
  | false =>
    obtain ⟨hstep, hlegal⟩ := gate_aside he hreply (gate.run log)
    have hrun : gate.run (log ++ [e]) = gate.run log := by rw [Monitor.run_snoc, hstep]
    exact ⟨⟨h.accepts.snoc hlegal, hrun ▸ h.pending⟩, by rw [hrun]⟩
  | true =>
    cases e with
    | reply r =>
      refine ⟨⟨h.accepts.snoc fun _ c hc => (h.pending c hc).2, ?_⟩, ?_⟩
      · rw [Monitor.run_snoc]
        intros; contradiction
      · rw [Monitor.run_snoc]
        exact Dialogue.mail_reply (fun c hc => (h.pending c hc).1) r
    | _ => cases hreply

theorem Settled.append (h : Settled log) (hes : ∀ e ∈ es, e.command = none) :
  Settled (log ++ es) ∧ (gate.run (log ++ es)).mail = (gate.run log).mail
  := by
  induction es using List.reverseRecOn with
  | nil => simpa using h
  | append_singleton es e ih =>
    obtain ⟨hes', hmail⟩ := ih fun e he => hes e (by simp [he])
    obtain ⟨hsnoc, hmail'⟩ := hes'.snoc (hes e (by simp))
    rw [← List.append_assoc]
    exact ⟨hsnoc, hmail'.trans hmail⟩

namespace Session

variable {φ ω α : Type}
variable {argument : Bytes} {es log : List LogEvent} {c : Command} {o : MailOptions}
  {params : MailParams} {e : LogEvent} {r : WireReply} {env : Env φ ω}
variable {s s' : Session φ ω} {path : WirePath}

/-! ### Steps -/

/-- The log grows by events other than commands, and the flag of SMTPUTF8 is not set. -/
def Gates (s s' : Session φ ω) : Prop :=
  (∃ es, s'.log = s.log ++ es ∧ ∀ e ∈ es, e.command = none) ∧
    (s'.smtpUTF8 = true → s.smtpUTF8 = true)

instance : IsPreorder (Session φ ω) Gates where
  refl s := ⟨⟨[], by simp⟩, id⟩
  trans := by
    rintro s s' s'' ⟨⟨es, hlog, hes⟩, hflag⟩ ⟨⟨es', hlog', hes'⟩, hflag'⟩
    refine ⟨⟨es ++ es', by rw [hlog', hlog, List.append_assoc], ?_⟩, hflag ∘ hflag'⟩
    intro e he
    rcases List.mem_append.mp he with he | he
    · exact hes e he
    · exact hes' e he

theorem drift_gates :
  Drift (· ≠ .sender) (Gates : Session φ ω → Session φ ω → Prop)
  where
  ordinary := by simp
  own hk hown := by
    cases hown with
    | events s hes =>
      exact ⟨⟨_, rfl, fun e he => LogEvent.command_of_concern (hes e he)⟩, id⟩
    | sent s => exact absurd rfl hk
    | clear s | greeted s => exact ⟨⟨[], by simp⟩, by simp⟩
    | _ => exact ⟨⟨[], by simp⟩, id⟩
  beyond s _ _ _ := ⟨⟨[], by simp⟩, id⟩
  reply _ s r := ⟨⟨[.reply r], rfl, by simp [LogEvent.command]⟩, id⟩

theorem walk_gates (env : Env φ ω) :
  Walk env (· ≠ .sender) (Gates : Session φ ω → Session φ ω → Prop)
  := drift_gates.walk fun _ _ command r source size content s _ =>
    drift_gates.around.evaluateContent (by simp) env command r source size content s

theorem Gates.silent (hstep : Gates s s') (hsaid : s'.said = s.said) (h : gate.Accepts s.log) :
  gate.Accepts s'.log ∧ gate.run s'.log = gate.run s.log
  := by
  obtain ⟨⟨es, hlog, hes⟩, -⟩ := hstep
  have hreplies : replies es = [] := by
    rw [said, said, hlog, Server.replies_append] at hsaid
    simpa using hsaid
  rw [hlog]
  refine gate_silent h fun e he => ⟨hes e he, ?_⟩
  cases e with
  | reply r => exact absurd (List.filterMap_eq_nil_iff.mp hreplies _ he) (by simp)
  | _ => rfl

/-- The session between two commands. -/
structure Guarded (s : Session φ ω) : Prop where
  settled : Settled s.log
  flag : s.smtpUTF8 = true → (gate.run s.log).utf8 = true

/-- The session has a command to answer. -/
structure Awaiting (c : Command) (s : Session φ ω) : Prop where
  accepts : gate.Accepts s.log
  pending : (gate.run s.log).pending = some c
  flag : s.smtpUTF8 = true → (gate.run s.log).utf8 = true

theorem Guarded.gates (hstep : Gates s s') (h : s.Guarded) :
  s'.Guarded
  := by
  obtain ⟨⟨es, hlog, hes⟩, hflag⟩ := hstep
  obtain ⟨hsettled, hmail⟩ := h.settled.append hes
  rw [← hlog] at hsettled hmail
  refine ⟨hsettled, fun hutf8 => ?_⟩
  exact (Dialogue.utf8_eq hmail).trans (h.flag (hflag hutf8))

theorem Guarded.decoded (h : s.Guarded) (c : Command) :
  Awaiting c { s with log := s.log ++ [.decoded c] }
  := by
  refine ⟨h.settled.accepts.snoc trivial, ?_, fun hutf8 => ?_⟩
  · rw [Monitor.run_snoc]
    rfl
  · rw [Monitor.run_snoc]
    exact h.flag hutf8

theorem Awaiting.guarded (h : s.Awaiting c)
    (hmail : isMail c = false) (hadmits : (gate.run s.log).admits c = !routesBeyondASCII c) :
  s.Guarded
  := by
  refine ⟨⟨h.accepts, ?_⟩, h.flag⟩
  rw [h.pending]
  rintro _ ⟨⟩
  exact ⟨hmail, hadmits⟩

theorem Awaiting.reply (h : s.Awaiting c) (hlog : s'.log = s.log ++ [.reply r])
    (hadmits : r.code = 250 → (gate.run s.log).admits c = !routesBeyondASCII c)
    (hflag : s'.smtpUTF8 = true → (gate.run s'.log).utf8 = true) :
  s'.Guarded
  := by
  refine ⟨⟨?_, ?_⟩, hflag⟩
  · rw [hlog]
    apply h.accepts.snoc
    intro hcode c' hc'
    rw [h.pending] at hc'
    cases hc'
    exact hadmits hcode
  · rw [hlog, Monitor.run_snoc]
    intros; contradiction

theorem Awaiting.silent (h : s.Awaiting c) (hstep : Gates s s') (hsaid : s'.said = s.said) :
  s'.Awaiting c
  := by
  obtain ⟨haccepts, hrun⟩ := hstep.silent hsaid h.accepts
  refine ⟨haccepts, by rw [hrun, h.pending], fun hutf8 => ?_⟩
  rw [hrun]
  exact h.flag (hstep.2 hutf8)

/-! ### Commands -/

theorem said_abandonTransaction :
  Keeps said (abandonTransaction env)
  := Keeps.read.bind fun _ => .ite ((said_lifecycleReset env _).bind fun _ =>
    (said_transition _).bind fun _ _ => rfl) (.pure _)

theorem said_lifecycleMail (mailbox : Bytes) (params : MailParams) :
  Keeps said (lifecycleMail env mailbox params)
  := by
  apply (said_resetTransaction env _).bind
  intro _
  apply (said_record rfl).bind
  intro _
  apply (keeps_callback (fun _ _ => rfl) _).bind
  intro r
  split
  · exact .pure _
  · apply (said_record rfl).bind
    intro _
    exact Keeps.bind (fun _ => rfl) fun _ => .pure _

/-- A session that has ended. -/
abbrev Gated (s : Session φ ω) : Prop := gate.Accepts s.log

section

variable {cfg : Config} {env : Env φ ω} {c : Command} {s : Session φ ω}

theorem Awaiting.maintained {m : Call φ ω α} (hm : Along Gates m) (hsaid : Keeps said m) :
  Maintains (Awaiting c) Gated m
  := by
  intro s h
  have hs' := h.silent (hm s) (hsaid s)
  exact wp_mono (wp_of_state hs') (fun _ _ => id) fun _ _ h => h.accepts

theorem Awaiting.refused {action : CommandAction} (h : s.Awaiting c) (hcode : r.code ≠ 250) :
  wp (do writeReply env r; pure action) (fun _ => Guarded) (fun _ => Gated) s
  := by
  rw [wp_bind]
  refine wp_writeReply (fun w => ?_) fun _ _ => h.accepts
  refine h.reply rfl (fun h250 => absurd h250 hcode) fun hutf8 => ?_
  have hmail : ((gate.run s.log).step (.reply r)).mail = (gate.run s.log).mail := by
    simp [Dialogue.step, hcode]
  rw [Monitor.run_snoc]
  exact (Dialogue.utf8_eq hmail).trans (h.flag hutf8)

theorem Awaiting.syntaxReply (h : s.Awaiting c) (name : Bytes) :
  wp (syntaxReply env name) (fun _ => Guarded) (fun _ => Gated) s
  := h.refused (show (501 : Int) ≠ 250 by decide)

theorem Awaiting.accept {path : Path} (h : s.Awaiting c)
    (hmail : isMail c = true) (hadmits : ∀ e : Dialogue, e.admits c = !routesBeyondASCII c)
    (hparams : params.smtpUTF8 = true → carriesUTF8 c.argument = true) :
  wp (handleMail.accept cfg env path params) (fun _ => Guarded) (fun _ => Gated) s
  := by
  have hwalk := walk_gates env
  have hanswer {s : Session φ ω} (h : s.Awaiting c) (hflag : s.smtpUTF8 = false) (r : WireReply)
      (action : CommandAction) :
      wp (do writeReply env r; pure action) (fun _ => Guarded) (fun _ => Gated) s := by
    rw [wp_bind]
    refine wp_writeReply (fun w => ?_) fun _ _ => h.accepts
    exact h.reply rfl (fun _ => hadmits _) fun hutf8 => absurd (hflag.symm.trans hutf8) (by simp)
  have hfailed {s : Session φ ω} (h : s.Awaiting c) (e : BackendError) :
      wp (do clearTransaction; backendReply env .mail e) (fun _ => Guarded) (fun _ => Gated)
        s := by
    rw [wp_bind]
    have hclear := Awaiting.maintained hwalk.clearTransaction (fun _ => rfl) s h
    exact hanswer hclear rfl _ _
  rw [handleMail.accept, wp_bind]
  apply wp_mono (Awaiting.maintained hwalk.abandonTransaction said_abandonTransaction s h) _
    fun _ _ => id
  intro _ s₁ h₁
  rw [wp_ite]
  refine ⟨fun _ => h₁.refused (by decide), fun _ => ?_⟩
  rw [wp_bind]
  apply wp_mono (Awaiting.maintained (hwalk.lifecycleMail _ _) (said_lifecycleMail _ _) s₁ h₁)
    _ fun _ _ => id
  rintro (e | _) s₂ h₂
  · rw [wp_bind, wp_read]
    split
    · rw [wp_bind]
      have hattempt : Maintains (Awaiting c) Gated
          (Exec.attempt (transition .transactionFailed) : Call φ ω _) :=
        Awaiting.maintained (hwalk.transition .transactionFailed (by rintro ⟨⟩)).attempt
          (said_transition _).attempt
      apply wp_mono (hattempt s₂ h₂) _ fun _ _ => id
      exact fun _ s₃ h₃ => hfailed h₃ e
    · exact hfailed h₂ e
  · rw [wp_bind]
    apply wp_mono (Awaiting.maintained (hwalk.transition .mailAccepted (by rintro ⟨⟩))
      (said_transition _) s₂ h₂) _ fun _ _ => id
    intro _ s₃ h₃
    rw [wp_bind, wp_update, wp_bind]
    refine wp_writeReply (fun w => ?_) fun _ _ => h₃.accepts
    refine h₃.reply rfl (fun _ => hadmits _) fun hutf8 => ?_
    have hstep (r : WireReply) (hr : r.code = 250) :
        ((gate.run s₃.log).step (.reply r)).mail = some c := by
      simp [Dialogue.step, hr, h₃.pending, hmail]
    rw [Monitor.run_snoc]
    exact (Dialogue.utf8_eq (hstep { code := 250, enhanced := ⟨2, 1, 0, []⟩, text := ascii "Sender OK" }
      rfl)).trans (hparams hutf8)

theorem Awaiting.dispatch {verb : Verb} (h : s.Awaiting c)
    (hallowed : s.state.legality verb = .allowed →
      wp (handle cfg env verb c) (fun _ => Guarded) (fun _ => Gated) s) :
  wp (dispatch cfg env verb c) (fun _ => Guarded) (fun _ => Gated) s
  := by
  rw [Session.dispatch, wp_bind, wp_read]
  cases hlegality : s.state.legality verb with
  | unknown => exact h.refused (by decide)
  | wrongMode => exact h.refused (by decide)
  | wrongState => exact h.refused (by decide)
  | allowed => exact hallowed hlegality

end

section

variable {cfg : Config} {env : Env φ ω} {time : TimeFormat} {binaryMIME : Bool}
  {extensions : Extensions} {c : Command} {s : Session φ ω}

theorem admits_mail {utf8 : Bool} (hmail : isMail c = true)
    (hpath : parseReversePath { smtpUTF8 := true } c.argument = .ok path)
    (hutf8 : utf8 = true → carriesUTF8 c.argument = true)
    (hmailbox : ¬ (path.mailbox.any (128 ≤ ·) && !utf8) = true) (e : Dialogue) :
  e.admits c = !routesBeyondASCII c
  := by
  have hverb : Verb.ofSpelling c.verb = .mail := of_decide_eq_true hmail
  have hhigh := hasHighByte_reversePath hpath
  rw [Dialogue.admits, hverb, routesBeyondASCII, hmail]
  cases hcarries : carriesUTF8 c.argument with
  | true => simp
  | false =>
    have hlow : hasHighByte path.mailbox = false := by
      cases utf8 with
      | true => simp [hutf8 rfl] at hcarries
      | false => simpa [hasHighByte] using hmailbox
    simp [hhigh, hlow]

theorem Awaiting.handleMail (h : s.Awaiting c) (hmail : isMail c = true) :
  wp (handleMail (cfg.speaking time binaryMIME extensions) env c) (fun _ => Guarded)
    (fun _ => Gated) s
  := by
  rw [Session.handleMail, wp_bind, wp_read]
  split
  · exact h.refused (by decide)
  split
  · exact h.refused (by decide)
  split
  · exact h.syntaxReply _
  next path hpath =>
  split
  · exact h.syntaxReply _
  split
  · exact h.syntaxReply _
  next params hparams =>
  split
  · exact h.syntaxReply _
  next hmailbox =>
  obtain ⟨wire, hwire, rfl⟩ := reversePath_wire hpath
  have hutf8 : params.smtpUTF8 = true → carriesUTF8 c.argument = true := by
    intro hutf8
    rw [carriesUTF8, hwire]
    exact carries_of_mailParams hparams hutf8
  exact h.accept hmail (admits_mail hmail hwire hutf8 hmailbox) hutf8

theorem Awaiting.handleRcpt (h : s.Awaiting c) (hrcpt : Verb.ofSpelling c.verb = .rcpt)
    (hadmits : (gate.run s.log).admits c = false) :
  wp (handleRcpt (cfg.speaking time binaryMIME extensions) env c) (fun _ => Guarded)
    (fun _ => Gated) s
  := by
  obtain ⟨hhigh, hutf8⟩ : hasHighByte (pathText (ascii "TO:") c.argument) = true ∧
      (gate.run s.log).utf8 = false := by
    simpa [Dialogue.admits, hrcpt] using hadmits
  have hflag : s.smtpUTF8 = false := by
    rw [← Bool.not_eq_true]
    intro hflag
    simp [h.flag hflag] at hutf8
  rw [Session.handleRcpt, wp_bind, wp_read]
  split
  · exact h.syntaxReply _
  next path hpath =>
  obtain ⟨wire, hwire, -⟩ := forwardPath_wire hpath
  rw [hflag] at hwire
  rw [hasHighByte_forwardPath hwire] at hhigh
  cases hhigh

theorem Guarded.execute (h : s.Guarded) (c : Command) :
  wp (execute (cfg.speaking time binaryMIME extensions) env c) (fun _ => Guarded)
    (fun _ => Gated) { s with log := s.log ++ [.decoded c] }
  := by
  have hc := h.decoded c
  have hwalk := walk_gates env
  cases hmail : isMail c with
  | true =>
    have hverb : Verb.ofSpelling c.verb = .mail := of_decide_eq_true hmail
    have hcount : Awaiting c { s with
        log := s.log ++ [.decoded c], mailAttempts := s.mailAttempts + 1 } :=
      hc.silent ⟨⟨[], by simp⟩, id⟩ rfl
    simp only [Session.execute]
    rw [if_pos hverb, wp_bind, wp_update, wp_bind, wp_read, wp_ite]
    refine ⟨fun _ => hcount.refused (by decide), fun _ => hcount.dispatch fun _ => ?_⟩
    rw [hverb]
    exact hcount.handleMail hmail
  | false =>
    have hverb : Verb.ofSpelling c.verb ≠ .mail := of_decide_eq_false hmail
    have hroute : routesBeyondASCII c = false := by
      rw [routesBeyondASCII, hmail, Bool.false_and, Bool.false_and]
    cases hadmits : (gate.run (s.log ++ [.decoded c])).admits c with
    | true =>
      have hs := hc.guarded hmail (by rw [hadmits, hroute]; rfl)
      have hconcern : (Verb.ofSpelling c.verb).concern ≠ .sender := by
        revert hverb
        cases Verb.ofSpelling c.verb <;> simp [Verb.concern]
      apply wp_mono (wp_of_state (hs.gates ?_)) (fun _ _ => id) fun _ _ h => h.settled.accepts
      refine hwalk.execute hconcern (fun _ => ⟨⟨[], by simp⟩, id⟩) fun _ _ => ?_
      exact hwalk.handleBDAT (by simp) fun framing _ _ _ =>
        ⟨drift_gates.around.takeChunk env _ _, drift_gates.around.takeChunk env _ _⟩
    | false =>
      have hrcpt : Verb.ofSpelling c.verb = .rcpt := by
        revert hadmits hverb
        rw [Dialogue.admits]
        cases Verb.ofSpelling c.verb <;> simp
      simp only [Session.execute]
      rw [if_neg hverb, hrcpt]
      exact hc.dispatch fun _ => hc.handleRcpt hrcpt hadmits

end

/-- In every run, a MAIL or RCPT command whose path is not ASCII is answered 250 only if the MAIL
command of the transaction has SMTPUTF8, save that the source route of MAIL is not looked at. -/
theorem utf8Gate_iff (cfg : Config) (time : TimeFormat) (binaryMIME : Bool) (extensions : Extensions)
    (env : Env φ ω) (manager : SpoolManager) (tls : Bool) (feed : Feed UInt8 φ) (world : ω) (n : Nat)
    {before rest : List LogEvent} {r : WireReply} {c : Command}
    (hlog : (serve (cfg.speaking time binaryMIME extensions) env n (Session.new
      (cfg.speaking time binaryMIME extensions) manager tls feed world)).1.log =
        before ++ .reply r :: rest)
    (hcode : r.code = 250) (hpending : (gate.run before).pending = some c) :
  (gate.run before).admits c = true ↔ routesBeyondASCII c = false
  := by
  have hnew : Guarded (Session.new (cfg.speaking time binaryMIME extensions) manager tls feed world) :=
    ⟨⟨Monitor.accepts_nil, by intros; contradiction⟩, by intros; contradiction⟩
  have hturn : Maintains Guarded Gated (turn (cfg.speaking time binaryMIME extensions) env) :=
    maintains_turn (walk_gates env) (drift_gates.around.await env _) (fun hstep h => h.gates hstep)
      (fun h => h.settled.accepts) fun _ h => h.execute _
  have hclose {s : Session φ ω} (h : s.Gated) : (close env s).2.Gated :=
    (Gates.silent (drift_gates.close (by simp) env (walk_gates env).evaluate s) (said_close env s) h).1
  have haccepts := (maintains_serve hturn (fun h => h.settled.accepts) hclose hnew (n := n)).1
  rw [haccepts before (.reply r) rest hlog hcode c hpending, Bool.not_eq_true']

/-- The log of a session with a client that sends the given lines. -/
def plainLog (lines : List String) : List LogEvent :=
  (serve .plain Env.plain lines.length
    (Session.new .plain SpoolManager.small false (script lines) ())).1.log

/-- A recipient that is not ASCII is accepted in a transaction with SMTPUTF8. -/
theorem utf8Gate_iff_rcpt :
  let log := plainLog ["EHLO a", "MAIL FROM:<a@b> SMTPUTF8", "RCPT TO:<\xc3\xa9@b>"]
  ∃ r c, log = log.take 9 ++ .reply r :: log.drop 10 ∧ r.code = 250 ∧
    (gate.run (log.take 9)).pending = some c ∧
    hasHighByte (pathText (ascii "TO:") c.argument) = true ∧
    ((gate.run (log.take 9)).admits c = true ↔ routesBeyondASCII c = false)
  := by
  intro log
  let r : WireReply := { code := 250, enhanced := ⟨2, 1, 5, []⟩, text := ascii "Recipient OK" }
  let c : Command := ⟨ascii "RCPT", ascii "TO:<\xc3\xa9@b>"⟩
  have hlog : log = log.take 9 ++ .reply r :: log.drop 10 := by decide +kernel
  have hpending : (gate.run (log.take 9)).pending = some c := by decide +kernel
  refine ⟨r, c, hlog, rfl, hpending, by decide +kernel, ?_⟩
  exact utf8Gate_iff _ _ _ _ _ _ _ _ _ _ hlog rfl hpending

/-- A MAIL command with a source route that is not ASCII is accepted without SMTPUTF8. -/
theorem route_beyondASCII_accepted :
  let log := plainLog ["EHLO a", "MAIL FROM:<@\xc3\xa9.x:a@b>"]
  ∃ r c, log = log.take 5 ++ .reply r :: log.drop 6 ∧ r.code = 250 ∧
    (gate.run (log.take 5)).pending = some c ∧ (gate.run (log.take 5)).admits c = false
  := by
  intro log
  let r : WireReply := { code := 250, enhanced := ⟨2, 1, 0, []⟩, text := ascii "Sender OK" }
  let c : Command := ⟨ascii "MAIL", ascii "FROM:<@\xc3\xa9.x:a@b>"⟩
  have hlog : log = log.take 5 ++ .reply r :: log.drop 6 := by decide +kernel
  exact ⟨r, c, hlog, rfl, by decide +kernel, by decide +kernel⟩

end Session

end GoSmtp.Server
