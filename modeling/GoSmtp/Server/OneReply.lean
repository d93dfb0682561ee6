import GoSmtp.Server.Answers

/-!
# One reply for every command

In SMTP a command is answered by one reply.  The challenges of AUTH and the go-ahead of DATA come
before it, and nothing comes after it.  A backend may choose the code of that reply, and with it a
code that looks like one of those.
-/

namespace GoSmtp.Server

open Exec

variable {φ ω α : Type}
variable (cfg : Config) (env : Env φ ω)
variable {on : Bool} {s' s₁ : Session φ ω} {σ : Type} {command : Bytes} {r : WireReply}
  {m : Call φ ω CommandAction}

/-! ### Codes -/

/-- The code of a challenge, and the code of the go-ahead. -/
def intermediate (code : Int) : Bool := code == 334 || code == 354

/-- No intermediate code is passed on with the error. -/
def BackendError.Final : BackendError → Prop
  | .protocol e => intermediate e.code = false
  | .other => True

/-- No intermediate code ends the exchange. -/
def AuthDialog.Final : AuthDialog ω → Prop
  | .challenge _ _ k => ∀ line w, (k line w).Final
  | .call _ _ k => k.Final
  | .refused r _ => intermediate r.code = false
  | .accepted _ | .failed _ | .panic _ => True

/-- The results of `Session.Data` have no intermediate codes, whatever the content is. -/
def DataCall.Final : DataCall φ ω → Prop
  | .ret result _ _ => ∀ r ∈ result, intermediate r.code = false
  | .panic _ => True
  | .read _ _ k => ∀ x, (k x).Final

/-- The backend does not choose an intermediate code. -/
structure Env.Final (env : Env φ ω) : Prop where
  callback : ∀ {α : Type} {op : ω → Outcome BackendError α × ω}, env.Callback op →
    ∀ w e w', op w = (.err e, w') → e.Final
  auth : ∀ mechanism initial w, (env.auth mechanism initial w).Final
  data : ∀ w, (env.data w).Final

theorem BackendError.Final.errorReply {e : BackendError} (h : e.Final) {code : Int} {text : Bytes}
    (hcode : intermediate code = false) :
  intermediate (Session.errorReply e code text).code = false
  := by
  cases e with
  | other => exact hcode
  | protocol e =>
    rw [Session.errorReply]
    split
    · exact h
    · exact hcode

theorem DataCall.Final.run {r : Reader σ UInt8 (ContentError φ)} {call : DataCall φ ω}
    (h : call.Final) {s s' : σ} {result : DataResult} {err : Option BackendError} {w : ω}
    (hrun : call.run r s = (some (result, err), w, s')) :
  ∀ x ∈ result, intermediate x.code = false
  := by
  induction call generalizing s with
  | ret result' err' w' =>
    cases hrun
    exact h
  | panic w' => cases hrun
  | read n w' k ih =>
    rw [DataCall.run] at hrun
    split at hrun
    · cases hrun
    · exact ih _ (h _) hrun

theorem final_validateDataOutcome {mode : ListenerMode} {recipients : List Bytes}
    {result : DataResult} {err : Option BackendError}
    (h : ∀ x ∈ result, intermediate x.code = false) :
  ∀ x ∈ (validateDataOutcome mode recipients command result err : DataEvaluation φ).result,
    intermediate x.code = false
  := by
  have htemporary : ∀ x ∈ temporaryDataResult mode recipients command,
      intermediate x.code = false := by
    intro x hx
    obtain ⟨i, -, rfl⟩ := List.mem_map.mp hx
    rfl
  rw [validateDataOutcome.eq_def]
  split
  · exact htemporary
  · split
    · split
      · exact htemporary
      · exact htemporary
    · split
      · exact htemporary
      · split
        · exact htemporary
        · intro x hx
          obtain ⟨y, hy, rfl⟩ := List.mem_map.mp hx
          exact h y hy

theorem final_evaluateDataCall {mode : ListenerMode} {recipients : List Bytes}
    {r : Reader σ UInt8 (ContentError φ)} {fuel : Nat} {call : DataCall φ ω}
    {t t' : TrackedDataReader σ} {evaluation : DataEvaluation φ} {w : ω} (hcall : call.Final)
    (h : evaluateDataCall mode recipients command r fuel call t = (some evaluation, w, t')) :
  ∀ x ∈ evaluation.result, intermediate x.code = false
  := by
  rw [evaluateDataCall.eq_def] at h
  rcases hrun : call.run (tracked r) t with ⟨_ | ⟨result, err⟩, w', t''⟩ <;> rw [hrun] at h
  · cases h
  · have hresult := hcall.run hrun
    simp only at h
    split at h
    · cases h
      exact final_validateDataOutcome hresult
    · split at h
      · cases h
      · cases h
        simp
      · cases h
        rw [replaceEarly]
        split
        · intro x hx
          obtain ⟨y, hy, rfl⟩ := List.mem_map.mp hx
          split
          · rfl
          · exact final_validateDataOutcome hresult y hy
        · exact final_validateDataOutcome hresult

/-- The reply has no intermediate code, unless the backend chooses one. -/
def WireReply.Concludes (r : WireReply) : Prop :=
  env.Final → intermediate r.code = false

namespace Session

/-! ### Handlers that say one thing -/

theorem said_resetTransaction (reason : ResetReason) :
  Keeps said (resetTransaction env reason : Call φ ω Unit)
  := Keeps.read.bind fun _ => .ite (said_lifecycleReset env _) (.pure _)

theorem said_record {e : LogEvent} (he : e.isReply = false) :
  Keeps said (record e : Call φ ω Unit)
  := keeps_said (address_record he)

/-- The call says one thing, and nothing or that if it fails. -/
def Says (m : Call φ ω CommandAction) : Prop :=
  ∀ s, wp m (fun _ s' => ∃ r, r.Concludes env ∧ s'.said = s.said ++ [r])
    (fun _ s' => s'.said = s.said ∨ ∃ r, r.Concludes env ∧ s'.said = s.said ++ [r]) s

namespace Says

variable {env : Env φ ω}

theorem reply (hr : r.Concludes env) {k : Unit → Call φ ω CommandAction}
    (hk : ∀ a, Keeps said (k a)) :
  Says env (writeReply env r >>= k)
  := by
  intro s
  rw [wp_bind]
  apply wp_mono wp_writeReply_said
  · rintro _ s₁ ⟨hsaid, -⟩
    apply wp_mono (Exec.keeps_iff_wp.mp (hk _) s₁)
    · exact fun _ s' heq => ⟨r, hr, heq.trans hsaid⟩
    · exact fun _ s' heq => .inr ⟨r, hr, heq.trans hsaid⟩
  · exact fun _ s' h => .inl h.1

theorem answer (hr : r.Concludes env) (action : CommandAction) :
  Says env (do writeReply env r; pure action)
  := reply hr fun _ => .pure action

theorem after {m : Call φ ω α} {k : α → Call φ ω CommandAction} (hm : Keeps said m)
    (hk : ∀ a, Says env (k a)) :
  Says env (m >>= k)
  := by
  intro s
  rw [wp_bind]
  apply wp_mono (Exec.keeps_iff_wp.mp hm s)
  · intro a s₁ hsaid
    rw [← hsaid]
    exact hk a s₁
  · exact fun _ _ => .inl

theorem read {k : Session φ ω → Call φ ω CommandAction} (hk : ∀ s, Says env (k s)) :
  Says env (Exec.read >>= k)
  := after Keeps.read hk

theorem ite {c : Prop} [Decidable c] {m' : Call φ ω CommandAction} (hm : Says env m)
    (hm' : Says env m') :
  Says env (if c then m else m')
  := by
  split
  · exact hm
  · exact hm'

theorem callback {op : ω → Outcome BackendError α × ω} (hop : env.Callback op)
    {k : Except BackendError α → Call φ ω CommandAction}
    (herror : ∀ e, (env.Final → e.Final) → Says env (k (.error e)))
    (hok : ∀ a, Says env (k (.ok a))) :
  Says env (Session.callback op >>= k)
  := by
  intro s
  rw [wp_bind]
  rcases h : op s.world with ⟨a | e | _, w⟩ <;> simp only [wp, Session.callback, h]
  · exact hok a { s with world := w }
  · exact herror e (fun henv => henv.callback hop _ _ _ h) { s with world := w }
  · exact .inl rfl

theorem backendReply {e : BackendError} (he : env.Final → e.Final) (verb : Verb) (text : Bytes) :
  Says env (Session.backendReply env verb e text)
  := answer (fun henv => (he henv).errorReply rfl) _

theorem fallbackReply (verb : Verb) (text : Bytes) :
  Says env (Session.backendReply env verb .other text)
  := backendReply (e := .other) (fun _ => trivial) verb text

theorem syntaxReply (name : Bytes) :
  Says env (Session.syntaxReply env name)
  := answer (fun _ => rfl) _

theorem handleHello (verb : Verb) (c : Command) :
  Says env (Session.handleHello cfg env verb c)
  := by
  rw [Session.handleHello]
  split
  · exact syntaxReply _
  · apply after (said_resetTransaction env _)
    intro _
    apply after (said_transition _)
    intro _
    apply after fun _ => rfl
    intro _
    apply read
    intro s
    refine ite (answer (fun _ => rfl) _) ?_
    exact ite (answer (fun _ => rfl) _) (answer (fun _ => rfl) _)

theorem lifecycleMail {mailbox : Bytes} {params : MailParams}
    {k : Except BackendError Unit → Call φ ω CommandAction}
    (herror : ∀ e, (env.Final → e.Final) → Says env (k (.error e))) (hok : Says env (k (.ok ()))) :
  Says env (Session.lifecycleMail env mailbox params >>= k)
  := by
  rw [Session.lifecycleMail]
  simp only [Exec.bind_bind]
  apply after (said_resetTransaction env _)
  intro _
  apply after (said_record rfl)
  intro _
  apply callback (.mail _ _)
  · exact herror
  · intro _
    simp only [Exec.bind_bind]
    apply after (said_record rfl)
    intro _
    exact after (fun _ => rfl) fun _ => hok

theorem accept_mail (path : Path) (params : MailParams) :
  Says env (handleMail.accept cfg env path params)
  := by
  have habandon : Keeps said (abandonTransaction env : Call φ ω Unit) :=
    Keeps.read.bind fun _ => .ite ((said_lifecycleReset env _).bind fun _ =>
      (said_transition _).bind fun _ => fun _ => rfl) (.pure _)
  have hfailed (e : BackendError) (he : env.Final → e.Final) : Says env (do
      clearTransaction
      Session.backendReply env .mail e) := after (fun _ => rfl) fun _ => backendReply he _ _
  apply after habandon
  intro _
  refine ite (answer (fun _ => rfl) _) ?_
  apply lifecycleMail
  · intro e he
    apply read
    intro s
    refine ite ?_ (hfailed e he)
    exact after (said_transition _).attempt fun _ => hfailed e he
  · apply after (said_transition _)
    intro _
    exact after (fun _ => rfl) fun _ => answer (fun _ => rfl) _

theorem handleMail (c : Command) :
  Says env (Session.handleMail cfg env c)
  := by
  apply read
  intro s
  refine ite (answer (fun _ => rfl) _) ?_
  refine ite (answer (fun _ => rfl) _) ?_
  split
  · exact syntaxReply _
  · split
    · exact syntaxReply _
    · split
      · exact syntaxReply _
      · exact ite (syntaxReply _) (accept_mail cfg _ _)

theorem accept_rcpt (path : Path) (lines : List Bytes) :
  Says env (handleRcpt.accept env path lines)
  := by
  have hreply : Says env (if lines.isEmpty then do
        writeReply env { code := 250, enhanced := ⟨2, 1, 5, []⟩, text := ascii "Recipient OK" }
        pure {}
      else do
        writeReply env { code := 250, lines := ascii "Recipient OK" :: lines }
        pure {} : Call φ ω CommandAction) :=
    ite (answer (fun _ => rfl) _) (answer (fun _ => rfl) _)
  apply after fun _ => rfl
  intro _
  apply after (said_record rfl)
  intro _
  apply read
  intro s
  exact ite (after (said_transition _) fun _ => hreply) hreply

theorem handleRcpt (c : Command) :
  Says env (Session.handleRcpt cfg env c)
  := by
  apply read
  intro s
  split
  · exact syntaxReply _
  · split
    · exact syntaxReply _
    · refine ite (answer (fun _ => rfl) _) ?_
      split
      · exact syntaxReply _
      · apply after (said_record rfl)
        intro _
        apply callback (.rcpt _)
        · exact fun e he => backendReply he _ _
        · exact fun lines => ite (accept_rcpt _ _) (fallbackReply _ _)

theorem handleRSET (c : Command) :
  Says env (Session.handleRSET env c)
  := by
  refine ite (syntaxReply _) ?_
  apply after (said_resetIfOpen env _)
  intro _
  apply after (said_transition _)
  intro _
  exact after (fun _ => rfl) fun _ => answer (fun _ => rfl) _

theorem ask {verb : Verb} {op : ω → Outcome BackendError α × ω} (hop : env.Callback op)
    {f : α → WireReply} (hf : ∀ a, (f a).Concludes env) :
  Says env (Session.ask env verb op f)
  := callback hop (fun _ he => backendReply he _ _) fun a => answer (hf a) _

theorem handleVRFY (c : Command) :
  Says env (Session.handleVRFY env c)
  := by
  refine ite (syntaxReply _) ?_
  split
  · exact answer (fun _ => rfl) _
  · next hverify => exact ask (.verify hverify _) fun _ _ => rfl

theorem handleEXPN (c : Command) :
  Says env (Session.handleEXPN env c)
  := by
  refine ite (syntaxReply _) ?_
  split
  · exact answer (fun _ => rfl) _
  · next hexpand => exact ask (.expand hexpand _) fun _ _ => rfl

theorem handleHELP (c : Command) :
  Says env (Session.handleHELP env c)
  := by
  rw [Session.handleHELP]
  split
  · exact answer (fun _ => rfl) _
  · next hhelp => exact ask (.help hhelp _) fun _ _ => rfl

theorem handleETRN (c : Command) :
  Says env (Session.handleETRN env c)
  := by
  refine ite (syntaxReply _) ?_
  split
  · exact answer (fun _ => rfl) _
  · next hetrn => exact ask (.etrn hetrn _) fun _ _ => rfl

theorem handleSTARTTLS (c : Command) :
  Says env (Session.handleSTARTTLS cfg env c)
  := by
  apply read
  intro s
  refine ite (syntaxReply _) ?_
  refine ite (answer (fun _ => rfl) _) ?_
  apply reply fun _ => rfl
  intro _
  apply (keeps_transport (fun _ _ => rfl) _).bind
  intro _
  apply (keeps_outside (fun _ _ => rfl) _).bind
  intro secured
  split
  · exact .fail _
  · apply (said_record rfl).bind
    intro _
    apply (said_lifecycleReset env _).bind
    intro _
    apply (said_transition _).bind
    intro _
    exact Keeps.bind (fun _ => rfl) fun _ => Keeps.bind (fun _ => rfl) fun _ => .pure _

theorem handleATRN (c : Command) :
  Says env (Session.handleATRN env c)
  := by
  apply read
  intro s
  split
  · exact syntaxReply _
  · refine ite (answer (fun _ => rfl) _) ?_
    split
    · exact answer (fun _ => rfl) _
    · next atrn hatrn =>
      apply after (keeps_buffered (fun _ _ => rfl) env)
      intro pipelined
      refine ite (answer (fun _ => rfl) _) ?_
      apply callback (.atrn hatrn _)
      · exact fun e he => backendReply he _ _
      · rintro (_ | _)
        · exact fallbackReply _ _
        · apply reply fun _ => rfl
          intro _
          apply (keeps_transport (fun _ _ => rfl) _).bind
          intro _
          exact (keeps_callback (fun _ _ => rfl) _).bind fun _ => .pure _

end Says

/-! ### Content -/

/-- What is said in reply to a command: intermediate replies, and then at most one more, and that if
the session goes on. -/
def Replied (env : Env φ ω) (mids : List WireReply → Prop) (on : Bool)
    (before after : List WireReply) : Prop :=
  ∃ ms rs, after = before ++ (ms ++ rs) ∧ mids ms ∧ rs.length ≤ 1 ∧ (on = true → rs ≠ []) ∧
    ∀ r ∈ rs, r.Concludes env

/-- The call replies to a command. -/
def Replies (env : Env φ ω) (mids : List WireReply → Prop) (m : Call φ ω CommandAction)
    (s : Session φ ω) : Prop :=
  wp m (fun action s' => Replied env mids (!action.closeConnection) s.said s'.said)
    (fun _ s' => Replied env mids false s.said s'.said) s

section Replies

variable {env : Env φ ω} {mids : List WireReply → Prop} {s : Session φ ω}

theorem Replied.silent (hmids : mids []) {before : List WireReply} :
  Replied env mids false before before
  := ⟨[], [], by simp, hmids, by simp, by simp, by simp⟩

theorem Replied.one (hmids : mids []) {before : List WireReply} (hr : r.Concludes env) :
  Replied env mids on before (before ++ [r])
  := ⟨[], [r], by simp, hmids, by simp, by simp, by simpa using hr⟩

theorem Replied.stopped {m : WireReply} (hmids : mids [m]) {before after : List WireReply}
    (h : after = before ++ [m]) :
  Replied env mids false before after
  := ⟨[m], [], by simp [h], hmids, by simp, by simp, by simp⟩

theorem Says.replies (h : Says env m) (hmids : mids []) :
  Replies env mids m s
  := by
  apply wp_mono (h s)
  · rintro action s' ⟨r, hr, hsaid⟩
    rw [hsaid]
    exact .one hmids hr
  · rintro _ s' (hsaid | ⟨r, hr, hsaid⟩) <;> rw [hsaid]
    · exact .silent hmids
    · exact .one hmids hr

theorem Replies.bind {m : Call φ ω α} {k : α → Call φ ω CommandAction} (hmids : mids [])
    (hm : Keeps said m) (hk : wp m (fun a s₁ => Replies env mids (k a) s₁) (fun _ _ => True) s) :
  Replies env mids (m >>= k) s
  := by
  have hkeeps := hm s
  rw [Replies, wp_bind]
  rw [wp] at hk ⊢
  rcases hrun : m s with ⟨a | e | _, s₁⟩ <;> rw [hrun] at hk hkeeps <;>
    change s₁.said = s.said at hkeeps
  · rw [← hkeeps]
    exact hk
  · change Replied env mids false s.said s₁.said
    rw [hkeeps]
    exact .silent hmids
  · change Replied env mids false s.said s₁.said
    rw [hkeeps]
    exact .silent hmids

theorem Replies.after {m : Call φ ω α} {k : α → Call φ ω CommandAction} (hmids : mids [])
    (hm : Keeps address m) (hk : ∀ a s₁, s₁.state.mode = s.state.mode → Replies env mids (k a) s₁) :
  Replies env mids (m >>= k) s
  := by
  apply Replies.bind hmids (keeps_said hm)
  apply wp_mono (Exec.keeps_iff_wp.mp hm s) _ fun _ _ _ => trivial
  intro a s₁ heq
  exact hk a s₁ (congrArg (·.2.1) heq)

theorem Replies.behind {later : List WireReply → Prop} (h : Replies env later m s₁)
    (hsaid : s₁.said = s.said ++ [r]) (hmids : ∀ ms, later ms → mids (r :: ms)) :
  wp m (fun action s' => Replied env mids (!action.closeConnection) s.said s'.said)
    (fun _ s' => Replied env mids false s.said s'.said) s₁
  := by
  have hbehind {on : Bool} {s' : Session φ ω} (h : Replied env later on s₁.said s'.said) :
      Replied env mids on s.said s'.said := by
    obtain ⟨ms, rs, hsaid', hms, hrs⟩ := h
    exact ⟨r :: ms, rs, by simp [hsaid', hsaid], hmids ms hms, hrs⟩
  exact wp_mono h (fun _ _ => hbehind) fun _ _ => hbehind

theorem wp_writeResults_all (env : Env φ ω) (results : DataResult) (s : Session φ ω) :
  wp (writeResults env results) (fun _ s' => s'.said = s.said ++ results.map resultReply)
    (fun _ s' => ∃ k, s'.said = s.said ++ (results.take k).map resultReply) s
  := by
  induction results generalizing s with
  | nil => simp [writeResults, wp_pure]
  | cons r rs ih =>
    rw [writeResults, wp_bind]
    apply wp_mono wp_writeReply_said
    · rintro _ s₁ ⟨hsaid, -⟩
      apply wp_mono (ih s₁)
      · intro _ s' h
        simp [h, hsaid]
      · rintro _ s' ⟨k, h⟩
        exact ⟨k + 1, by simp [h, hsaid]⟩
    · rintro _ s' ⟨hsaid, -⟩
      exact ⟨0, by simp [hsaid]⟩

theorem replies_finishContent {evaluation : DataEvaluation φ} (hmids : mids [])
    (hlength : evaluation.closeConnection = false → evaluation.result.length = 1)
    (hcodes : env.Final → ∀ x ∈ evaluation.result, intermediate x.code = false) :
  Replies env mids (finishContent env evaluation) s
  := by
  rw [Replies, finishContent, wp_ite]
  constructor
  · intro _
    split
    · exact .silent hmids
    · exact .silent hmids
  · intro hopen
    obtain ⟨result, hresult⟩ := List.length_eq_one_iff.mp (hlength (Bool.not_eq_true _ ▸ hopen))
    have hr : (resultReply result).Concludes env := fun henv => hcodes henv result (by simp [hresult])
    let reason : ResetReason := if evaluation.completed then .completed else .failed
    let event : StateEvent :=
      if evaluation.completed then .transactionComplete else .transactionFailed
    have hend : Keeps said (do
        lifecycleReset env reason
        clearTransaction
        transition event : Call φ ω Unit) :=
      (said_lifecycleReset env reason).bind fun _ =>
        Keeps.bind (fun _ => rfl) fun _ => said_transition event
    have hemit : said { s with log := s.log ++ [.emit] } = s.said := by simp [said, replies]
    have hwrite := wp_writeResults_all env evaluation.result { s with log := s.log ++ [.emit] }
    rw [hemit, hresult] at hwrite
    rw [Exec.wp_defer, wp_bind, wp_record, wp_bind, hresult]
    apply wp_mono hwrite
    · intro _ s₁ hsaid
      rw [wp_pure]
      have hone {on : Bool} (s' : Session φ ω) (heq : s'.said = s₁.said) :
          Replied env mids on s.said s'.said := by
        rw [heq, hsaid]
        exact .one hmids hr
      exact wp_mono (Exec.keeps_iff_wp.mp hend s₁) (fun _ s' heq => hone s' heq)
        fun _ s' heq => hone s' heq
    · rintro _ s₁ ⟨k, hsaid⟩
      have hpart (s' : Session φ ω) (heq : s'.said = s₁.said) :
          Replied env mids false s.said s'.said := by
        rw [heq, hsaid]
        cases k with
        | zero =>
          rw [List.take_zero, List.map_nil, List.append_nil]
          exact .silent hmids
        | succ k =>
          rw [List.take_succ_cons, List.take_nil]
          exact .one hmids hr
      exact wp_mono (Exec.keeps_iff_wp.mp hend s₁) (fun _ s' heq => hpart s' heq)
        fun _ s' heq => hpart s' heq

theorem wp_evaluateContent_final {r : Reader σ UInt8 (ContentError φ)}
    {source : Source} {size : Nat} {content : σ} :
  wp (evaluateContent env command r source size content)
    (fun x _ => env.Final → ∀ evaluation, x.1 = some evaluation →
      ∀ y ∈ evaluation.result, intermediate y.code = false) (fun _ _ => True) s
  := by
  rw [evaluateContent, wp_bind, wp_read, wp_bind, wp_outside, wp_bind, wp_record]
  split
  · trivial
  · simp only [wp_record, wp_bind, wp_update, wp_read, wp_pure]
    intro henv evaluation heval
    exact final_evaluateDataCall (henv.data _) (Prod.ext heval rfl)

theorem replies_evaluateContent {r : Reader σ UInt8 (ContentError φ)} {source : Source} {size : Nat}
    {content : σ} {k : Option (DataEvaluation φ) × σ → Call φ ω CommandAction} (hmids : mids [])
    (hmode : s.state.mode = .smtp) (hnone : ∀ x s₁, Replies env mids (k (none, x)) s₁)
    (hsome : ∀ evaluation x s₁, s₁.state.mode = .smtp →
      (evaluation.closeConnection = false → evaluation.result.length = 1) →
      (env.Final → ∀ x ∈ evaluation.result, intermediate x.code = false) →
      Replies env mids (k (some evaluation, x)) s₁) :
  Replies env mids (evaluateContent env command r source size content >>= k) s
  := by
  have hkeeps : Keeps address (evaluateContent env command r source size content) :=
    Exec.keeps_iff_wp.mpr fun s =>
      wp_mono wp_evaluateContent_address (fun _ _ h => h.1) fun _ _ => id
  apply Replies.bind hmids (keeps_said hkeeps)
  apply wp_mono (wp_and wp_evaluateContent_address wp_evaluateContent_final) _
    fun _ _ _ => trivial
  rintro ⟨_ | evaluation, x⟩ s₁ ⟨⟨heq, hfits⟩, hfinal⟩
  · exact hnone x s₁
  · have hmode₁ : s₁.state.mode = .smtp := (congrArg (·.2.1) heq).trans hmode
    apply hsome evaluation x s₁ hmode₁ _ fun henv => hfinal henv evaluation rfl
    intro hclose
    obtain ⟨hlength, -⟩ := hfits evaluation rfl hclose
    rwa [hmode] at hlength

theorem says_failBDAT (e : SpoolError φ) :
  Says env (failBDAT env e)
  := by
  apply Says.after (said_record rfl)
  intro _
  apply Says.after (said_resetIfOpen env _)
  intro _
  apply Says.after (said_transition _)
  intro _
  apply Says.answer
  cases e <;> exact fun _ => rfl

theorem replies_appendChunk (hmids : mids []) (hmode : s.state.mode = .smtp) (framing : BDATCommand) :
  Replies env mids (handleBDAT.append env framing) s
  := by
  apply Replies.after hmids (address_spoolChunk env _)
  rintro (e | _) s₁ hmode₁
  · exact (says_failBDAT e).replies hmids
  · dsimp only
    split
    · apply Replies.after hmids Keeps.read
      intro _ s₂ hmode₂
      apply Replies.after hmids (address_onSpool _)
      rintro (e | feed) s₃ hmode₃
      · exact (says_failBDAT e).replies hmids
      · apply replies_evaluateContent hmids (by rw [hmode₃, hmode₂, hmode₁, hmode])
        · exact fun _ _ => .silent hmids
        · exact fun _ _ _ _ => replies_finishContent hmids
    · exact (Says.answer (fun _ => rfl) _).replies hmids

theorem replies_handleBDAT (hmids : mids []) (hmode : s.state.mode = .smtp) (cfg : Config)
    (c : Command) :
  Replies env mids (handleBDAT cfg env c) s
  := by
  have hdiscard {n : Nat} {m : Call φ ω CommandAction} (hm : Says env m) (s : Session φ ω) :
      Replies env mids (do discardChunk env n; m) s :=
    (Says.after (keeps_said (address_discardChunk env n)) fun _ => hm).replies hmids
  apply Replies.bind hmids Keeps.read
  rw [wp_read]
  split
  · exact (Says.answer (fun _ => rfl) _).replies hmids
  · exact (Says.syntaxReply _).replies hmids
  · split
    · exact (Says.answer (fun _ => rfl) _).replies hmids
    · split
      · exact hdiscard (Says.answer (fun _ => rfl) _) s
      · split
        · exact hdiscard (Says.answer (fun _ => rfl) _) s
        · split
          · exact replies_appendChunk hmids hmode _
          · apply Replies.after hmids (address_attachSpool env)
            rintro (_ | _) s₁ hmode₁
            · exact hdiscard (says_failBDAT _) s₁
            · exact replies_appendChunk hmids (hmode₁.trans hmode) _

/-- The go-ahead of DATA. -/
def goAhead : WireReply := { code := 354, text := ascii "End data with <CRLF>.<CRLF>" }

theorem replies_receive (hmids : mids []) (hmode : s.state.mode = .smtp) (cfg : Config) :
  Replies env mids (handleDATA.receive cfg env) s
  := by
  apply Replies.bind hmids Keeps.read
  rw [wp_read]
  apply replies_evaluateContent hmids hmode
  · rintro ⟨limited, _, feed⟩ s₁
    exact .silent hmids
  · rintro evaluation ⟨limited, _, feed⟩ s₁ hmode₁ hlength hcodes
    apply Replies.after hmids fun _ => rfl
    intro _ s₂ hmode₂
    dsimp only
    split
    · apply Replies.bind hmids (said_record rfl)
      rw [wp_record]
      apply Replies.bind hmids Keeps.read
      rw [wp_read]
      apply replies_finishContent hmids
      · simp [sizeExceededEvaluation, uniformResult, hmode₂, hmode₁, resultCount]
      · intro _ x hx
        obtain ⟨i, -, rfl⟩ := List.mem_map.mp hx
        rfl
    · exact replies_finishContent hmids hlength hcodes

theorem replies_handleDATA (hmids : mids []) (hgo : mids [goAhead]) (hmode : s.state.mode = .smtp)
    (cfg : Config) (c : Command) :
  Replies env mids (handleDATA cfg env c) s
  := by
  have hreceive (s₁ : Session φ ω) (hmode₁ : s₁.state.mode = .smtp) :
      Replies env (· = []) (handleDATA.receive cfg env) s₁ := by
    apply replies_receive _ hmode₁
    rfl
  apply Replies.bind hmids Keeps.read
  rw [wp_read]
  split
  · exact (Says.syntaxReply _).replies hmids
  · split
    · exact (Says.answer (fun _ => rfl) _).replies hmids
    · split
      · exact (Says.answer (fun _ => rfl) _).replies hmids
      · rw [Replies, wp_bind]
        refine wp_writeReply (fun w => ?_) fun _ _ => .silent hmids
        rw [wp_bind]
        refine wp_transport (fun w => ?_) fun _ _ => .stopped hgo (said_reply s goAhead _)
        rw [wp_bind]
        refine wp_await (fun w => ?_) fun _ _ => .stopped hgo (said_reply s goAhead _)
        let s₁ : Session φ ω := { s with world := w, log := s.log ++ [.reply goAhead] }
        apply (hreceive s₁ hmode).behind (said_reply s goAhead w)
        rintro _ rfl
        exact hgo

theorem replies_runDialog {dialog : AuthDialog ω} (hdialog : env.Final → dialog.Final) :
  Replies env (fun ms => ∀ r ∈ ms, r.code = 334) (runDialog env dialog) s
  := by
  have hnil : ∀ r ∈ ([] : List WireReply), r.code = 334 := List.forall_mem_nil _
  have hanswer {r : WireReply} {action : CommandAction} (hr : r.Concludes env)
      (s : Session φ ω) : Replies env (fun ms => ∀ r ∈ ms, r.code = 334)
        (do writeReply env r; pure action) s :=
    (Says.answer hr action).replies hnil
  induction dialog generalizing s with
  | challenge text world k ih =>
    let m : WireReply := { code := 334, text := text }
    have hone : ∀ r ∈ [m], r.code = 334 := by simp [m]
    have hmore (ms : List WireReply) (h : ∀ r ∈ ms, r.code = 334) : ∀ r ∈ m :: ms, r.code = 334 :=
      List.forall_mem_cons.mpr ⟨rfl, h⟩
    have hm (w : ω) : said { s with world := w, log := s.log ++ [.reply m] } = s.said ++ [m] :=
      said_reply s m w
    rw [Replies, runDialog, wp_bind, wp_update, wp_bind]
    refine wp_writeReply (fun w => ?_) fun _ _ => .silent hnil
    rw [wp_bind]
    refine wp_transport (fun w => ?_) fun _ w => .stopped hone (hm w)
    rw [wp_bind]
    refine wp_await (fun w => ?_) fun _ w => .stopped hone (hm w)
    rw [wp_bind, wp_read, wp_bind, wp_update]
    split
    · exact (hanswer (fun _ => rfl) _).behind (hm w) hmore
    · exact .stopped hone (hm w)
    · rw [wp_bind, wp_read]
      exact (ih _ _ fun henv => hdialog henv _ _).behind (hm w) hmore
  | call c world k ih =>
    apply Replies.bind hnil fun _ => rfl
    rw [wp_update]
    apply Replies.bind hnil (said_record rfl)
    rw [wp_record]
    exact ih hdialog
  | accepted world =>
    apply Replies.bind hnil fun _ => rfl
    rw [wp_update]
    apply Says.replies _ hnil
    apply Says.after (said_transition _)
    intro _
    exact Says.after (said_record rfl) fun _ => Says.answer (fun _ => rfl) _
  | refused r world =>
    apply Replies.bind hnil fun _ => rfl
    rw [wp_update]
    exact hanswer hdialog _
  | failed world => exact .silent hnil
  | panic world => exact .silent hnil

theorem replies_handleAUTH (c : Command) :
  Replies env (fun ms => ∀ r ∈ ms, r.code = 334) (handleAUTH cfg env c) s
  := by
  have hnil : ∀ r ∈ ([] : List WireReply), r.code = 334 := List.forall_mem_nil _
  have hexchange (supported : Bytes → Bool) (mechanism : Bytes) (initial : Option Bytes) :
      Replies env (fun ms => ∀ r ∈ ms, r.code = 334)
        (handleAUTH.exchange env supported mechanism initial) s := by
    apply Replies.bind hnil Keeps.read
    rw [wp_read]
    split
    · exact (Says.answer (fun _ => rfl) _).replies hnil
    · exact replies_runDialog fun henv => henv.auth _ _ _
  apply Replies.bind hnil Keeps.read
  rw [wp_read]
  split
  · exact hexchange _ _ none
  · exact hexchange _ _ (some _)
  · exact (Says.syntaxReply _).replies hnil

/-- The intermediate replies to a command. -/
def intermediates : Verb → List WireReply → Prop
  | .auth, ms => ∀ r ∈ ms, r.code = 334
  | .data, ms => ms = [] ∨ ms = [goAhead]
  | _, ms => ms = []

theorem intermediates_nil (verb : Verb) :
  intermediates verb []
  := by
  cases verb <;> simp [intermediates]

theorem replies_handle (hmode : s.state.mode = .smtp) (cfg : Config) (verb : Verb) (c : Command) :
  Replies env (intermediates verb) (handle cfg env verb c) s
  := by
  have hsays {m : Call φ ω CommandAction} (h : Says env m) : Replies env (intermediates verb) m s :=
    h.replies (intermediates_nil verb)
  cases verb with
  | helo => exact hsays (.handleHello cfg _ c)
  | ehlo => exact hsays (.handleHello cfg _ c)
  | lhlo => exact hsays (.handleHello cfg _ c)
  | mail => exact hsays (.handleMail cfg c)
  | rcpt => exact hsays (.handleRcpt cfg c)
  | data => exact replies_handleDATA (.inl rfl) (.inr rfl) hmode cfg c
  | bdat => exact replies_handleBDAT (intermediates_nil .bdat) hmode cfg c
  | rset => exact hsays (.handleRSET c)
  | noop => exact hsays (.answer (fun _ => rfl) _)
  | quit => exact hsays (.ite (.syntaxReply _) (.answer (fun _ => rfl) _))
  | vrfy => exact hsays (.handleVRFY c)
  | expn => exact hsays (.handleEXPN c)
  | help => exact hsays (.handleHELP c)
  | etrn => exact hsays (.handleETRN c)
  | startTLS => exact hsays (.handleSTARTTLS cfg c)
  | auth => exact replies_handleAUTH cfg c
  | atrn => exact hsays (.handleATRN c)
  | other => exact .silent (intermediates_nil .other)

theorem replies_execute (hmode : s.state.mode = .smtp) (cfg : Config) (c : Command) :
  Replies env (intermediates (Verb.ofSpelling c.verb)) (execute cfg env c) s
  := by
  have hnil := intermediates_nil (Verb.ofSpelling c.verb)
  have hdispatch (s : Session φ ω) (hmode : s.state.mode = .smtp) :
      Replies env (intermediates (Verb.ofSpelling c.verb))
        (dispatch cfg env (Verb.ofSpelling c.verb) c) s := by
    apply Replies.bind hnil Keeps.read
    rw [wp_read]
    split
    · exact (Says.answer (fun _ => rfl) _).replies hnil
    · exact (Says.answer (fun _ => rfl) _).replies hnil
    · exact (Says.answer (fun _ => rfl) _).replies hnil
    · exact replies_handle hmode cfg _ c
  rw [execute]
  split
  · apply Replies.bind hnil fun _ => rfl
    rw [wp_update]
    apply Replies.bind hnil Keeps.read
    rw [wp_read]
    split
    · exact (Says.answer (fun _ => rfl) _).replies hnil
    · exact hdispatch _ hmode
  · exact hdispatch s hmode

theorem aloof_commands :
  Aloof (commands : Session φ ω → _)
  := ⟨fun h _ => congrArg Prod.snd h⟩

theorem commands_execute (c : Command) :
  Keeps commands (execute cfg env c)
  := by
  rw [execute]
  refine .ite ?_ (aloof_commands.dispatch cfg env _ c)
  apply Keeps.bind fun _ => rfl
  intro _
  apply Keeps.read.bind
  intro s
  exact .ite ((aloof_commands.apart.answer env trivial).bind fun _ => .pure _) (aloof_commands.dispatch cfg env _ c)

end Replies

/-! ### Turns -/

/-- What is heard and said in one turn. -/
structure Turn where
  heard : List Command
  said : List WireReply

/-- At most one command is heard.  It is answered by its intermediate replies and one more, and if
the session does not go on, by some of them. -/
structure Turn.Answered (env : Env φ ω) (on : Bool) (t : Turn) : Prop where
  heard : t.heard.length ≤ 1
  said : Replied env (fun ms => ms = [] ∨ ∃ c ∈ t.heard, intermediates (Verb.ofSpelling c.verb) ms)
    on [] t.said

/-- What a session hears and says between two points. -/
def between (s s' : Session φ ω) : Turn where
  heard := s'.commands.drop s.commands.length
  said := s'.said.drop s.said.length

/-- The turns of a session. -/
def conversation (cfg : Config) (env : Env φ ω) : Nat → Session φ ω → List Turn
  | 0, _ => []
  | n + 1, s =>
    match turn cfg env s with
    | (.ok true, s') => s.between s' :: conversation cfg env n s'
    | (_, s') => [s.between s']

/-- From one point to another the session hears and says more, and the command is answered. -/
def Answers (env : Env φ ω) (on : Bool) (s s' : Session φ ω) : Prop :=
  s.commands <+: s'.commands ∧ s.said <+: s'.said ∧ (s.between s').Answered env on

section Turns

variable {env : Env φ ω} {s : Session φ ω}

theorem Answers.of_replied {mids : List WireReply → Prop}
    (heard : List Command) (hcommands : s'.commands = s.commands ++ heard)
    (hheard : heard.length ≤ 1) (h : Replied env mids on s.said s'.said)
    (hmids : ∀ ms, mids ms → ms = [] ∨ ∃ c ∈ heard, intermediates (Verb.ofSpelling c.verb) ms) :
  Answers env on s s'
  := by
  obtain ⟨ms, rs, hsaid, hms, hrs⟩ := h
  refine ⟨by simp [hcommands], by simp [hsaid], ?_, ms, rs, ?_, ?_, hrs⟩
  · simpa [between, hcommands] using hheard
  · simp [between, hsaid]
  · simpa [between, hcommands] using hmids ms hms

theorem Answers.of_eq (h : Answers env on s s₁)
    (hsaid : s'.said = s₁.said) (hcommands : s'.commands = s₁.commands) :
  Answers env on s s'
  := by
  rwa [Answers, between, hsaid, hcommands]

theorem Answers.over (h : Answers env on s s') :
  Answers env false s s'
  := by
  obtain ⟨hcommands, hsaid, hheard, ms, rs, heq, hms, hlength, -, hrs⟩ := h
  exact ⟨hcommands, hsaid, hheard, ms, rs, heq, hms, hlength, by simp, hrs⟩

theorem Answers.silent (hsaid : s'.said = s.said) (hcommands : s'.commands = s.commands) :
  Answers env false s s'
  := by
  have hreplied : Replied env (· = []) false s.said s'.said := by
    rw [hsaid]
    apply Replied.silent
    rfl
  apply Answers.of_replied [] (by simp [hcommands]) (by simp) hreplied
  exact fun _ => .inl

theorem answers_finishTurn (h : wp m (fun action s' => Answers env (!action.closeConnection) s s')
      (fun _ s' => Answers env false s s') s₁) :
  wp (m >>= finishTurn env) (fun on s' => Answers env on s s')
    (fun _ s' => Answers env false s s') s₁
  := by
  rw [wp_bind]
  apply wp_mono h _ fun _ _ => id
  intro action s₂ hanswers
  apply wp_mono (wp_and wp_finishTurn_said
    (Exec.keeps_iff_wp.mp (aloof_commands.finishTurn env action) s₂))
  · rintro on s' ⟨⟨rfl, hsaid⟩, hcommands⟩
    exact hanswers.of_eq hsaid hcommands
  · rintro _ s' ⟨hsaid, hcommands⟩
    exact (hanswers.of_eq hsaid hcommands).over

theorem answers_handleCommandReadError (e : CommandError φ)
    (hsaid : s₁.said = s.said) (hcommands : s₁.commands = s.commands) :
  wp (handleCommandReadError env e)
    (fun action s' => Answers env (!action.closeConnection) s s')
    (fun _ s' => Answers env false s s') s₁
  := by
  have hkeeps : Keeps commands (handleCommandReadError env e) :=
    (aloof_commands.walk env).handleCommandReadError e
  have hnil := intermediates_nil .other
  have hreplies : Replies env (intermediates .other) (handleCommandReadError env e) s₁ := by
    apply Replies.bind hnil Keeps.read
    rw [wp_read]
    split
    · exact .silent hnil
    · apply Says.replies _ hnil
      apply Says.after (said_record rfl)
      intro _
      apply Says.after (said_resetIfOpen env _)
      intro _
      exact Says.after (said_transition _) fun _ => .answer (fun _ => rfl) _
  have hanswers {on : Bool} {s' : Session φ ω}
      (hreplied : Replied env (intermediates .other) on s₁.said s'.said)
      (heq : s'.commands = s₁.commands) : Answers env on s s' := by
    rw [hsaid] at hreplied
    apply Answers.of_replied [] (by simp [heq, hcommands]) (by simp) hreplied
    exact fun _ => .inl
  apply wp_mono (wp_and hreplies (Exec.keeps_iff_wp.mp hkeeps s₁))
  · exact fun _ _ h => hanswers h.1 h.2
  · exact fun _ _ h => hanswers h.1 h.2

theorem answers_execute (hmode : s₁.state.mode = .smtp) (cfg : Config)
    (c : Command) (hsaid : s₁.said = s.said) (hcommands : s₁.commands = s.commands ++ [c]) :
  wp (execute cfg env c) (fun action s' => Answers env (!action.closeConnection) s s')
    (fun _ s' => Answers env false s s') s₁
  := by
  have hanswers {on : Bool} {s' : Session φ ω}
      (hreplied : Replied env (intermediates (Verb.ofSpelling c.verb)) on s₁.said s'.said)
      (heq : s'.commands = s₁.commands) : Answers env on s s' := by
    rw [hsaid] at hreplied
    apply Answers.of_replied [c] (heq.trans hcommands) (by simp) hreplied
    exact fun ms hms => .inr ⟨c, by simp, hms⟩
  apply wp_mono (wp_and (replies_execute hmode cfg c)
    (Exec.keeps_iff_wp.mp (commands_execute cfg c) s₁))
  · exact fun _ _ h => hanswers h.1 h.2
  · exact fun _ _ h => hanswers h.1 h.2

theorem answers_turn (hmode : s.state.mode = .smtp) (cfg : Config) :
  wp (turn cfg env) (fun on s' => Answers env on s s') (fun _ s' => Answers env false s s') s
  := by
  rcases hread : readCommand s.feed with ⟨e | c, rest⟩
  · rw [turn, wp_bind, wp_outside, wp_ite]
    refine ⟨fun _ => .silent rfl rfl, fun _ => ?_⟩
    rw [wp_bind]
    refine wp_flushBeforeRead (fun w => ?_) fun _ _ => .silent rfl rfl
    rw [wp_bind]
    refine wp_await (fun w => ?_) fun _ _ => .silent rfl rfl
    rw [wp_bind, wp_read, wp_bind, wp_update]
    simp only [hread]
    split
    · exact .silent rfl rfl
    · exact answers_finishTurn (answers_handleCommandReadError _ rfl rfl)
    · next heq => cases heq
  · refine wp_turn_command hread (fun _ _ => .silent rfl rfl) (answers_finishTurn ?_)
    apply answers_execute _ cfg c said_receiving
    · simp [receiving, commands, LogEvent.command]
    · exact hmode

theorem mode_turn :
  (turn cfg env s).2.state.mode = s.state.mode
  := (aloof_mode.walk env).turn (fun _ => trivial) (rest_mode env) cfg s

theorem Answers.said_eq (h : Answers env on s s') :
  s'.said = s.said ++ (s.between s').said
  := (List.prefix_iff_eq_append.mp h.2.1).symm

theorem Answers.commands_eq (h : Answers env on s s') :
  s'.commands = s.commands ++ (s.between s').heard
  := (List.prefix_iff_eq_append.mp h.1).symm

theorem said_close (env : Env φ ω) :
  Keeps said (close env : Call φ ω Unit)
  := by
  have hend : Keeps said (lifecycleClose env) := by
    apply Keeps.read.bind
    intro s
    refine .ite (.pure _) ?_
    apply Keeps.bind fun _ => rfl
    intro _
    apply (said_resetIfOpen env _).bind
    intro _
    exact (said_record rfl).bind fun _ => keeps_notify (fun _ _ => rfl) _
  exact hend.bind fun _ => (said_transition _).attempt.bind fun _ => .pure _

theorem forall_answered_cons {first : Turn} {turns : List Turn} (hfirst : first.Answered env true)
    (h : ∀ t ∈ if on then turns else turns.dropLast, t.Answered env true) :
  ∀ t ∈ if on then first :: turns else (first :: turns).dropLast, t.Answered env true
  := by
  cases on with
  | true => exact List.forall_mem_cons.mpr ⟨hfirst, h⟩
  | false =>
    cases turns with
    | nil => exact List.forall_mem_nil _
    | cons second turns => exact List.forall_mem_cons.mpr ⟨hfirst, h⟩

theorem answered_serve {n : Nat} (hmode : s.state.mode = .smtp) (cfg : Config) :
  let run := serve cfg env n s
  let turns := conversation cfg env n s
  run.1.commands = s.commands ++ turns.flatMap Turn.heard ∧
    run.1.said = s.said ++ turns.flatMap Turn.said ∧
    (∀ t ∈ if run.2 then turns else turns.dropLast, t.Answered env true) ∧
    ∀ t ∈ turns, t.Answered env false
  := by
  induction n generalizing s with
  | zero => simp [serve, conversation]
  | succ n ih =>
    have hend (s' : Session φ ω) (h : Answers env false s s') :
        (close env s').2.commands = s.commands ++ [s.between s'].flatMap Turn.heard ∧
        (close env s').2.said = s.said ++ [s.between s'].flatMap Turn.said ∧
        (∀ t ∈ [s.between s'].dropLast, t.Answered env true) ∧
        ∀ t ∈ [s.between s'], t.Answered env false := by
      refine ⟨?_, ?_, by simp, by simpa using h.2.2⟩
      · rw [aloof_commands.close env s', h.commands_eq]
        simp
      · rw [said_close env s', h.said_eq]
        simp
    have hturn : wp (turn cfg env) (fun on s' => Answers env on s s')
        (fun _ s' => Answers env false s s') s := answers_turn hmode cfg
    have hmode' : (turn cfg env s).2.state.mode = s.state.mode := mode_turn cfg
    rw [serve, conversation]
    rw [wp] at hturn
    rcases hx : turn cfg env s with ⟨(_ | _) | e | _, s'⟩ <;> rw [hx] at hturn hmode'
    · exact hend s' hturn
    · have hanswers : Answers env true s s' := hturn
      obtain ⟨hcommands, hsaid, hon, hover⟩ := ih (hmode'.trans hmode)
      refine ⟨?_, ?_, ?_, ?_⟩
      · rw [hcommands, hanswers.commands_eq]
        simp
      · rw [hsaid, hanswers.said_eq]
        simp
      · exact forall_answered_cons hanswers.2.2 hon
      · exact List.forall_mem_cons.mpr ⟨hanswers.over.2.2, hover⟩
    · exact hend s' hturn
    · exact hend s' hturn

end Turns

/-- In every run in SMTP: the commands are heard turn by turn and answered in their order, with one
reply after the challenges of AUTH and the go-ahead of DATA.  Only the turn in which the session ends
may lack it.  The reply has no intermediate code, unless the backend chooses one. -/
theorem oneReply_run (cfg : Config) (env : Env φ ω) (manager : SpoolManager) (tls : Bool)
    (feed : Feed UInt8 φ) (world : ω) (n : Nat) (hmode : cfg.mode = .smtp) :
  let run := serve cfg env n (Session.new cfg manager tls feed world)
  let turns := conversation cfg env n (Session.new cfg manager tls feed world)
  run.1.commands = turns.flatMap Turn.heard ∧ run.1.said = turns.flatMap Turn.said ∧
    (∀ t ∈ if run.2 then turns else turns.dropLast, t.Answered env true) ∧
    ∀ t ∈ turns, t.Answered env false
  := answered_serve (s := Session.new cfg manager tls feed world) hmode cfg

/-- A greeting, a sender, and a command that is not there. -/
def threeCommands : Feed UInt8 Empty := script ["EHLO a", "MAIL FROM:<>", "FOO"]

/-- All three of them are answered. -/
theorem oneReply_run_three :
  let turns := conversation (Config.small 7 (by decide)) Env.plain 3
    (Session.new (Config.small 7 (by decide)) SpoolManager.small false threeCommands ())
  turns.length = 3 ∧ ∀ t ∈ turns, t.Answered (Env.plain : Env Empty Unit) true
  := by
  have hopen : (serve (Config.small 7 (by decide)) Env.plain 3
      (Session.new (Config.small 7 (by decide)) SpoolManager.small false threeCommands ())).2 = true := by
    decide +kernel
  obtain ⟨-, -, hanswered, -⟩ := oneReply_run (Config.small 7 (by decide)) Env.plain
    SpoolManager.small false threeCommands () 3 rfl
  rw [hopen] at hanswered
  exact ⟨by decide +kernel, hanswered⟩

/-- A backend that refuses every sender with the code of the go-ahead. -/
def goingAhead : Env Empty Unit :=
  { Env.plain with mail := fun _ _ w => (.err (.protocol ⟨354, .zero, ascii "x"⟩), w) }

/-- The session goes on after two commands, of which only one has a reply that is not
intermediate. -/
theorem not_final_goingAhead :
  let run := serve (Config.small 7 (by decide)) goingAhead 2
    (Session.new (Config.small 7 (by decide)) SpoolManager.small false threeCommands ())
  run.2 = true ∧ run.1.commands.length = 2 ∧ run.1.said.map (·.code) = [250, 354] ∧
    (run.1.said.filter fun r => !intermediate r.code).length = 1
  := by
  refine ⟨?_, ?_, ?_, ?_⟩ <;> decide +kernel

end Session

end GoSmtp.Server
