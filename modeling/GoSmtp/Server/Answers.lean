import GoSmtp.Server.Framing

/-!
# The answers to content

What a session says to a peer that sends the content of a message.  The results of an evaluation
are reported one by one, in LMTP one for every recipient, whatever they come from; and everything
else that answers content is a single refusal.
-/

namespace GoSmtp.Server

open Exec

variable {φ ω α : Type}
variable {σ : Type} {command : Bytes} {source : Source} {size : Nat}
  {k : α → Call φ ω CommandAction} {cfg : Config}
variable {s s' s₁ : Session φ ω} {env : Env φ ω} {m : Call φ ω α} {r : WireReply} {n : Nat}

/-- The replies in a log. -/
def replies (log : List LogEvent) : List WireReply :=
  log.filterMap fun e => match e with
    | .reply r => some r
    | _ => none

@[simp]
theorem replies_append (log log' : List LogEvent) :
  replies (log ++ log') = replies log ++ replies log'
  := List.filterMap_append

/-- The transport takes every reply. -/
def Env.Reliable (env : Env φ ω) : Prop := ∀ r w, env.takes r w = true

/-- A single refusal: a reply in one line with a 4yz or 5yz code. -/
def WireReply.refuses (r : WireReply) : Bool :=
  400 ≤ r.code && r.code < 600 && r.enhanced.cls == r.code.tdiv 100 && !r.text.isEmpty &&
    r.lines.isEmpty && r.context == .command

namespace Session

/-- What was said to the peer. -/
def said (s : Session φ ω) : List WireReply := replies s.log

/-- What was said, and to whom a message is addressed. -/
def address (s : Session φ ω) : List WireReply × ListenerMode × List Bytes :=
  (s.said, s.state.mode, s.recipients)

/-! ### What says nothing -/

theorem address_outside (op : ω → α × ω) :
  Keeps address (outside op : Call φ ω α)
  := keeps_outside (fun _ _ => rfl) op

theorem address_record {e : LogEvent} (he : e.isReply = false) :
  Keeps address (record e : Call φ ω Unit)
  := by
  apply keeps_record
  intro s
  cases e <;> first | (simp [address, said, replies]; done) | cases he

theorem address_onSpool (op : Spool.Op ω φ α) :
  Keeps address (onSpool op)
  := keeps_onSpool (fun _ _ _ _ => rfl) op

theorem address_attachSpool (env : Env φ ω) :
  Keeps address (attachSpool env)
  := by
  apply Keeps.bind (fun _ => rfl)
  intro _
  apply Keeps.read.bind
  intro s
  split
  · exact .pure _
  · apply Keeps.bind (fun _ => rfl)
    exact fun _ => (address_record rfl).bind fun _ => .pure _

theorem address_takeChunk (env : Env φ ω) (size : Nat) :
  Keeps address (takeChunk env size)
  := by
  apply (keeps_await (fun _ _ => rfl) env _).bind
  intro _
  apply Keeps.read.bind
  intro s
  apply Keeps.bind (fun _ => rfl)
  exact fun _ => .pure _

theorem address_discardChunk (env : Env φ ω) (size : Nat) :
  Keeps address (discardChunk env size)
  := by
  apply (address_takeChunk env size).bind
  intro x
  split
  · exact address_record rfl
  · exact .fail _

theorem address_spoolChunk (env : Env φ ω) (size : Nat) :
  Keeps address (spoolChunk env size)
  := by
  apply (address_takeChunk env size).bind
  rintro ⟨w, e⟩
  apply (address_outside _).bind
  intro pieces
  apply (address_onSpool _).bind
  intro r
  cases e with
  | some e => exact .fail _
  | none => exact (address_record rfl).bind fun _ => .pure _

theorem keeps_said (h : Keeps address m) :
  Keeps said m
  := fun s => congrArg Prod.fst (h s)

theorem said_transition (event : StateEvent) :
  Keeps said (transition event : Call φ ω Unit)
  := by
  apply keeps_transition (fun _ _ => rfl)
  intro s event
  simp [said, replies]

theorem said_lifecycleReset (env : Env φ ω) (reason : ResetReason) :
  Keeps said (lifecycleReset env reason)
  := by
  apply keeps_lifecycleReset (fun _ _ => rfl) _ _ fun _ _ => rfl
  · intro s reason
    simp [said, replies]
  · intro s
    simp [said, replies]

theorem said_resetIfOpen (env : Env φ ω) (reason : ResetReason) :
  Keeps said (resetIfOpen env reason)
  := Keeps.read.bind fun _ => .ite (.pure _) (said_lifecycleReset env reason)

theorem wp_finishTurn_said {action : CommandAction} :
  wp (finishTurn env action)
    (fun on s' => on = !action.closeConnection ∧ s'.said = s.said) (fun _ s' => s'.said = s.said) s
  := by
  rw [finishTurn, wp_ite]
  refine ⟨fun _ => ?_, fun _ => ⟨rfl, rfl⟩⟩
  rw [wp_bind]
  exact wp_transport (fun _ => ⟨rfl, rfl⟩) fun _ _ => rfl

/-! ### What reports results -/

/-- Since `before` was said, the results were reported one by one, and all of them if the
transport is reliable. -/
def Reported (env : Env φ ω) (before : List WireReply) (results : DataResult) (s : Session φ ω) :
    Prop :=
  ∃ k, s.said = before ++ (results.take k).map resultReply ∧ (env.Reliable → results.length ≤ k)

theorem said_reply (s : Session φ ω) (r : WireReply) (w : ω) :
  said { s with world := w, log := s.log ++ [.reply r] } = s.said ++ [r]
  := by
  simp [said, replies]

theorem wp_writeReply_said :
  wp (writeReply env r) (fun _ s' => s'.said = s.said ++ [r] ∧ s'.address.2 = s.address.2)
    (fun _ s' => s'.said = s.said ∧ ¬ env.Reliable) s
  := by
  cases htakes : env.takes r s.world with
  | true =>
    simp only [wp, writeReply_takes htakes]
    exact ⟨said_reply s r _, rfl⟩
  | false =>
    obtain ⟨e, w, hfails⟩ := writeReply_fails htakes
    simp only [wp, hfails]
    refine ⟨rfl, fun henv => ?_⟩
    exact Bool.false_ne_true (htakes.symm.trans (henv r s.world))

theorem wp_writeResults_said (env : Env φ ω) (results : DataResult) (s : Session φ ω) :
  wp (writeResults env results) (fun _ => Reported env s.said results)
    (fun _ => Reported env s.said results) s
  := by
  induction results generalizing s with
  | nil => exact ⟨0, by simp, by simp⟩
  | cons r rs ih =>
    rw [writeResults, wp_bind]
    apply wp_mono wp_writeReply_said
    · rintro _ s' ⟨hsaid, -⟩
      have hstep (s'' : Session φ ω) (h : Reported env s'.said rs s'') :
          Reported env s.said (r :: rs) s'' := by
        obtain ⟨k, hk, hall⟩ := h
        refine ⟨k + 1, ?_, fun henv => Nat.succ_le_succ (hall henv)⟩
        simp [hk, hsaid]
      exact wp_mono (ih s') (fun _ => hstep) fun _ => hstep
    · rintro _ s' ⟨hsaid, hunreliable⟩
      exact ⟨0, by simp [hsaid], fun henv => absurd henv hunreliable⟩

theorem wp_finishContent_said (env : Env φ ω) (evaluation : DataEvaluation φ) (s : Session φ ω) :
  wp (finishContent env evaluation)
    (fun action s' => evaluation.closeConnection = false ∧ Reported env s.said evaluation.result s' ∨
      action.closeConnection = true ∧ s'.said = s.said)
    (fun _ s' => evaluation.closeConnection = false ∧ Reported env s.said evaluation.result s' ∨
      s'.said = s.said) s
  := by
  rw [finishContent, wp_ite]
  constructor
  · intro _
    split
    · exact .inr rfl
    · exact .inr ⟨rfl, rfl⟩
  · intro hopen
    have hclose : evaluation.closeConnection = false := Bool.not_eq_true _ ▸ hopen
    let reason : ResetReason := if evaluation.completed then .completed else .failed
    let event : StateEvent :=
      if evaluation.completed then .transactionComplete else .transactionFailed
    have hend : Keeps said (do
        lifecycleReset env reason
        clearTransaction
        transition event : Call φ ω Unit) :=
      (said_lifecycleReset env reason).bind fun _ =>
        Keeps.bind (fun _ => rfl) fun _ => said_transition event
    have hreported (s' s'' : Session φ ω) (h : Reported env s.said evaluation.result s')
        (heq : s''.said = s'.said) : Reported env s.said evaluation.result s'' := by
      obtain ⟨k, hk, hall⟩ := h
      exact ⟨k, heq.trans hk, hall⟩
    rw [Exec.wp_defer, wp_bind, wp_record, wp_bind]
    have hemit : said { s with log := s.log ++ [.emit] } = s.said := by simp [said, replies]
    have hwrite := wp_writeResults_said env evaluation.result { s with log := s.log ++ [.emit] }
    rw [hemit] at hwrite
    apply wp_mono hwrite
    · intro _ s' h
      rw [wp_pure]
      exact wp_mono (Exec.keeps_iff_wp.mp hend s')
        (fun _ s'' heq => .inl ⟨hclose, hreported s' s'' h heq⟩)
        fun _ s'' heq => .inl ⟨hclose, hreported s' s'' h heq⟩
    · intro _ s' h
      exact wp_mono (Exec.keeps_iff_wp.mp hend s')
        (fun _ s'' heq => .inl ⟨hclose, hreported s' s'' h heq⟩)
        fun _ s'' heq => .inl ⟨hclose, hreported s' s'' h heq⟩

theorem wp_evaluateContent_address {r : Reader σ UInt8 (ContentError φ)} {content : σ} :
  wp (evaluateContent env command r source size content)
    (fun x s' => s'.address = s.address ∧ ∀ evaluation, x.1 = some evaluation →
      evaluation.closeConnection = false → Fits s.state.mode s.recipients evaluation.result)
    (fun _ s' => s'.address = s.address) s
  := by
  rw [evaluateContent, wp_bind, wp_read, wp_bind, wp_outside, wp_bind, wp_record]
  split
  · simp [address, said, replies]
  · simp only [wp_record, wp_bind, wp_update, wp_read, wp_pure]
    refine ⟨by simp [address, said, replies], fun evaluation heval => ?_⟩
    exact fits_evaluateDataCall (Prod.ext heval rfl)

/-! ### The final chunk -/

/-- Whether the spool takes a chunk of `n` octets, and whether it can be read then. -/
def stores (env : Env φ ω) (n : Nat) : Call φ ω (Bool × Bool) := do
  let s ← Exec.read
  if s.spool.isSome then keep
  else if ← attachSpool env then keep
  else pure (false, false)
  where
  /-- The same, with a spool attached. -/
  keep : Call φ ω (Bool × Bool) := do
    match ← spoolChunk env n with
    | .error _ => pure (false, false)
    | .ok _ =>
      match ← onSpool (Spool.reader env.storage) with
      | .error _ => pure (true, false)
      | .ok _ => pure (true, true)

/-- How the end of a message was answered: by the results, which needs `R`, or by one refusal,
which needs `T`. -/
def Concluded (env : Env φ ω) (R T : Prop) (s s' : Session φ ω) : Prop :=
  (R ∧ ∃ results, Fits s.state.mode s.recipients results ∧ Reported env s.said results s') ∨
    (T ∧ ∃ r : WireReply, r.refuses = true ∧ s'.said = s.said ++ [r])

/-- How it may be answered if the session does not go on: also not at all. -/
def Unsaid (env : Env φ ω) (R T : Prop) (s s' : Session φ ω) : Prop :=
  Concluded env R T s s' ∨ s'.said = s.said

/-- How a command that ends a message may end. -/
def Ended (env : Env φ ω) (R T : Prop) (s : Session φ ω) (action : CommandAction)
    (s' : Session φ ω) : Prop :=
  Concluded env R T s s' ∨ action.closeConnection = true ∧ s'.said = s.said

/-- A call that ends a message. -/
def Resolves (env : Env φ ω) (R T : Prop) (m : Call φ ω CommandAction) (s : Session φ ω) : Prop :=
  wp m (Ended env R T s) (fun _ => Unsaid env R T s) s

section Resolves

variable {env : Env φ ω} {R T : Prop} {s : Session φ ω}

theorem Concluded.of_address (h : Concluded env R T s₁ s') (heq : s₁.address = s.address) :
  Concluded env R T s s'
  := by
  obtain ⟨hsaid, hmode, hrecipients⟩ : s₁.said = s.said ∧ s₁.state.mode = s.state.mode ∧
      s₁.recipients = s.recipients := by
    simpa [address] using heq
  rwa [Concluded, hsaid, hmode, hrecipients] at h

theorem Concluded.of_said (h : Concluded env R T s s₁) (heq : s'.said = s₁.said) :
  Concluded env R T s s'
  := by
  simpa only [Concluded, Reported, heq] using h

theorem Resolves.bind (hm : Keeps address m)
    (hk : wp m (fun a s₁ => Resolves env R T (k a) s₁) (fun _ _ => True) s) :
  Resolves env R T (m >>= k) s
  := by
  rw [Resolves, wp_bind]
  apply wp_mono (wp_and hk (Exec.keeps_iff_wp.mp hm s))
  · rintro a s₁ ⟨hresolves, heq⟩
    have hsaid : s₁.said = s.said := congrArg Prod.fst heq
    apply wp_mono hresolves
    · rintro action s' (h | ⟨hclose, h⟩)
      · exact .inl (h.of_address heq)
      · exact .inr ⟨hclose, h.trans hsaid⟩
    · rintro _ s' (h | h)
      · exact .inl (h.of_address heq)
      · exact .inr (h.trans hsaid)
  · rintro _ s₁ ⟨-, heq⟩
    exact .inr (congrArg Prod.fst heq)

/-- The call says nothing but the refusal `r`, and that at the end. -/
def Refuses (r : WireReply) (m : Call φ ω CommandAction) : Prop :=
  ∀ s, wp m (fun _ s' => s'.said = s.said ++ [r]) (fun _ s' => s'.said = s.said) s

theorem refuses_reply (env : Env φ ω) (r : WireReply) (action : CommandAction) :
  Refuses r (do writeReply env r; pure action)
  := by
  intro s
  rw [wp_bind]
  exact wp_mono wp_writeReply_said (fun _ _ h => h.1) fun _ _ h => h.1

theorem Refuses.after (hm : Keeps said m) (hk : ∀ a, Refuses r (k a)) :
  Refuses r (m >>= k)
  := by
  intro s
  rw [wp_bind]
  apply wp_mono (Exec.keeps_iff_wp.mp hm s) _ fun _ _ => id
  intro a s₁ hsaid
  rw [← hsaid]
  exact hk a s₁

theorem Refuses.resolves {m : Call φ ω CommandAction} (h : Refuses r m) (hT : T)
    (hr : r.refuses = true) :
  Resolves env R T m s
  := wp_mono (h s) (fun _ _ hsaid => .inl (.inr ⟨hT, r, hr, hsaid⟩)) fun _ _ => .inr

theorem refuses_storageReply (cause : SpoolError φ) :
  (storageReply cause).refuses = true
  := by
  cases cause <;> rfl

theorem refuses_failBDAT (env : Env φ ω) (cause : SpoolError φ) :
  Refuses (storageReply cause) (failBDAT env cause)
  := by
  apply Refuses.after
  · intro s
    simp [record, Exec.update, said, replies]
  · exact fun _ => .after (said_resetIfOpen env _) fun _ => .after (said_transition _) fun _ =>
      refuses_reply env _ _

theorem resolves_finishContent {evaluation : DataEvaluation φ} (hR : R)
    (hfits : evaluation.closeConnection = false →
      Fits s.state.mode s.recipients evaluation.result) :
  Resolves env R T (finishContent env evaluation) s
  := by
  apply wp_mono (wp_finishContent_said env evaluation s)
  · rintro action s' (⟨hclose, hreported⟩ | h)
    · exact .inl (.inl ⟨hR, _, hfits hclose, hreported⟩)
    · exact .inr h
  · rintro _ s' (⟨hclose, hreported⟩ | h)
    · exact .inl (.inl ⟨hR, _, hfits hclose, hreported⟩)
    · exact .inr h

theorem resolves_evaluation {r : Reader σ UInt8 (ContentError φ)}
    {content : σ} {k : Option (DataEvaluation φ) × σ → _} (hR : R)
    (hnone : ∀ x, k (none, x) = fun s => (.panic, s))
    (hsome : ∀ evaluation x, k (some evaluation, x) = finishContent env evaluation) :
  Resolves env R T (evaluateContent env command r source size content >>= k) s
  := by
  have hkeeps : Keeps address (evaluateContent env command r source size content) :=
    Exec.keeps_iff_wp.mpr fun s =>
      wp_mono wp_evaluateContent_address (fun _ _ h => h.1) fun _ _ => id
  apply Resolves.bind hkeeps
  apply wp_mono wp_evaluateContent_address _ fun _ _ _ => trivial
  rintro ⟨_ | evaluation, x⟩ s₁ ⟨heq, hfits⟩
  · rw [hnone]
    exact .inr rfl
  · rw [hsome]
    obtain ⟨hmode, hrecipients⟩ : s₁.state.mode = s.state.mode ∧ s₁.recipients = s.recipients := by
      simpa [address] using congrArg Prod.snd heq
    apply resolves_finishContent hR
    rw [hmode, hrecipients]
    exact hfits evaluation rfl

/-- What the spool is good for decides how the final chunk is answered. -/
abbrev Allows (R T : Prop) (v : Bool × Bool) : Prop := (v.1 = true → R) ∧ (v ≠ (true, true) → T)

theorem resolves_append (h : wp (stores.keep env n) (fun v _ => Allows R T v) (fun _ _ => True) s) :
  Resolves env R T (handleBDAT.append env ⟨n, true⟩) s
  := by
  rw [stores.keep, wp_bind] at h
  apply Resolves.bind (address_spoolChunk env n)
  apply wp_mono h _ fun _ _ => id
  rintro (e | _) s₁ hs₁
  · exact (refuses_failBDAT env e).resolves (hs₁.2 (by simp)) (refuses_storageReply e)
  · rw [wp_bind] at hs₁
    simp only [if_true]
    rw [finishBDAT]
    apply Resolves.bind Keeps.read
    rw [wp_read]
    apply Resolves.bind (address_onSpool _)
    apply wp_mono hs₁ _ fun _ _ => id
    rintro (e | feed) s₂ hs₂
    · exact (refuses_failBDAT env e).resolves (hs₂.2 (by simp)) (refuses_storageReply e)
    · exact resolves_evaluation (hs₂.1 rfl) (fun _ => rfl) fun _ _ => rfl

theorem resolves_handleBDAT {c : Command} (hsize : announced c.argument = some (n, true))
    (hT : ¬ T → s.recipients ≠ [] ∧ n ≤ maxInt64 ∧ s.extended = true ∧ cfg.chunking = true ∧
      s.state.phase ≠ .failedBDAT)
    (hstores : cfg.chunking = true → s.recipients ≠ [] → s.state.phase ≠ .failedBDAT →
      wp (stores env n) (fun v _ => Allows R T v) (fun _ _ => True) s) :
  Resolves env R T (handleBDAT cfg env c) s
  := by
  have hparse := parseBDATArgument_of_announced hsize
  rw [handleBDAT]
  apply Resolves.bind Keeps.read
  rw [wp_read, hparse]
  have hdiscard {r : WireReply} {k : Call φ ω CommandAction} (hT : T) (hr : r.refuses = true)
      (hk : Refuses r k) {s : Session φ ω} : Resolves env R T (do discardChunk env n; k) s :=
    (Refuses.after (keeps_said (address_discardChunk env n)) fun _ => hk).resolves hT hr
  by_cases hn : n ≤ maxInt64
  · simp only [hn, if_true]
    split
    · next hoff =>
      have hT : T := by
        by_contra hnot
        simp [hT hnot] at hoff
      exact (refuses_reply env _ _).resolves hT rfl
    next hoff =>
    have hchunking : cfg.chunking = true := by
      simp only [Bool.or_eq_true, Bool.not_eq_true', not_or, Bool.not_eq_false] at hoff
      exact hoff.2
    split
    · next hnone =>
      have hT : T := by
        by_contra hnot
        exact (hT hnot).1 (List.isEmpty_iff.mp hnone.1)
      exact hdiscard hT rfl (refuses_reply env _ _)
    · next hsome =>
      split
      · next hfailed =>
        have hT : T := by
          by_contra hnot
          exact (hT hnot).2.2.2.2 hfailed
        exact hdiscard hT rfl (refuses_reply env _ _)
      · next hphase =>
        have hrcpt : s.recipients ≠ [] := fun hnil => hsome ⟨by simp [hnil], hphase⟩
        have hstores := hstores hchunking hrcpt hphase
        rw [stores, wp_bind, wp_read] at hstores
        split
        · next hspool =>
          rw [if_pos hspool] at hstores
          exact resolves_append hstores
        · next hspool =>
          rw [if_neg hspool, wp_bind] at hstores
          apply Resolves.bind (address_attachSpool env)
          apply wp_mono hstores _ fun _ _ => id
          rintro (_ | _) s₁ hs₁
          · exact hdiscard (hs₁.2 (by simp)) (refuses_storageReply _)
              (refuses_failBDAT env .concurrentExhausted)
          · exact resolves_append hs₁
  · have hT : T := by
      by_contra hnot
      exact hn (hT hnot).2.1
    rw [if_neg hn]
    split
    · exact (refuses_reply env _ _).resolves hT rfl
    · exact (refuses_reply env _ _).resolves hT rfl
    · next hok => split at hok <;> cases hok

end Resolves

/-! ### Content after 354 -/

theorem replies_spoken (log : List LogEvent) :
  replies (spoken log) = replies log
  := by
  rw [replies, spoken, List.filterMap_filter, replies]
  congr 1
  funext e
  cases e <;> rfl

theorem said_of_spoken (h : spoken s'.log = spoken s.log) :
  s'.said = s.said
  := by
  rw [said, said, ← replies_spoken, h, replies_spoken]

/-- How the content after 354 was answered: by the results, which accept nothing if the message is
too large. -/
def ReportedData (cfg : Config) (env : Env φ ω) (s s' : Session φ ω) : Prop :=
  ∃ results, Fits s.state.mode s.recipients results ∧ Reported env s.said results s' ∧
    (cfg.maxMessage < (received s.feed).length → ∀ r ∈ results, r.code = 552)

theorem wp_receive_said (cfg : Config) (env : Env φ ω) (s : Session φ ω) :
  wp (handleDATA.receive cfg env)
    (fun action s' => ReportedData cfg env s s' ∨
      action.closeConnection = true ∧ s'.said = s.said)
    (fun _ s' => ReportedData cfg env s s' ∨ s'.said = s.said) s
  := by
  rcases receive_cases cfg env s with ⟨s', h, hout, -⟩ | ⟨s', h, hspoken, -⟩ |
    ⟨-, header, decided, w, evaluation, h, -, -, hfits⟩
  · simp only [wp, h]
    exact .inr (said_of_spoken (congrArg Prod.snd hout))
  · simp only [wp, h]
    exact .inr (said_of_spoken hspoken)
  · have hsaid : (evaluated cfg s header decided w).said = s.said :=
      said_of_spoken (spoken_evaluated cfg s header decided w)
    let evaluation' := if cfg.maxMessage < (received s.feed).length then
      (evaluated cfg s header decided w).sizeExceededEvaluation (ascii "DATA") else evaluation
    have hresults : evaluation'.closeConnection = false →
        Fits s.state.mode s.recipients evaluation'.result ∧
        (cfg.maxMessage < (received s.feed).length → ∀ r ∈ evaluation'.result, r.code = 552) := by
      by_cases hover : cfg.maxMessage < (received s.feed).length
      · intro _
        simp only [evaluation', if_pos hover]
        refine ⟨fits_uniformResult .., fun _ r hr => ?_⟩
        obtain ⟨i, -, rfl⟩ := List.mem_map.mp hr
        rfl
      · simp only [evaluation', if_neg hover]
        exact fun hclose => ⟨hfits hclose, fun h => absurd h hover⟩
    have hfinish := wp_finishContent_said env evaluation' (evaluated cfg s header decided w)
    simp only [wp, h]
    simp only [wp, hsaid] at hfinish
    have hreport (s' : Session φ ω) (hclose : evaluation'.closeConnection = false)
        (hreported : Reported env s.said evaluation'.result s') : ReportedData cfg env s s' :=
      ⟨_, (hresults hclose).1, hreported, (hresults hclose).2⟩
    rcases hrun : finishContent env evaluation' (evaluated cfg s header decided w) with
      ⟨action | e | _, s'⟩ <;> simp only [hrun] at hfinish
    · exact hfinish.imp (fun hdone => hreport s' hdone.1 hdone.2) id
    · exact hfinish.imp (fun hdone => hreport s' hdone.1 hdone.2) id
    · exact hfinish.imp (fun hdone => hreport s' hdone.1 hdone.2) id

/-- How DATA was answered: by a refusal, or by 354 and then the results.  If the session is ended,
it may have been silent instead. -/
def AnsweredData (cfg : Config) (env : Env φ ω) (ended : Prop) (s s' : Session φ ω) : Prop :=
  (∃ r : WireReply, r.refuses = true ∧ s'.said = s.said ++ [r]) ∨ (ended ∧ s'.said = s.said) ∨
  ∃ go : WireReply, go.code = 354 ∧ ((ended ∧ s'.said = s.said ++ [go]) ∨
    ∃ results, Fits s.state.mode s.recipients results ∧
      Reported env (s.said ++ [go]) results s' ∧
      (cfg.maxMessage < (received s.feed).length → ∀ r ∈ results, r.code = 552))

theorem AnsweredData.mono {ended ended' : Prop} (h : AnsweredData cfg env ended s s₁)
    (hover : ended → ended') (hsaid : s'.said = s₁.said) :
  AnsweredData cfg env ended' s s'
  := by
  rcases h with h | ⟨ho, h⟩ | ⟨go, hgo, ⟨ho, h⟩ | ⟨results, hfits, h, hlarge⟩⟩
  · exact .inl (by rwa [hsaid])
  · exact .inr (.inl ⟨hover ho, hsaid.trans h⟩)
  · exact .inr (.inr ⟨go, hgo, .inl ⟨hover ho, hsaid.trans h⟩⟩)
  · refine .inr (.inr ⟨go, hgo, .inr ⟨results, hfits, ?_, hlarge⟩⟩)
    simpa only [Reported, hsaid] using h

theorem wp_handleDATA_said (cfg : Config) (env : Env φ ω) (c : Command) (s : Session φ ω) :
  wp (handleDATA cfg env c)
    (fun action s' => AnsweredData cfg env (action.closeConnection = true) s s')
    (fun _ s' => AnsweredData cfg env True s s') s
  := by
  have hrefuse {r : WireReply} {action : CommandAction} (hr : r.refuses = true) :
      wp (do writeReply env r; pure action)
        (fun action s' => AnsweredData cfg env (action.closeConnection = true) s s')
        (fun _ s' => AnsweredData cfg env True s s') s :=
    wp_mono (refuses_reply env r action s) (fun _ _ h => .inl ⟨r, hr, h⟩)
      fun _ _ h => .inr (.inl ⟨trivial, h⟩)
  rw [handleDATA, wp_bind, wp_read, wp_ite]
  refine ⟨fun _ => hrefuse rfl, fun _ => ?_⟩
  rw [wp_ite]
  refine ⟨fun _ => hrefuse rfl, fun _ => ?_⟩
  rw [wp_ite]
  refine ⟨fun _ => hrefuse rfl, fun _ => ?_⟩
  let go : WireReply := { code := 354, text := ascii "End data with <CRLF>.<CRLF>" }
  have hsilent {ended : Prop} (hover : ended) {s' : Session φ ω} (h : s'.said = s.said ++ [go]) :
      AnsweredData cfg env ended s s' := .inr (.inr ⟨go, rfl, .inl ⟨hover, h⟩⟩)
  have hgo (w : ω) : said { s with world := w, log := s.log ++ [.reply go] } = s.said ++ [go] :=
    said_reply s go w
  rw [wp_bind]
  refine wp_writeReply (fun w => ?_) fun _ w => .inr (.inl ⟨trivial, rfl⟩)
  rw [wp_bind]
  refine wp_transport (fun w => ?_) fun _ w => hsilent trivial (hgo w)
  rw [wp_bind]
  refine wp_transport (fun w => ?_) fun _ w => hsilent trivial (hgo w)
  have hreported {ended : Prop} {s' : Session φ ω}
      (h : ReportedData cfg env { s with world := w, log := s.log ++ [.reply go] } s') :
      AnsweredData cfg env ended s s' := by
    obtain ⟨results, hfits, hreported, hover⟩ := h
    rw [hgo w] at hreported
    exact .inr (.inr ⟨go, rfl, .inr ⟨results, hfits, hreported, hover⟩⟩)
  apply wp_mono (wp_receive_said cfg env _)
  · rintro action s' (h | ⟨hclose, h⟩)
    · exact hreported h
    · exact hsilent hclose (h.trans (hgo w))
  · rintro _ s' (h | h)
    · exact hreported h
    · exact hsilent trivial (h.trans (hgo w))

/-! ### Turns -/

section Turns

variable {cfg : Config} {env : Env φ ω} {c : Command} {rest : Feed UInt8 φ} {s : Session φ ω}

@[simp]
theorem said_receiving :
  (s.receiving env c rest).said = s.said
  := by
  simp [receiving, said, replies]

theorem wp_turn_lastChunk {R T : Prop} (hread : readCommand s.feed = (.ok c, rest))
    (hverb : Verb.ofSpelling c.verb = .bdat) (hsize : announced c.argument = some (n, true))
    (hT : ¬ T → s.state.phase ∈ [.ready, .mail, .recipients, .failedBDAT] ∧ s.recipients ≠ [] ∧
      n ≤ maxInt64 ∧ s.extended = true ∧ cfg.chunking = true ∧ s.state.phase ≠ .failedBDAT)
    (hstores : cfg.chunking = true → s.recipients ≠ [] → s.state.phase ≠ .failedBDAT →
      wp (stores env n) (fun v _ => Allows R T v) (fun _ _ => True) (s.receiving env c rest)) :
  wp (turn cfg env)
    (fun on s' => Concluded env R T s s' ∨ on = false ∧ s'.said = s.said)
    (fun _ s' => Concluded env R T s s' ∨ s'.said = s.said) s
  := by
  have heq : (s.receiving env c rest).address = s.address := by
    rw [address, said_receiving]
    rfl
  refine wp_turn_command hread (fun _ _ => .inr rfl) ?_
  have hhandle : Resolves env R T (dispatch cfg env .bdat c) (s.receiving env c rest) := by
    apply Resolves.bind Keeps.read
    rw [wp_read, show (s.receiving env c rest).state = s.state from rfl, legality_bdat]
    by_cases hphase : s.state.phase ∈ [.ready, .mail, .recipients, .failedBDAT]
    · rw [if_pos hphase]
      exact resolves_handleBDAT hsize (fun hnot => (hT hnot).2) hstores
    · have hT : T := by
        by_contra hnot
        exact hphase (hT hnot).1
      rw [if_neg hphase]
      exact (refuses_reply env _ _).resolves hT rfl
  rw [obey, wp_bind, execute]
  simp only [hverb, reduceCtorEq, if_false]
  apply wp_mono hhandle
  · intro action s₁ h
    apply wp_mono wp_finishTurn_said
    · rintro on s' ⟨rfl, hsaid⟩
      rcases h with h | ⟨hclose, h⟩
      · exact .inl ((h.of_address heq).of_said hsaid)
      · exact .inr ⟨by rw [hclose]; rfl, hsaid.trans (h.trans said_receiving)⟩
    · intro _ s' hsaid
      rcases h with h | ⟨-, h⟩
      · exact .inl ((h.of_address heq).of_said hsaid)
      · exact .inr (hsaid.trans (h.trans said_receiving))
  · rintro _ s' (h | h)
    · exact .inl (h.of_address heq)
    · exact .inr (h.trans said_receiving)

theorem wp_turn_data (hread : readCommand s.feed = (.ok c, rest))
    (hverb : Verb.ofSpelling c.verb = .data) :
  wp (turn cfg env)
    (fun on s' => AnsweredData cfg env (on = false) (s.receiving env c rest) s')
    (fun _ s' => AnsweredData cfg env True (s.receiving env c rest) s') s
  := by
  have hsame : (s.receiving env c rest).said = s.said := said_receiving
  refine wp_turn_command hread (fun _ _ => .inr (.inl ⟨trivial, hsame.symm⟩)) ?_
  have hdispatch : wp (dispatch cfg env .data c)
      (fun action s' =>
        AnsweredData cfg env (action.closeConnection = true) (s.receiving env c rest) s')
      (fun _ s' => AnsweredData cfg env True (s.receiving env c rest) s')
      (s.receiving env c rest) := by
    have hrefuse {r : WireReply} {action : CommandAction} (hr : r.refuses = true) :
        wp (do writeReply env r; pure action)
          (fun action s' =>
            AnsweredData cfg env (action.closeConnection = true) (s.receiving env c rest) s')
          (fun _ s' => AnsweredData cfg env True (s.receiving env c rest) s')
          (s.receiving env c rest) :=
      wp_mono (refuses_reply env r action _) (fun _ _ h => .inl ⟨r, hr, h⟩)
        fun _ _ h => .inr (.inl ⟨trivial, h⟩)
    rw [dispatch, wp_bind, wp_read]
    split
    · exact hrefuse rfl
    · exact hrefuse rfl
    · exact hrefuse rfl
    · exact wp_handleDATA_said cfg env c _
  rw [obey, wp_bind, execute]
  simp only [hverb, reduceCtorEq, if_false]
  apply wp_mono hdispatch _ fun _ _ => id
  intro action s₁ h
  apply wp_mono wp_finishTurn_said
  · rintro on s' ⟨rfl, hsaid⟩
    exact h.mono (fun hclose => by rw [hclose]; rfl) hsaid
  · exact fun _ s' hsaid => h.mono (fun _ => trivial) hsaid

end Turns

end Session

end GoSmtp.Server
