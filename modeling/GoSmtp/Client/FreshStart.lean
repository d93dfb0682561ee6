import GoSmtp.Client.Abreast
import GoSmtp.Client.Window

/-!
# The session over TLS

Once the server has answered STARTTLS with 220, nothing that it sent in the clear matters
any more: neither the extensions that it advertised, nor what it sent after the 220.  Two
sessions that differ in these only report the same extensions after `StartTLS`, and every
later call returns the same and writes the same, whether the handshake and the EHLO over TLS
succeed or not.
-/

namespace GoSmtp.Client

open Exec

variable {φ ω α β μ : Type}
variable {s s' : Conn φ ω} {p p' : List WireEvent} {m : Call φ ω α} {m' : Call φ ω β}

open Sasl

/-! ### The two parts of STARTTLS -/

/-- `StartTLS` up to the 220. -/
def requestTLS (opts : Options) (env : Env φ ω) : Call φ ω Unit := do
  if ← canceled env .before then Exec.fail .canceled
  else
    requireState (ascii "STARTTLS") [.greeted]
    let s ← Exec.read
    if !s.advertises (ascii "STARTTLS") then
      Exec.fail (.message (ascii "smtpclient: server did not advertise STARTTLS"))
    else
      let r ← executeOne opts env { verb := ascii "STARTTLS" }
      expectReply opts (ascii "STARTTLS") r [220]

/-- `StartTLS` from the 220 on. -/
def switchTLS (opts : Options) (env : Env φ ω) : Call φ ω Unit := do
  Exec.update fun s => { s with ext := [] }
  match ← outside env.handshake with
  | .error e =>
    if ← canceled env .after then poisoned .canceled
    else poisoned (.transport (ascii "TLS") (.io e))
  | .ok replies =>
    unlessClosed fun s => { s with replies := replies, state := .tls }
    ehloLocked opts env

theorem startTLS_eq (opts : Options) (env : Env φ ω) :
  startTLS opts env = requestTLS opts env >>= fun _ => switchTLS opts env
  := by
  rw [startTLS, requestTLS]
  simp only [Exec.bind_bind, Exec.ite_bind, Exec.fail_bind]
  rfl

/-! ### Before the 220 -/

/-- Two connections on which different replies are to come, after different logs.  The servers
agree on STARTTLS, and maybe on no other extension. -/
structure Cleartext (p p' : List WireEvent) (f f' : Feed Reply φ) (s s' : Conn φ ω) : Prop where
  replies : s.replies = f
  replies' : s'.replies = f'
  world : s.world = s'.world
  state : s.state = s'.state
  offered : s.advertises (ascii "STARTTLS") = s'.advertises (ascii "STARTTLS")
  logs : ∃ t, s.log = p ++ t ∧ s'.log = p' ++ t

/-- What two connections share whatever else happens to them. -/
structure SameOutside (p p' : List WireEvent) (s s' : Conn φ ω) : Prop where
  world : s.world = s'.world
  logs : ∃ t, s.log = p ++ t ∧ s'.log = p' ++ t

theorem Cleartext.sameOutside {f f' : Feed Reply φ} (h : Cleartext p p' f f' s s') :
  SameOutside p p' s s'
  := ⟨h.world, h.logs⟩

theorem loosely {hide : Bool} {R S : Conn φ ω → Conn φ ω → Prop} {V : α → β → Prop}
    (h : Exec.Twins R V (Veiled hide) S m m') :
  Exec.Twins R V (fun _ _ => True) S m m'
  := h.mono (fun _ _ h => h) (fun _ _ _ => trivial) fun _ _ h => h

theorem loosely_expectReply {R : Conn φ ω → Conn φ ω → Prop} (opts : Options) (command : Bytes)
    (r : Reply) (want : List Int) :
  Exec.Twins R (fun _ _ => True) (fun _ _ => True) R (expectReply opts command r want)
    (expectReply opts command r want)
  := by
  apply Twins.read
  intro s s' _
  by_cases hcode : r.code ∈ want
  · simp only [unexpectedReply, if_pos hcode]
    apply Twins.pure trivial
  · by_cases hpositive : r.code > 0
    · simp only [unexpectedReply, if_neg hcode, if_pos hpositive]
      apply Twins.fail trivial
    · simp only [unexpectedReply, if_neg hcode, if_neg hpositive]
      apply Twins.fail trivial

section Before

variable {env : Env φ ω} {p p' : List WireEvent}
  (hcaller : ∀ c t w, env.canceled c (p ++ t) w = env.canceled c (p' ++ t) w)

theorem append_logs {l l' : List WireEvent} (h : ∃ t, l = p ++ t ∧ l' = p' ++ t) (e : WireEvent) :
  ∃ t, l ++ [e] = p ++ t ∧ l' ++ [e] = p' ++ t
  := by
  obtain ⟨t, rfl, rfl⟩ := h
  use t ++ [e]
  rw [List.append_assoc, List.append_assoc]
  exact ⟨rfl, rfl⟩

theorem WireEvent.Alike.eq_of_shown {e e' : WireEvent} (h : e.Alike false e') :
  e = e'
  := by
  cases h with
  | refl => rfl
  | reply h => rw [h.eq_of_shown rfl]
  | auth h => cases h

include hcaller

theorem canceled_eq (c : Check) {w w' : ω} {l l' : List WireEvent} (hw : w = w')
    (hl : ∃ t, l = p ++ t ∧ l' = p' ++ t) :
  env.canceled c l w = env.canceled c l' w'
  := by
  obtain ⟨t, rfl, rfl⟩ := hl
  rw [hw, hcaller]

theorem cleartext_inPace (f f' : Feed Reply φ) :
  InPace false env (Cleartext p p' f f')
  where
  canceled c s s' hs := by
    have heq := canceled_eq hcaller c hs.world hs.logs
    constructor
    · exact .ok (congrArg Prod.fst heq)
    · exact ⟨hs.replies, hs.replies', congrArg Prod.snd heq, hs.state, hs.offered, hs.logs⟩
  poison := by
    apply Twins.update
    intro s s' hs
    exact ⟨hs.replies, hs.replies', hs.world, rfl, hs.offered, hs.logs⟩
  record he := by
    apply Twins.update
    intro s s' hs
    rw [he.eq_of_shown]
    exact ⟨hs.replies, hs.replies', hs.world, hs.state, hs.offered, append_logs hs.logs _⟩
  output ho := by
    intro s s' hs
    rw [ho rfl]
    simp only [outside, hs.world]
    exact ⟨.ok rfl, ⟨hs.replies, hs.replies', rfl, hs.state, hs.offered, hs.logs⟩⟩
  trace direction line := by
    intro s s' hs
    simp only [trace, outside, hs.world]
    exact ⟨.ok trivial, ⟨hs.replies, hs.replies', rfl, hs.state, hs.offered, hs.logs⟩⟩

theorem cleartext_read (opts : Options) (command : Bytes) (r : Reply) (f f' : Feed Reply φ) :
  Exec.Twins (Cleartext p p' (.item r :: f) (.item r :: f')) Eq (fun _ _ => True)
    (SameOutside p p') (read opts env command) (read opts env command)
  := by
  have hpace := cleartext_inPace hcaller f f'
  have hlost (m m' : Call φ ω Reply) (h : Exec.Twins (Cleartext p p' f f') Eq (fun _ _ => True)
      (Cleartext p p' f f') m m') : Exec.Twins (Cleartext p p' f f') Eq (fun _ _ => True)
      (SameOutside p p') m m' :=
    h.mono (fun _ _ h => h) (fun _ _ h => h) fun _ _ h => h.sameOutside
  have hnext : Exec.Twins (Cleartext p p' (.item r :: f) (.item r :: f'))
      (fun x y => x = .ok r ∧ y = .ok r) (fun _ _ => True) (Cleartext p p' f f')
      (readReply : Call φ ω _) readReply := by
    intro s s' hs
    simp only [readReply, hs.replies, hs.replies', Feed.next]
    exact ⟨.ok ⟨rfl, rfl⟩, ⟨rfl, rfl, hs.world, hs.state, hs.offered, append_logs hs.logs _⟩⟩
  apply (loosely ((cleartext_inPace hcaller _ _).canceled .before)).chain
    fun _ _ h => h.sameOutside
  rintro before _ rfl
  apply Twins.ite Iff.rfl
  · apply (Twins.fail trivial).mono (fun _ _ h => h) (fun _ _ h => h)
      fun _ _ h => h.sameOutside
  apply hnext.chain fun _ _ h => h.sameOutside
  rintro _ _ ⟨rfl, rfl⟩
  apply hlost
  apply (loosely (hpace.canceled .after)).bind
  rintro after _ rfl
  apply Twins.ite Iff.rfl
  · apply loosely (inPace_poisoned hpace (.refl _ _))
  apply (loosely (hpace.trace _ _)).bind
  intro _ _ _
  apply Twins.read
  intro s s' _
  apply Twins.ite Iff.rfl
  · apply (loosely hpace.poison).bind
    intro _ _ _
    apply Twins.fail trivial
  · apply Twins.pure rfl

theorem cleartext_executeOne (opts : Options) (c : QueuedCommand) (r : Reply)
    (f f' : Feed Reply φ) :
  Exec.Twins (Cleartext p p' (.item r :: f) (.item r :: f')) Eq (fun _ _ => True)
    (SameOutside p p') (executeOne opts env c) (executeOne opts env c)
  := by
  have hpace := cleartext_inPace hcaller (.item r :: f) (.item r :: f')
  have hkept {m m' : Call φ ω Reply} (h : Exec.Twins (Cleartext p p' (.item r :: f) (.item r :: f'))
      Eq (fun _ _ => True) (Cleartext p p' (.item r :: f) (.item r :: f')) m m') :=
    h.mono (fun _ _ h => h) (fun _ _ h => h) fun _ _ h => h.sameOutside
  rw [executeOne_eq]
  apply Twins.read
  intro s s' hs
  apply Twins.ite (by rw [Conn.closed, Conn.closed, hs.state])
  · apply hkept (Twins.fail trivial)
  apply Twins.ite Iff.rfl
  · apply hkept (Twins.fail trivial)
  apply (loosely (inPace_checkCompletes hpace (.refl _ _))).chain fun _ _ h => h.sameOutside
  intro _ _ _
  apply (loosely (twins_classified (.refl _ _) (inPace_write hpace (.refl _ _)))).chain
    fun _ _ h => h.sameOutside
  intro _ _ _
  apply (cleartext_read hcaller opts _ r f f').mapErr
  intro _ _ _
  trivial

/-- If the servers agree on STARTTLS and answer it with the same reply, the outside is the same
after it. -/
theorem cleartext_requestTLS (opts : Options) (r : Reply) (f f' : Feed Reply φ) :
  Exec.Twins (Cleartext p p' (.item r :: f) (.item r :: f')) (fun _ _ => True) (fun _ _ => True)
    (SameOutside p p') (requestTLS opts env) (requestTLS opts env)
  := by
  have hpace := cleartext_inPace hcaller (.item r :: f) (.item r :: f')
  have hkept {m m' : Call φ ω Unit} (h : Exec.Twins (Cleartext p p' (.item r :: f) (.item r :: f'))
      (fun _ _ => True) (fun _ _ => True) (Cleartext p p' (.item r :: f) (.item r :: f')) m m') :=
    h.mono (fun _ _ h => h) (fun _ _ h => h) fun _ _ h => h.sameOutside
  apply (loosely (hpace.canceled .before)).chain fun _ _ h => h.sameOutside
  rintro before _ rfl
  apply Twins.ite Iff.rfl
  · apply hkept (Twins.fail trivial)
  have hstate : Exec.Twins (Cleartext p p' (.item r :: f) (.item r :: f')) (fun _ _ => True)
      (fun _ _ => True) (Cleartext p p' (.item r :: f) (.item r :: f'))
      (requireState (ascii "STARTTLS") [.greeted] : Call φ ω Unit)
      (requireState (ascii "STARTTLS") [.greeted]) := by
    apply Twins.read
    intro s s' hs
    apply Twins.ite (by rw [hs.state])
    · apply Twins.pure trivial
    · apply Twins.fail trivial
  apply hstate.chain fun _ _ h => h.sameOutside
  intro _ _ _
  apply Twins.read
  intro s s' hs
  apply Twins.ite (by rw [hs.offered])
  · apply hkept (Twins.fail trivial)
  apply (cleartext_executeOne hcaller opts _ r f f').chain fun _ _ h => h
  rintro r _ rfl
  apply loosely_expectReply

end Before

theorem wp_requestTLS (opts : Options) (env : Env φ ω) (s : Conn φ ω) :
  wp (requestTLS opts env)
    (fun _ s₁ => s.state = .greeted ∧ s.advertises (ascii "STARTTLS") = true
      ∧ s₁ = { s with world := s₁.world, replies := s₁.replies, log := s₁.log })
    (fun _ _ => True) s
  := by
  rw [requestTLS, wp_bind, wp_canceled, wp_ite]
  refine ⟨fun _ => trivial, fun _ => ?_⟩
  rw [wp_bind]
  apply wp_requireState _ fun _ => trivial
  intro hstate
  rw [wp_bind, wp_read, wp_ite]
  refine ⟨fun _ => trivial, fun hoffered => ?_⟩
  rw [wp_bind, executeOne, wp_bind]
  apply wp_mono (wp_executeLocked_unread fun rs replies w log hlen _ _ => ?_)
    (fun _ _ h => h) fun _ _ _ => trivial
  obtain ⟨r, rfl⟩ := List.length_eq_one_iff.mp hlen
  rw [wp_pure]
  apply wp_expectReply
  · intro _
    exact ⟨List.mem_singleton.mp hstate, by simpa [Conn.advertises] using hoffered, rfl⟩
  · exact fun _ _ _ => trivial

/-! ### From the 220 on -/

/-- The view of two sessions with different logs up to now. -/
def View.relogged (p p' : List WireEvent) : View ω where
  hide := false
  worlds := Eq
  logs l l' := ∃ t, l = p ++ t ∧ l' = p' ++ t

theorem View.relogged_uniform {env : Env φ ω}
    (hcaller : ∀ c t w, env.canceled c (p ++ t) w = env.canceled c (p' ++ t) w) :
  (View.relogged p p').Uniform env
  where
  canceled c l l' w w' hl hw := by
    obtain ⟨t, rfl, rfl⟩ := hl
    subst hw
    rw [hcaller]
    exact ⟨rfl, rfl⟩
  write ho hw := by
    rw [ho rfl, hw]
    exact ⟨rfl, rfl⟩
  watcher hw := by
    rw [hw]
    exact ⟨rfl, rfl⟩
  handshake hw := by
    rw [hw]
    refine ⟨?_, rfl⟩
    rcases (env.handshake _).1 with e | f
    · exact .error rfl
    · exact .ok (.refl _ f)
  extraReply hw := by
    rw [hw]
    exact ⟨rfl, rfl⟩
  trace e w w' hw := by
    rw [hw]
    rfl
  log he hl := by
    rw [he.eq_of_shown]
    apply append_logs hl

/-- Two connections that differ in the replies that are still to come, and in what the log
held at first. -/
structure SameSession (p p' : List WireEvent) (s s' : Conn φ ω) : Prop where
  world : s.world = s'.world
  state : s.state = s'.state
  settings : s.settings = s'.settings
  logs : ∃ t, s.log = p ++ t ∧ s'.log = p' ++ t

theorem SameSession.advertises_eq (h : SameSession p p' s s') (keyword : Bytes) :
  s.advertises keyword = s'.advertises keyword
  := by
  have hext : s.ext = s'.ext := congrArg (·.2.1) h.settings
  rw [Conn.advertises, Conn.advertises, hext]

theorem View.Twin.sameSession (h : (View.relogged p p').Twin s s') :
  SameSession p p' s s'
  := ⟨h.worlds, h.state, h.settings, h.logs⟩

/-- The replies that are still to come are the same as well, or nobody will read them. -/
def Resumed (p p' : List WireEvent) (s s' : Conn φ ω) : Prop :=
  (View.relogged p p').Twin s s' ∨ s.state = .closed ∧ SameSession p p' s s'

section After

variable {env : Env φ ω} {p p' : List WireEvent}
  (hcaller : ∀ c t w, env.canceled c (p ++ t) w = env.canceled c (p' ++ t) w)
include hcaller

theorem twins_switchTLS (opts : Options) :
  Exec.Twins
    (fun s s' => s.state = .greeted ∧ SameSession p p' { s with ext := [] } { s' with ext := [] })
    (fun _ _ => True) Eq (Resumed p p') (switchTLS opts env) (switchTLS opts env)
  := by
  have henv := View.relogged_uniform hcaller
  have hgiven (e : ClientError φ) :
      Exec.Twins (fun s s' : Conn φ ω => s.state = .greeted ∧ SameSession p p' s s')
        (fun _ _ => True) Eq (Resumed p p') (poisoned e : Call φ ω Unit)
        (poisoned e : Call φ ω Unit) := by
    intro s s' hs
    exact ⟨.err rfl, .inr ⟨rfl, hs.2.world, rfl, hs.2.settings, hs.2.logs⟩⟩
  apply Twins.after (V := fun _ _ => True)
    (S := fun s s' => s.state = .greeted ∧ SameSession p p' s s')
  · intro s s' hs
    exact ⟨_, _, _, _, rfl, rfl, trivial, hs⟩
  intro _ _ _
  apply Twins.after (V := Eq)
    (S := fun s s' => s.state = .greeted ∧ SameSession p p' s s')
  · intro s s' hs
    have heq := congrArg env.handshake hs.2.world
    exact ⟨_, _, _, _, rfl, rfl, congrArg Prod.fst heq, hs.1, congrArg Prod.snd heq, hs.2.state,
      hs.2.settings, hs.2.logs⟩
  rintro answer _ rfl
  cases answer with
  | error e =>
    apply Twins.after (V := Eq)
      (S := fun s s' => s.state = .greeted ∧ SameSession p p' s s')
    · intro s s' hs
      have heq := canceled_eq hcaller .after hs.2.world hs.2.logs
      exact ⟨_, _, _, _, rfl, rfl, congrArg Prod.fst heq, hs.1, congrArg Prod.snd heq,
        hs.2.state, hs.2.settings, hs.2.logs⟩
    rintro after _ rfl
    apply Twins.ite Iff.rfl
    · apply hgiven
    · apply hgiven
  | ok replies =>
    apply Twins.after (V := fun _ _ => True) (S := (View.relogged p p').Twin)
    · intro s s' hs
      have hopen : s.closed = false := by rw [Conn.closed, hs.1]; rfl
      have hopen' : s'.closed = false := by rw [Conn.closed, ← hs.2.state, hs.1]; rfl
      refine ⟨_, _, _, _, rfl, rfl, trivial, ?_⟩
      simp only [hopen, hopen', Bool.false_eq_true, if_false]
      exact ⟨.refl _ replies, hs.2.world, rfl, hs.2.settings, hs.2.logs⟩
    intro _ _ _
    apply (View.twins_ehloLocked henv opts).mono
    · exact fun _ _ h => h
    · exact fun _ _ h => h rfl
    · exact fun _ _ h => .inl h

end After

/-! ### Closed connections -/

section Closed

/-- Two closed connections. -/
def Shut (p p' : List WireEvent) (s s' : Conn φ ω) : Prop :=
  s.state = .closed ∧ SameSession p p' s s'

variable {env : Env φ ω} {p p' : List WireEvent}

theorem Shut.closed (h : Shut p p' s s') :
  s.closed = true ∧ s'.closed = true
  := by
  rw [Conn.closed, Conn.closed, ← h.2.state, h.1]
  exact ⟨rfl, rfl⟩

theorem shut_requireState (command : Bytes) {allowed : List SessionState}
    (hclosed : .closed ∉ allowed) {V : α → β → Prop} {k : Unit → Call φ ω α}
    {k' : Unit → Call φ ω β} :
  Exec.Twins (Shut p p') V Eq (Shut p p') (requireState command allowed >>= k)
    (requireState command allowed >>= k')
  := by
  intro s s' hs
  have hstate := hs.2.state
  rw [hs.1] at hstate
  simp only [requireState, Bind.bind, Exec.read, hs.1, ← hstate, if_neg hclosed, Exec.fail]
  exact ⟨.err rfl, hs⟩

theorem shut_checked (check : Option (ClientError φ)) {V : α → β → Prop}
    (h : Exec.Twins (Shut p p') V Eq (Shut p p') m m') :
  Exec.Twins (Shut p p') V Eq (Shut p p') (checked check m) (checked check m')
  := by
  cases check with
  | some e => exact .fail rfl
  | none => exact h

theorem shut_returning {m m' : Call φ ω (Returned φ)}
    (h : Exec.Twins (Shut p p') Eq Eq (Shut p p') m m') :
  Exec.Twins (Shut p p') Eq Eq (Shut p p') (returning m) (returning m')
  := by
  apply h.attempt.bind
  intro x y hxy
  cases hxy with
  | ok hr => exact .pure hr
  | error he => exact .pure (by rw [he])

theorem shut_simple {V : α → β → Prop} (h : Exec.Twins (Shut p p') V Eq (Shut p p') m m') :
  Exec.Twins (Shut p p') Eq Eq (Shut p p') (simple m) (simple m')
  := by
  apply shut_returning
  apply h.bind
  intro _ _ _
  apply Twins.pure rfl

variable (hcaller : ∀ c t w, env.canceled c (p ++ t) w = env.canceled c (p' ++ t) w)
include hcaller

theorem shut_ifCanceled (c : Check) {V : α → β → Prop} {k : Call φ ω α} {k' : Call φ ω β}
    (hm : Exec.Twins (Shut p p') V Eq (Shut p p') m m')
    (hk : Exec.Twins (Shut p p') V Eq (Shut p p') k k') :
  Exec.Twins (Shut p p') V Eq (Shut p p') (do if ← canceled env c then m else k)
    (do if ← canceled env c then m' else k')
  := by
  apply Twins.after (V := Eq) (S := Shut p p')
  · intro s s' hs
    have heq := canceled_eq hcaller c hs.2.world hs.2.logs
    exact ⟨_, _, _, _, rfl, rfl, congrArg Prod.fst heq, hs.1, congrArg Prod.snd heq,
      hs.2.state, hs.2.settings, hs.2.logs⟩
  rintro answer _ rfl
  apply Twins.ite Iff.rfl
  · apply hm
  · apply hk

omit hcaller in
theorem shut_commandLocked (opts : Options) (verb : Bytes) (args : List Bytes)
    {allowed : List SessionState} (hclosed : .closed ∉ allowed) {V : α → β → Prop}
    {k : Reply → Call φ ω α} {k' : Reply → Call φ ω β} :
  Exec.Twins (Shut p p') V Eq (Shut p p') (commandLocked opts env verb args allowed >>= k)
    (commandLocked opts env verb args allowed >>= k')
  := by
  rw [commandLocked, Exec.bind_bind, Exec.bind_bind]
  apply shut_requireState verb hclosed

theorem shut_command (opts : Options) (verb : Bytes) (args : List Bytes)
    {allowed : List SessionState} (hclosed : .closed ∉ allowed) {V : α → β → Prop}
    {k : Reply → Call φ ω α} {k' : Reply → Call φ ω β} :
  Exec.Twins (Shut p p') V Eq (Shut p p') (command opts env verb args allowed >>= k)
    (command opts env verb args allowed >>= k')
  := by
  have hcommand : Exec.Twins (Shut p p') (fun _ _ => False) Eq (Shut p p')
      (command opts env verb args allowed) (command opts env verb args allowed) := by
    apply shut_ifCanceled hcaller
    · apply Twins.fail rfl
    · apply shut_requireState verb hclosed
  apply hcommand.bind
  intro _ _ h
  exact h.elim

theorem shut_data (opts : Options) (source : Source φ) (o : DataOptions) :
  Exec.Twins (Shut p p') Eq Eq (Shut p p') (data opts env source o) (data opts env source o)
  := by
  apply shut_returning
  apply Twins.read
  intro s s' hs
  have hbinary : s.binaryMIME = s'.binaryMIME := congrArg (·.2.2.2.2) hs.2.settings
  apply Twins.ite Iff.rfl
  · apply Twins.ite (by rw [hbinary])
    · apply Twins.fail rfl
    · apply shut_ifCanceled hcaller
      · apply Twins.fail rfl
      · apply shut_requireState _ (by decide)
  apply Twins.ite (by rw [hs.2.advertises_eq])
  · apply Twins.fail rfl
  apply Twins.ite Iff.rfl
  · apply Twins.fail rfl
  · apply shut_ifCanceled hcaller
    · apply Twins.fail rfl
    · apply shut_requireState _ (by decide)

omit hcaller in
theorem shut_burl (opts : Options) (url : Bytes) (last : Bool) :
  Exec.Twins (Shut p p') Eq Eq (Shut p p') (burl opts env url last) (burl opts env url last)
  := by
  apply shut_returning
  apply Twins.read
  intro s s' hs
  have hrecipients : s.recipients = s'.recipients := congrArg (·.2.2.1) hs.2.settings
  rw [hs.2.advertises_eq, hrecipients]
  apply Twins.ite Iff.rfl
  · apply Twins.fail rfl
  apply Twins.ite Iff.rfl
  · apply Twins.fail rfl
  apply Twins.ite Iff.rfl
  · apply Twins.fail rfl
  apply Twins.ite Iff.rfl
  · apply Twins.fail rfl
  · apply shut_requireState _ (by decide)

theorem shut_perform (opts : Options) (crypto : Crypto) {c : ClientCall φ ω μ}
    (hc : View.OvertCall c) :
  Exec.Twins (Shut p p') Eq Eq (Shut p p') (perform opts env crypto c)
    (perform opts env crypto c)
  := by
  cases c with
  | noop => exact shut_simple (shut_command hcaller opts _ _ (by decide) (V := Eq))
  | verify address =>
    exact shut_simple (shut_checked _ (shut_command hcaller opts _ _ (by decide) (V := Eq)))
  | expand list =>
    exact shut_simple (shut_checked _ (shut_command hcaller opts _ _ (by decide) (V := Eq)))
  | help topic => exact shut_simple (shut_command hcaller opts _ _ (by decide) (V := Eq))
  | etrn check node =>
    apply shut_simple (V := Eq)
    apply shut_checked
    apply Twins.read
    intro s s' hs
    apply Twins.ite (by rw [hs.2.advertises_eq])
    · apply Twins.fail rfl
    · apply shut_command hcaller opts _ _ (by decide)
  | atrn check args =>
    apply shut_simple (V := Eq)
    apply shut_checked
    apply Twins.read
    intro s s' hs
    apply Twins.ite (by rw [hs.2.advertises_eq])
    · apply Twins.fail rfl
    · apply shut_command hcaller opts _ _ (by decide)
  | mail m =>
    apply shut_simple (V := Eq)
    apply shut_checked
    apply Twins.read
    intro s s' hs
    rw [hc s s' hs.2.state hs.2.settings]
    apply Twins.after (V := fun _ _ => True) (S := Shut p p')
    · intro s s' hs
      refine ⟨_, _, _, _, rfl, rfl, trivial, hs.1, hs.2.world, hs.2.state, ?_, hs.2.logs⟩
      have hsettings := hs.2.settings
      simp only [Conn.settings, Prod.mk.injEq] at hsettings ⊢
      obtain ⟨hbase, hext, hrecipients, hu, hb⟩ := hsettings
      exact ⟨hbase, hext, hrecipients, hu, congrArg m.binaryMIME hb⟩
    intro _ _ _
    apply shut_checked
    apply shut_commandLocked opts _ _ (by decide)
  | rcpt recipients check =>
    apply shut_simple (V := Eq)
    apply shut_ifCanceled hcaller
    · apply Twins.fail rfl
    apply Twins.ite Iff.rfl
    · apply Twins.fail rfl
    · apply shut_requireState _ (by decide)
  | data source o => exact shut_data hcaller opts source o
  | burl url last => exact shut_burl opts url last
  | reset => exact shut_simple (shut_commandLocked opts _ _ (by decide) (V := Eq))
  | auth select mech =>
    have hauth : Exec.Twins (Shut p p') (fun _ _ => False) Eq (Shut p p')
        (authenticate opts env crypto select mech) (authenticate opts env crypto select mech) := by
      apply shut_ifCanceled hcaller
      · apply Twins.fail rfl
      · apply shut_requireState _ (by decide)
    apply shut_simple (V := Eq)
    apply hauth.bind
    intro _ _ h
    exact h.elim
  | startTLS =>
    apply shut_simple (V := Eq)
    apply shut_ifCanceled hcaller
    · apply Twins.fail rfl
    · apply shut_requireState _ (by decide)
  | quit =>
    apply shut_simple (V := Eq)
    apply shut_ifCanceled hcaller
    · apply Twins.fail rfl
    · apply Twins.read
      intro s s' hs
      rw [hs.closed.1, hs.closed.2]
      apply Twins.fail rfl
  | close =>
    apply shut_simple (V := Eq)
    apply Twins.read
    intro s s' hs
    rw [hs.closed.1, hs.closed.2]
    apply Twins.pure rfl

end Closed

/-! ### Whole sessions -/

/-- What the calls of a sequence return, and the connection that they leave. -/
def transcript (opts : Options) (env : Env φ ω) (crypto : Crypto) :
    List (ClientCall φ ω μ) → Conn φ ω →
      List (Outcome (ClientError φ) (Returned φ)) × Conn φ ω
  | [], s => ([], s)
  | c :: calls, s =>
    let (x, s) := perform opts env crypto c s
    let (xs, s) := transcript opts env crypto calls s
    (x :: xs, s)

section Sessions

variable (opts : Options) {env : Env φ ω} (crypto : Crypto) {p p' : List WireEvent}
  (hcaller : ∀ c t w, env.canceled c (p ++ t) w = env.canceled c (p' ++ t) w)
include hcaller

theorem resumed_perform {c : ClientCall φ ω μ} (hc : View.OvertCall c) (hs : Resumed p p' s s') :
  (perform opts env crypto c s).1 = (perform opts env crypto c s').1
    ∧ Resumed p p' (perform opts env crypto c s).2 (perform opts env crypto c s').2
  := by
  have henv := View.relogged_uniform hcaller
  rcases hs with hs | hs
  · have htwins := View.twins_perform henv opts crypto hc
      fun select mech _ => View.twins_auth henv rfl opts crypto select mech
    obtain ⟨hend, hleft⟩ := htwins s s' hs
    constructor
    · apply Outcome.Rel.eq
      apply hend.mono
      · exact fun _ _ h => h.shown rfl
      · exact fun _ _ h => h rfl
    · apply Or.inl hleft
  · obtain ⟨hend, hleft⟩ := shut_perform hcaller opts crypto hc s s' hs
    exact ⟨hend.eq, .inr hleft⟩

theorem resumed_transcript {calls : List (ClientCall φ ω μ)}
    (hcalls : ∀ c ∈ calls, View.OvertCall c) (hs : Resumed p p' s s') :
  (transcript opts env crypto calls s).1 = (transcript opts env crypto calls s').1
    ∧ Resumed p p' (transcript opts env crypto calls s).2 (transcript opts env crypto calls s').2
  := by
  induction calls generalizing s s' with
  | nil => exact ⟨rfl, hs⟩
  | cons c calls ih =>
    obtain ⟨hend, hleft⟩ := resumed_perform opts crypto hcaller
      (hcalls c List.mem_cons_self) hs
    obtain ⟨hends, hlast⟩ := ih (fun c hc => hcalls c (List.mem_cons_of_mem _ hc)) hleft
    simp only [transcript]
    exact ⟨by rw [hend, hends], hlast⟩

end Sessions

theorem Resumed.sameSession (h : Resumed p p' s s') :
  SameSession p p' s s'
  := by
  rcases h with h | h
  · exact h.sameSession
  · exact h.2

/-- A world in which the server answers two commands over TLS. -/
def Env.secured : Env Empty Unit :=
  { Env.plain with
    handshake := fun w => (.ok (Feed.items [⟨250, ascii "b", []⟩, ⟨250, ascii "k", []⟩]), w) }

/-- A connection before STARTTLS. -/
def Conn.unsecured : Conn Empty Unit := Conn.scripted .greeted ["STARTTLS"] [] [(220, "go")] ()

end GoSmtp.Client
