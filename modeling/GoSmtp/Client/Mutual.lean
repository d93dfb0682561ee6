import GoSmtp.Client.FinalStatus

/-!
# Mutual authentication

A SCRAM server proves in its second challenge that it knows the password.  The loop of `Auth`
ends with the first reply that is no challenge, and a 235 in that place is taken as success
whatever step the mechanism is in.  So the signature is checked only if the server asks for
both steps.
-/

namespace GoSmtp.Client

variable {φ ω μ : Type}
variable {rs : List Reply} {r : Reply} {n : Nat} {crypto : Crypto} {cfg : ScramConfig}
  {rest : Feed Reply φ}

open Sasl

/-! ### Conversations -/

/-- The replies that the loop of `Auth` reads: challenges that the mechanism answers, and one
that is no challenge. -/
inductive Conversation (crypto : Crypto) (mech : Mechanism μ) : μ → List Reply → Prop where
  | ended {m : μ} {r : Reply} (hr : r.code ≠ 334) : Conversation crypto mech m [r]
  | challenge {m m' : μ} {r : Reply} {replies : List Reply} {challenge response : Bytes}
      {final : Bool} (hr : r.code = 334) (hchallenge : decodeChallenge crypto r.text = .ok challenge)
      (hnext : mech.next challenge m = (.ok (response, final), m'))
      (hvalid : ({ verb := encodeSASL crypto response } : QueuedCommand).valid)
      (hrest : Conversation crypto mech m' replies) : Conversation crypto mech m (r :: replies)

/-- The replies among the events since `s`, which the peer of `s` has sent. -/
structure Received (s s' : Conn φ ω) (rs : List Reply) : Prop where
  sent : s.replies = rs.map .item ++ s'.replies
  logged : ∃ new, s'.log = s.log ++ new ∧ repliesOf new = rs

theorem Received.cons {s s' s'' : Conn φ ω} (h : Received s s' [r]) (h' : Received s' s'' rs) :
  Received s s'' (r :: rs)
  := by
  obtain ⟨hsent, new, hlog, hnew⟩ := h
  obtain ⟨hsent', new', hlog', hnew'⟩ := h'
  constructor
  · rw [hsent, hsent', ← List.append_assoc]
    rfl
  · use new ++ new'
    constructor
    · rw [hlog', hlog, List.append_assoc]
    · rw [repliesOf, List.filterMap_append]
      exact congrArg₂ (· ++ ·) hnew hnew'

theorem received_line {s : Conn φ ω} {replies : Feed Reply φ} {w : ω} {q : Request}
    (hreplies : s.replies = .item r :: replies) :
  Received s { s with
    world := w
    replies := replies
    log := s.log ++ noted false ++ [.sent q n] ++ [.reply r] } [r]
  := by
  refine ⟨hreplies, [.sent q n, .reply r], ?_, rfl⟩
  simp [noted]

section Rules

variable {opts : Options} {env : Env φ ω} {crypto : Crypto} {mech : Mechanism μ} {s : Conn φ ω}

theorem wp_cancelAny {α : Type} {Q : α → Conn φ ω → Prop} {cause : ClientError φ} :
  wp (cancelAuth opts env cause) Q (fun e _ => e ≠ none) s
  := by
  rw [cancelAuth, wp_bind, wp_attempt]
  apply wp_writeLine
  · intro _ _
    rw [wp_bind, wp_attempt]
    apply wp_readAny
    · intro _ _ _ _ _
      rw [wp_ite]
      constructor <;> simp
    all_goals
      intros
      simp
  all_goals
    intros
    simp

/-- The loop of `Auth` holds a conversation.  Every turn uses up a reply, so the turns do not
run out. -/
theorem wp_exchangeAny {name : Bytes} {m : μ} (hn : s.replies.length < n) :
  wp (exchange opts env crypto name mech n r m)
    (fun r' s' => ∃ rs, Conversation crypto mech m (r :: rs) ∧ (r :: rs).getLast? = some r' ∧
      Received s s' rs)
    (fun e _ => e ≠ none) s
  := by
  induction n generalizing r m s with
  | zero => cases hn
  | succ n ih =>
    rw [exchange, wp_ite]
    constructor
    · intro hr
      exact ⟨[], .ended hr, rfl, rfl, [], (List.append_nil _).symm, rfl⟩
    intro hr
    have hr : r.code = 334 := by omega
    split
    · apply wp_cancelAny
    next challenge hchallenge =>
    split
    · apply wp_cancelAny
    next response final m' hnext =>
    rw [wp_bind, authResponse]
    apply wp_writeLine
    · intro hvalid w
      rw [wp_bind]
      apply wp_readAny
      · intro r' replies w hreplies _
        rw [wp_ite]
        refine ⟨by simp, fun _ => ?_⟩
        rw [hreplies, List.length_cons] at hn
        refine wp_mono (ih (Nat.lt_of_succ_lt_succ hn)) ?_ fun _ _ => id
        rintro last s' ⟨rs, hrest, hlast, hreceived⟩
        refine ⟨r' :: rs, .challenge hr hchallenge hnext hvalid hrest, ?_, ?_⟩
        · rw [List.getLast?_cons_cons, hlast]
        · apply Received.cons _ hreceived
          exact received_line hreplies
      all_goals
        intros
        simp
    all_goals
      intros
      simp

end Rules

/-! ### SCRAM -/

/-- The server has proved that it knows the password: the first challenge is a server-first
message, and the second one has the signature over the messages. -/
def Verified (crypto : Crypto) (cfg : ScramConfig) (rs : List Reply) : Prop :=
  ∃ r r' last msg final first, rs = [r, r', last] ∧
    r.code = 334 ∧ decodeChallenge crypto r.text = .ok msg ∧
    parseServerFirst crypto cfg msg = .ok first ∧
    r'.code = 334 ∧ decodeChallenge crypto r'.text = .ok final ∧
    field 118 final = crypto.encode64 (serverSignature crypto cfg msg first)

/-- The server says 235 before it has proved anything: in the place of the first challenge or
of the second one. -/
inductive Unproved (crypto : Crypto) (cfg : ScramConfig) : List Reply → Prop where
  | first {r : Reply} (hr : r.code = 235) : Unproved crypto cfg [r]
  | second {r r' : Reply} {msg response : Bytes} {final : Bool} {m : Scram} (hr : r.code = 334)
      (hmsg : decodeChallenge crypto r.text = .ok msg)
      (hfinal : clientFinal crypto cfg msg ⟨1, []⟩ = (.ok (response, final), m))
      (hvalid : ({ verb := encodeSASL crypto response } : QueuedCommand).valid)
      (hr' : r'.code = 235) : Unproved crypto cfg [r, r']

theorem clientFinal_ok {msg response : Bytes} {final : Bool}
    {m m' : Scram} (h : clientFinal crypto cfg msg m = (.ok (response, final), m')) :
  final = false ∧ ∃ first, parseServerFirst crypto cfg msg = .ok first ∧
    m' = { m with expected := serverSignature crypto cfg msg first }
  := by
  rw [clientFinal] at h
  split at h
  · cases h
  · next first hfirst =>
    cases h
    exact ⟨rfl, first, hfirst, rfl⟩

theorem scram_next_one {challenge response expected : Bytes} {final : Bool} {m : Scram}
    (h : (scram crypto cfg).next challenge ⟨1, expected⟩ = (.ok (response, final), m)) :
  field 118 challenge = crypto.encode64 expected ∧ m = ⟨2, expected⟩
  := by
  simp only [scram] at h
  split at h
  · next hfield =>
    cases h
    exact ⟨hfield, rfl⟩
  · cases h

/-- A conversation that ends with 235 has proved that the server knows the password, or the
server has left out a step. -/
theorem verified_or_unproved {last : Reply} (h : Conversation crypto (scram crypto cfg) ⟨0, []⟩ rs)
    (hlast : rs.getLast? = some last) (hcode : last.code = 235) :
  Verified crypto cfg rs ∨ Unproved crypto cfg rs
  := by
  cases h with
  | ended hr =>
    cases hlast
    exact .inr (.first hcode)
  | @challenge _ m r replies msg response _ hr hmsg hnext hvalid hrest =>
    have hfinal : clientFinal crypto cfg msg ⟨1, []⟩ = _ := hnext
    obtain ⟨rfl, first, hfirst, rfl⟩ := clientFinal_ok hfinal
    cases hrest with
    | ended hr' =>
      cases hlast
      exact .inr (.second hr hmsg hfinal hvalid hcode)
    | challenge hr' hmsg' hnext' _ hrest' =>
      obtain ⟨hfield, rfl⟩ := scram_next_one hnext'
      cases hrest' with
      | ended _ => exact .inl ⟨_, _, _, _, _, _, rfl, hr, hmsg, hfirst, hr', hmsg', hfield⟩
      | challenge _ _ hnext'' => cases hnext''

/-! ### The call -/

/-- The initial response. -/
def clientFirst (cfg : ScramConfig) : Bytes :=
  (if cfg.plus then plusHeader else ascii "n,,") ++ cfg.firstBare

theorem scram_start (crypto : Crypto) (cfg : ScramConfig) :
  (scram crypto cfg).start = (.ok (some (clientFirst cfg)), ⟨0, []⟩)
  := rfl

/-- `Client.Auth` gets to send its command. -/
structure Reaches (crypto : Crypto) (cfg : ScramConfig)
    (select : Bytes → Except (ClientError φ) Bytes) (s : Conn φ ω) : Prop where
  state : s.state ∈ [.greeted, .tls]
  command : ∃ params name, authAdvertisement s.ext = some params ∧ select params = .ok name ∧
    (authCommand crypto name (clientFirst cfg)).upper.length ≤ maxPipelineBytes ∧
    (authCommand crypto name (clientFirst cfg)).upper.valid

/-- If `Client.Auth` marks the session as authenticated, then the server has proved that it
knows the password, whatever the context and the transport do. -/
def Mutual (opts : Options) (crypto : Crypto) (cfg : ScramConfig)
    (select : Bytes → Except (ClientError φ) Bytes) (s : Conn φ ω) : Prop :=
  ∀ env : Env φ ω,
    wp (authenticate opts env crypto select (scram crypto cfg))
      (fun _ s' => s'.state = .authenticated →
        ∃ new, s'.log = s.log ++ new ∧ Verified crypto cfg (repliesOf new))
      (fun e _ => e ≠ none) s

section Call

variable {opts : Options} {crypto : Crypto} {cfg : ScramConfig}
  {select : Bytes → Except (ClientError φ) Bytes} {s : Conn φ ω}

theorem wp_authenticateAny {env : Env φ ω} :
  wp (authenticate opts env crypto select (scram crypto cfg))
    (fun _ s' => Reaches crypto cfg select s ∧ ∃ rs, Received s s' rs ∧
      (Verified crypto cfg rs ∨ Unproved crypto cfg rs))
    (fun e _ => e ≠ none) s
  := by
  rw [authenticate, wp_bind, wp_canceled, wp_ite]
  refine ⟨by simp, fun _ => ?_⟩
  rw [wp_bind]
  apply wp_requireState
  · intro hstate
    rw [wp_bind, wp_read]
    split
    · simp
    next params hparams =>
    split
    · simp
    next name hname =>
    simp only [scram_start]
    rw [wp_bind]
    apply wp_executeAny
    · intro r replies w hadmitted hvalid hreplies
      have hreaches : Reaches crypto cfg select s :=
        ⟨hstate, params, name, hparams, hname, hadmitted.short, hvalid⟩
      rw [wp_bind]
      refine wp_mono (wp_exchangeAny ?_) ?_ fun _ _ => id
      · rw [hreplies, List.length_cons]
        apply Nat.lt_add_right
        apply Nat.lt_succ_self
      rintro last s' ⟨rs, hconversation, hlast, hreceived⟩
      have hreceived : Received s s' (r :: rs) := by
        apply Received.cons _ hreceived
        exact received_line hreplies
      rw [wp_bind]
      apply wp_expectReply
      · intro hcode
        have hproof := verified_or_unproved hconversation hlast (List.mem_singleton.mp hcode)
        rw [wp_unlessClosed]
        split
        · exact ⟨hreaches, _, hreceived, hproof⟩
        · exact ⟨hreaches, _, ⟨hreceived.sent, hreceived.logged⟩, hproof⟩
      · simp
    all_goals
      intros
      simp
  · simp

theorem Unproved.not_verified (h : Unproved crypto cfg rs) :
  ¬ Verified crypto cfg rs
  := by
  rintro ⟨r, r', last, _, _, _, rfl, _⟩
  cases h

theorem wp_exchangePlain {name : Bytes} (hn : rs.length < n)
    (hreplies : s.replies = rs.map .item ++ rest) (h : Unproved crypto cfg (r :: rs)) :
  wp (exchange opts Env.plain crypto name (scram crypto cfg) n r ⟨0, []⟩)
    (fun r' s' => r'.code = 235 ∧ s'.state = s.state ∧ Received s s' rs) (fun _ _ => False) s
  := by
  obtain ⟨n, rfl⟩ := Nat.exists_eq_add_one.mpr (Nat.zero_lt_of_lt hn)
  cases h with
  | first hr =>
    rw [exchange, if_pos (by omega)]
    exact ⟨hr, rfl, rfl, [], (List.append_nil _).symm, rfl⟩
  | @second _ r' msg response final m hr hmsg hfinal hvalid hr' =>
    have hnext : (scram crypto cfg).next msg ⟨0, []⟩ = (.ok (response, final), m) := hfinal
    obtain ⟨rfl, -⟩ := clientFinal_ok hfinal
    obtain ⟨n, rfl⟩ := Nat.exists_eq_add_one.mpr (Nat.lt_of_succ_lt_succ hn)
    rw [exchange, if_neg (by omega)]
    simp only [hmsg, hnext]
    rw [wp_bind, authResponse]
    apply wp_writePlain hvalid
    rw [wp_bind]
    refine wp_readPlain hreplies (by omega) ?_
    rw [if_neg (by simp), exchange, if_pos (by omega)]
    exact ⟨hr', rfl, received_line hreplies⟩

theorem wp_authenticatePlain (hreaches : Reaches crypto cfg select s)
    (hreplies : s.replies = rs.map .item ++ rest) (h : Unproved crypto cfg rs) :
  wp (authenticate opts Env.plain crypto select (scram crypto cfg))
    (fun _ s' => s'.state = .authenticated ∧ Received s s' rs) (fun _ _ => False) s
  := by
  obtain ⟨hstate, params, name, hparams, hname, hshort, hvalid⟩ := hreaches
  have hopen : s.state ≠ .closed := by
    intro hclosed
    rw [hclosed] at hstate
    simp at hstate
  have hhead : ∃ r rs', rs = r :: rs' ∧ r.code ≠ 421 := by
    cases h with
    | first hr => exact ⟨_, _, rfl, by omega⟩
    | second hr => exact ⟨_, _, rfl, by omega⟩
  obtain ⟨r, rs, rfl, hcode⟩ := hhead
  rw [List.map_cons, List.cons_append] at hreplies
  rw [authenticate, wp_bind, wp_canceled, wp_ite]
  refine ⟨by intros; contradiction, fun _ => ?_⟩
  rw [wp_bind]
  refine wp_requirePlain hstate ?_
  rw [wp_bind, wp_read]
  simp only [hparams, hname, scram_start]
  rw [wp_bind]
  refine wp_executePlain hopen hshort hvalid hreplies hcode ?_
  rw [wp_bind]
  refine wp_mono (wp_exchangePlain ?_ rfl h) ?_ fun _ _ => id
  · simp only [hreplies, List.length_cons, List.length_append, List.length_map]
    omega
  rintro last s' ⟨hlast, hstate', hreceived⟩
  have hreceived : Received s s' (r :: rs) := by
    apply Received.cons _ hreceived
    exact received_line hreplies
  have hopen' : s'.state ≠ .closed := by
    rw [hstate']
    exact hopen
  rw [wp_bind]
  apply wp_expectPlain (List.mem_singleton.mpr hlast)
  rw [wp_unlessClosed, if_neg (by simpa [Conn.closed] using hopen')]
  exact ⟨rfl, hreceived.sent, hreceived.logged⟩

theorem not_mutual (hreaches : Reaches crypto cfg select s)
    (hreplies : s.replies = rs.map .item ++ rest) (h : Unproved crypto cfg rs) :
  ¬ Mutual opts crypto cfg select s
  := by
  intro hmutual
  apply Exec.not_wp_false (wp_mono
    (wp_and (wp_authenticatePlain hreaches hreplies h) (hmutual Env.plain)) ?_ ?_)
  · rintro _ s' ⟨⟨hstate, hreceived⟩, hverified⟩
    obtain ⟨new, hlog, hnew⟩ := hreceived.logged
    obtain ⟨new', hlog', hverified⟩ := hverified hstate
    obtain rfl := List.append_cancel_left (hlog.symm.trans hlog')
    rw [hnew] at hverified
    exact h.not_verified hverified
  · rintro _ _ ⟨hfalse, -⟩
    exact hfalse

end Call

/-- SCRAM authenticates the server, except for a server that says 235 in the place of one of
its two challenges. -/
theorem mutual_iff (opts : Options) (crypto : Crypto) (cfg : ScramConfig)
    (select : Bytes → Except (ClientError φ) Bytes) (s : Conn φ ω) :
  Mutual opts crypto cfg select s ↔
    ¬ (Reaches crypto cfg select s ∧
      ∃ rs rest, s.replies = rs.map .item ++ rest ∧ Unproved crypto cfg rs)
  := by
  constructor
  · rintro hmutual ⟨hreaches, rs, rest, hreplies, hunproved⟩
    exact not_mutual hreaches hreplies hunproved hmutual
  · intro h env
    apply wp_mono wp_authenticateAny _ fun _ _ => id
    rintro _ s' ⟨hreaches, rs, hreceived, hverified | hunproved⟩ _
    · obtain ⟨new, hlog, rfl⟩ := hreceived.logged
      exact ⟨new, hlog, hverified⟩
    · exact absurd ⟨hreaches, rs, _, hreceived.sent, hunproved⟩ h

/-- A server that answers the AUTH command with 235. -/
theorem not_mutual_235 :
  ¬ Mutual (φ := Unit) (.plain false) .plain ⟨ascii "user", ascii "secret", ascii "n", false, []⟩
    (fun _ => .ok (ascii "SCRAM-SHA-256"))
    (.scripted .tls ["AUTH"] [] [(235, "ok")] () : Conn Unit Unit)
  := by
  apply not_mutual _ (List.append_nil _).symm (.first rfl)
  exact ⟨by decide, [], _, rfl, rfl, by decide +kernel, by decide +kernel⟩

end GoSmtp.Client
