import GoSmtp.Client.Delivery

/-!
# The argument of BURL

`Client.BURL` accepts a URL with a space inside of it.  The server splits the line at its spaces, so
that it may read other arguments than the caller gave, and LAST where the caller did not ask for
it.  Also, the client forgets about its transaction only if it gets to read the reply.
-/

namespace GoSmtp.Client

variable {φ ω : Type}

/-! ### Lines -/

theorem foldl_tokens (verb : Bytes) (args : List Bytes) :
  args.foldl (fun l a => l ++ sp :: a) verb = [sp].intercalate (verb :: args)
  := by
  induction args generalizing verb with
  | nil => simp
  | cons a args ih =>
    rw [List.foldl_cons, ih, List.intercalate_cons_cons]
    cases args <;> simp [List.intercalate_cons_cons]

theorem QueuedCommand.line_eq (c : QueuedCommand) :
  c.line = [sp].intercalate (c.verb :: c.args)
  := foldl_tokens c.verb c.args

theorem upper_burlCommand (url : Bytes) (last : Bool) :
  (burlCommand url last).upper = burlCommand url last
  := rfl

/-- The tokens that the caller of BURL means. -/
def burlTokens (url : Bytes) (last : Bool) : List Bytes :=
  ascii "BURL" :: url :: if last then [ascii "LAST"] else []

theorem splitOn_burl_iff (url : Bytes) (last : Bool) :
  (burlCommand url last).line.splitOn sp = burlTokens url last ↔ sp ∉ url
  := by
  have htokens : (burlCommand url last).verb :: (burlCommand url last).args =
      burlTokens url last := by
    cases last <;> rfl
  have hne : burlTokens url last ≠ [] := List.cons_ne_nil _ _
  rw [QueuedCommand.line_eq, htokens, Split.intercalate_iff hne]
  have hburl : sp ∉ ascii "BURL" := by decide
  have hlast : sp ∉ ascii "LAST" := by decide
  cases last <;> simp [burlTokens, hburl, hlast]

/-- The server reads LAST behind the URL. -/
def asksLast (line : Bytes) : Bool :=
  ((line.splitOn sp).drop 2).getLast? == some (ascii "LAST")

theorem asksLast_burl {url : Bytes} (h : sp ∉ url) (last : Bool) :
  asksLast (burlCommand url last).line = last
  := by
  rw [asksLast, (splitOn_burl_iff url last).mpr h]
  cases last <;> rfl

/-! ### Calls -/

/-- The server reads the arguments of the caller, and a connection that stays open is outside of the
transaction exactly if it reads LAST. -/
structure BurlFaithful (url : Bytes) (last : Bool) (line : Bytes) (s s' : Conn φ ω) : Prop where
  tokens : line.splitOn sp = burlTokens url last
  transaction : s'.state ≠ .closed →
    if asksLast line then s'.state = s.transactionBase ∧ s'.recipients = []
    else s'.state = s.state ∧ s'.recipients = s.recipients

/-- The log once a command was written. -/
def sentLog (c : QueuedCommand) (s : Conn φ ω) : List WireEvent :=
  s.log ++ noted c.completes ++ [.sent c.request 1]

/-- The context is not cancelled when the command has been written, but before its reply is read. -/
def lapses (env : Env φ ω) (c : QueuedCommand) (s : Conn φ ω) : Bool :=
  let w := (env.canceled .before s.log (begun env c s)).2
  let written := env.canceled .after (sentLog c s) (env.write (c.line ++ crlf) w).2
  let reading := env.canceled .before (sentLog c s)
    (env.trace ⟨.sent, traceCommandLine c⟩ written.2)
  !written.1 && reading.1

/-- A command is refused, or written; then the context lapses, or the connection is closed, or the
reply is read. -/
theorem wp_executeLapsing {opts : Options} {env : Env φ ω} {c : QueuedCommand} {s : Conn φ ω}
    {Q : Reply → Conn φ ω → Prop} {E : Option (ClientError φ) → Conn φ ω → Prop}
    (hupper : c.upper = c)
    (hQ : ∀ r replies w, s.replies = .item r :: replies → lapses env c s = false →
      Q r { s with world := w, replies := replies, log := sentLog c s ++ [.reply r] })
    (hunsent : ∀ e s' completes, s'.log = s.log ++ noted completes → E (some e) s')
    (hclosed : ∀ e s' (rs : List Reply), s'.log = sentLog c s ++ rs.map .reply → s'.state = .closed →
      lapses env c s = false → E (some e) s')
    (hlapsed : ∀ e w, lapses env c s = true → E (some e) { s with
      world := w, log := sentLog c s }) :
  wp (executeOne opts env c) Q E s
  := by
  have hrefused (e : ClientError φ) (s' : Conn φ ω) (h : s'.log = s.log) : E (some e) s' :=
    hunsent e s' false (by rw [h, noted, if_neg (by simp), List.append_nil])
  have hread (w : ω) (hw : lapses env c s = (env.canceled .before (sentLog c s) w).1) :
      wp (classified c (read opts env c.verb)) Q E { s with world := w, log := sentLog c s } := by
    rw [classified, wp_mapErr]
    cases hlapses : lapses env c s with
    | true =>
      rw [read, wp_bind, wp_canceled, if_pos (hw.symm.trans hlapses)]
      exact hlapsed _ _ hlapses
    | false =>
      apply wp_readAny
      · intro r replies w hr _
        apply hQ r replies w hr hlapses
      · intro h
        cases (hw.symm.trans hlapses).symm.trans h
      · rintro e w replies log - (rfl | ⟨r, rfl⟩)
        · apply hclosed _ _ [] (List.append_nil _).symm rfl hlapses
        · apply hclosed _ _ [r] rfl rfl hlapses
      · intro e r replies w _ _
        apply hclosed _ _ [r] rfl rfl hlapses
  have hsend : wp (do
      classified c (write env c)
      classified c (read opts env c.verb)) Q E { s with world := begun env c s } := by
    rw [wp_bind, classified, wp_mapErr, write, writeLine, wp_bind, wp_canceled,
      wp_ite]
    refine ⟨fun _ => hrefused _ _ rfl, fun _ => ?_⟩
    rw [wp_bind, encodeCommand, wp_ite]
    constructor
    · intro _
      simp only [wp_pure, wp_bind, wp_canceled, wp_ite, wp_poisoned]
      exact ⟨fun _ => hrefused _ _ rfl, fun _ => hrefused _ _ rfl⟩
    · intro _
      rw [wp_bind, wp_noteCompleting, wp_bind, wp_outside]
      split
      · simp only [wp_pure, wp_bind, wp_canceled, wp_ite, wp_poisoned]
        exact ⟨fun _ => hunsent _ _ _ rfl, fun _ => hunsent _ _ _ rfl⟩
      · simp only [wp_pure, wp_bind, wp_record, wp_canceled, wp_ite, wp_poisoned,
          wp_trace]
        constructor
        · intro hafter
          apply hclosed _ _ [] (List.append_nil _).symm rfl
          simp only [lapses, sentLog, QueuedCommand.request, hafter]
          rfl
        · intro hafter
          apply hread
          simp only [lapses, sentLog, QueuedCommand.request, Bool.eq_false_iff.mpr hafter]
          rfl
  rw [executeOne_eq, hupper, wp_bind, wp_read, wp_ite]
  refine ⟨fun _ => hrefused _ s rfl, fun _ => ?_⟩
  rw [wp_ite]
  refine ⟨fun _ => hrefused _ s rfl, fun _ => ?_⟩
  rw [wp_bind, checkCompletes, wp_ite]
  constructor
  · intro hcompletes
    rw [wp_bind, wp_canceled, wp_ite]
    refine ⟨fun _ => hrefused _ _ rfl, fun _ => ?_⟩
    rw [begun, if_pos hcompletes] at hsend
    exact hsend
  · intro hcompletes
    rw [begun, if_neg hcompletes] at hsend
    exact hsend

section

variable {env : Env φ ω} {url : Bytes} {last : Bool} {s s' : Conn φ ω}

/-- The condition under which BURL does what it should. -/
def BurlIntact (env : Env φ ω) (url : Bytes) (last : Bool) (s : Conn φ ω) : Prop :=
  sp ∉ url ∧ (last = true → lapses env (burlCommand url last) s = false)

/-- A call from `s` to `s'` that sent a line is as it should be exactly under the condition. -/
def BurlSettled (env : Env φ ω) (url : Bytes) (last : Bool) (s s' : Conn φ ω) : Prop :=
  ∀ new line kind n, s'.log = s.log ++ new → .sent (.line line kind) n ∈ new →
    (BurlFaithful url last line s s' ↔ BurlIntact env url last s)

theorem BurlSettled.unsent (completes : Bool) (h : s'.log = s.log ++ noted completes) :
  BurlSettled env url last s s'
  := by
  intro new line kind n hlog hsent
  rw [List.append_cancel_left (h.symm.trans hlog).symm, noted] at hsent
  split at hsent <;> simp at hsent

theorem BurlSettled.sent (rs : List Reply)
    (h : s'.log = sentLog (burlCommand url last) s ++ rs.map .reply)
    (hfaithful : BurlFaithful url last (burlCommand url last).line s s' ↔ BurlIntact env url last s) :
  BurlSettled env url last s s'
  := by
  intro new line kind n hlog hsent
  have hnew : new = noted last ++ [.sent (burlCommand url last).request 1] ++ rs.map .reply := by
    rw [h, sentLog, List.append_assoc, List.append_assoc] at hlog
    rw [List.append_assoc]
    exact (List.append_cancel_left hlog).symm
  have hline : line = (burlCommand url last).line := by
    have hsent : .line line kind = (burlCommand url last).request ∧ n = 1 := by
      rw [hnew, noted] at hsent
      split at hsent <;> simpa using hsent
    exact (Request.line.inj hsent.1).1
  rw [hline]
  exact hfaithful

theorem BurlSettled.closed (rs : List Reply)
    (h : s'.log = sentLog (burlCommand url last) s ++ rs.map .reply) (hstate : s'.state = .closed)
    (hlapses : lapses env (burlCommand url last) s = false) :
  BurlSettled env url last s s'
  := by
  apply BurlSettled.sent rs h
  constructor
  · intro hfaithful
    exact ⟨(splitOn_burl_iff url last).mp hfaithful.tokens, fun _ => hlapses⟩
  · intro hintact
    exact ⟨(splitOn_burl_iff url last).mpr hintact.1, fun hopen => absurd hstate hopen⟩

theorem BurlSettled.answered (rs : List Reply)
    (h : s'.log = sentLog (burlCommand url last) s ++ rs.map .reply)
    (hended : if last then s'.state = s.transactionBase ∧ s'.recipients = []
      else s'.state = s.state ∧ s'.recipients = s.recipients)
    (hlapses : lapses env (burlCommand url last) s = false) :
  BurlSettled env url last s s'
  := by
  apply BurlSettled.sent rs h
  constructor
  · intro hfaithful
    exact ⟨(splitOn_burl_iff url last).mp hfaithful.tokens, fun _ => hlapses⟩
  · intro hintact
    refine ⟨(splitOn_burl_iff url last).mpr hintact.1, fun _ => ?_⟩
    rw [asksLast_burl hintact.1]
    exact hended

theorem BurlSettled.lapsed (h : s'.log = sentLog (burlCommand url last) s)
    (hstate : s'.state = s.state) (hrecipients : s'.recipients = s.recipients)
    (hopen : s.state ≠ .closed) (hne : s.recipients ≠ [])
    (hlapses : lapses env (burlCommand url last) s = true) :
  BurlSettled env url last s s'
  := by
  apply BurlSettled.sent [] (by rw [h, List.map_nil, List.append_nil])
  constructor
  · intro hfaithful
    have hsp := (splitOn_burl_iff url last).mp hfaithful.tokens
    refine ⟨hsp, fun hlast => ?_⟩
    have htransaction := hfaithful.transaction (by rwa [hstate])
    rw [asksLast_burl hsp, hlast, if_pos rfl, hrecipients] at htransaction
    exact absurd htransaction.2 hne
  · intro hintact
    refine ⟨(splitOn_burl_iff url last).mpr hintact.1, fun _ => ?_⟩
    have hlast : last = false := by
      rw [← Bool.not_eq_true]
      intro hlast
      rw [hintact.2 hlast] at hlapses
      cases hlapses
    rw [asksLast_burl hintact.1, hlast]
    exact ⟨hstate, hrecipients⟩

theorem burlSettled_burl (opts : Options) (env : Env φ ω) (url : Bytes) (last : Bool)
    (s : Conn φ ω) :
  wp (burl opts env url last) (fun _ => BurlSettled env url last s)
    (fun _ => BurlSettled env url last s) s
  := by
  have hsame {s' : Conn φ ω} (h : s'.log = s.log) : BurlSettled env url last s s' :=
    BurlSettled.unsent false (by rw [h, noted, if_neg (by simp), List.append_nil])
  rw [burl, returning, wp_bind, wp_attempt, wp_bind, wp_read, wp_ite]
  refine ⟨fun _ => hsame rfl, fun _ => ?_⟩
  rw [wp_ite]
  refine ⟨fun _ => hsame rfl, fun _ => ?_⟩
  rw [wp_ite]
  refine ⟨fun _ => hsame rfl, fun _ => ?_⟩
  rw [wp_ite]
  refine ⟨fun _ => hsame rfl, fun hrecipients => ?_⟩
  have hne : s.recipients ≠ [] := by simpa using hrecipients
  rw [wp_bind]
  refine wp_requireState (fun hstate => ?_) fun _ => hsame rfl
  have hopen : s.state ≠ .closed := by
    intro hclosed
    rw [hclosed] at hstate
    simp at hstate
  rw [wp_bind]
  apply wp_executeLapsing (upper_burlCommand url last)
  · intro r replies w _ hlapses
    cases last with
    | true =>
      rw [if_pos rfl, wp_bind, wp_unlessClosed, if_neg (by simpa [Conn.closed] using hopen)]
      have hended (s' : Conn φ ω) (hlog : s'.log = sentLog (burlCommand url true) s ++ [.reply r])
          (hstate : s'.state = s.transactionBase) (hnil : s'.recipients = []) :
          BurlSettled env url true s s' := .answered [r] hlog ⟨hstate, hnil⟩ hlapses
      apply wp_sharedResult
      · exact fun _ => hended _ rfl rfl rfl
      · exact fun _ _ _ => hended _ rfl rfl rfl
    | false =>
      rw [if_neg (by simp), wp_bind]
      have hkept (s' : Conn φ ω) (hlog : s'.log = sentLog (burlCommand url false) s ++ [.reply r])
          (hstate : s'.state = s.state) (hsame : s'.recipients = s.recipients) :
          BurlSettled env url false s s' := .answered [r] hlog ⟨hstate, hsame⟩ hlapses
      apply wp_expectReply
      · exact fun _ => hkept _ rfl rfl rfl
      · exact fun _ _ _ => hkept _ rfl rfl rfl
  · exact fun _ _ completes hlog => .unsent completes hlog
  · exact fun _ _ rs hlog hstate hlapses => .closed rs hlog hstate hlapses
  · exact fun _ _ hlapses => .lapsed rfl rfl rfl hopen hne hlapses

end

/-- A line that `Client.BURL` sends has the URL, and LAST if the caller asked for it, as its only
arguments, and the client leaves its transaction exactly if it sent LAST, if and only if there is no
space in the URL, and the context does not lapse between the write of LAST and the read of its
reply. -/
theorem burl_faithful_iff (opts : Options) (env : Env φ ω) (url : Bytes) (last : Bool) (s : Conn φ ω)
    {new : List WireEvent} {line : Bytes} {kind : LineKind} {n : Nat}
    (hlog : (burl opts env url last s).2.log = s.log ++ new)
    (hsent : .sent (.line line kind) n ∈ new) :
  BurlFaithful url last line s (burl opts env url last s).2 ↔
    sp ∉ url ∧ (last = true → lapses env (burlCommand url last) s = false)
  := by
  have hsettled : BurlSettled env url last s (burl opts env url last s).2 :=
    wp_elim (P := fun x => BurlSettled env url last s x.2) (burlSettled_burl opts env url last s)
      (fun _ _ => id) (fun _ _ => id) fun _ => id
  exact hsettled new line kind n hlog hsent

/-- A connection inside of a transaction, on which the peer offers BURL and accepts it. -/
def burlConn : Conn Empty Unit :=
  .scripted .transaction ["BURL"] [ascii "a@b"] [(250, "ok")] ()

theorem burl_faithful_last :
  let s' := (burl (.plain false) Env.plain (ascii "u") true burlConn).2
  BurlFaithful (ascii "u") true (ascii "BURL u LAST") burlConn s'
  := by
  intro s'
  have hlog : s'.log = burlConn.log ++ [.completing, .sent (.line (ascii "BURL u LAST") .plain) 1,
      .reply ⟨250, ascii "ok", [ascii "ok"]⟩] := by decide +kernel
  apply (burl_faithful_iff _ _ _ _ _ hlog (List.mem_cons_of_mem _ List.mem_cons_self)).mpr
  exact ⟨by decide, fun _ => rfl⟩

/-- A URL with a space makes a line that asks for LAST where the caller did not. -/
theorem burl_smuggles_last :
  let s' := (burl (.plain false) Env.plain (ascii "u LAST") false burlConn).2
  .sent (.line (ascii "BURL u LAST") .plain) 1 ∈ s'.log ∧ asksLast (ascii "BURL u LAST") = true ∧
    s'.state = .transaction ∧
    ¬ BurlFaithful (ascii "u LAST") false (ascii "BURL u LAST") burlConn s'
  := by
  refine ⟨by decide +kernel, by decide, by decide +kernel, fun h => ?_⟩
  have htokens := h.tokens
  revert htokens
  decide

end GoSmtp.Client
