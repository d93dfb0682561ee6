import GoSmtp.Server.Answers

/-!
# The replies to LMTP content

In LMTP, every recipient of a message gets a reply of its own.  Content that is evaluated is
answered so, and a session that fails on the way is silent.  A final chunk that the server cannot
store, or does not take at all, gets one reply only; this is enough for one recipient.
-/

namespace GoSmtp.Server.Session

variable {φ ω : Type}

/-- There is one reply for each recipient, in their order. -/
def OneEach (recipients : List Bytes) (rs : List WireReply) : Prop :=
  ∃ results : DataResult, results.map (·.recipient) = recipients ∧ rs = results.map resultReply

/-- Since `before` was said, each recipient got its reply; or none of them, and the session is
over. -/
def Answered (recipients : List Bytes) (before : List WireReply)
    (x : Outcome (SessionError φ) Bool × Session φ ω) : Prop :=
  (∃ rs, x.2.said = before ++ rs ∧ OneEach recipients rs) ∨ x.1 ≠ .ok true ∧ x.2.said = before

/-- If there is more than one recipient, the server takes the final chunk and can read the
message back. -/
def Answerable (cfg : Config) (env : Env φ ω) (n : Nat) (s : Session φ ω) : Prop :=
  2 ≤ s.recipients.length → n ≤ maxInt64 ∧ s.extended = true ∧ cfg.chunking = true ∧
    s.state.phase ≠ .failedBDAT ∧ ∀ v, (stores env n s).1 = .ok v → v = (true, true)

theorem Reported.oneEach {env : Env φ ω} {recipients : List Bytes} {before : List WireReply}
    {results : DataResult} {s : Session φ ω} (h : Reported env before results s)
    (henv : env.Reliable) (hfits : Fits .lmtp recipients results) :
  ∃ rs, s.said = before ++ rs ∧ OneEach recipients rs
  := by
  obtain ⟨k, hsaid, hall⟩ := h
  rw [List.take_of_length_le (hall henv)] at hsaid
  exact ⟨_, hsaid, results, hfits.2 rfl, rfl⟩

theorem oneEach_refusal {r : WireReply} (hr : r.refuses = true) (recipient : Bytes) :
  OneEach [recipient] [r]
  := by
  obtain ⟨⟨⟨⟨⟨hfrom, hto⟩, hclass⟩, htext⟩, hlines⟩, hcontext⟩ : ((((400 ≤ r.code ∧ r.code < 600) ∧
      r.enhanced.cls = r.code.tdiv 100) ∧ r.text ≠ []) ∧ r.lines = []) ∧ r.context = .command := by
    simpa [WireReply.refuses] using hr
  refine ⟨[⟨recipient, [], r.code, r.enhanced, r.text⟩], rfl, ?_⟩
  obtain ⟨code, enhanced, text, lines, context⟩ := r
  simp_all [resultReply, RecipientResult.normalize, EnhancedCode.normalize]

section Turns

variable {cfg : Config} {env : Env φ ω} {tls : Bool} {c : Command} {rest : Feed UInt8 φ}
  {s : Session φ ω} (henv : env.Reliable) (hmode : s.state.mode = .lmtp)
include henv hmode

theorem answered_lastChunk (h : s.facts.Steady cfg tls) (hrcpt : s.recipients ≠ [])
    (hread : readCommand s.feed = (.ok c, rest)) {n : Nat} (hverb : Verb.ofSpelling c.verb = .bdat)
    (hsize : announced c.argument = some (n, true))
    (hanswerable : Answerable cfg env n (s.receiving env c rest)) :
  Answered s.recipients s.said (turn cfg env s)
  := by
  have hphase : s.state.phase ∈ [.ready, .mail, .recipients, .failedBDAT] := by
    have halive : s.state.phase ≠ .closed := h.alive
    have hcleared : s.state.phase ∉ [.connected, .ready, .mail] :=
      fun hphase => hrcpt (h.coherent.cleared hphase)
    revert halive hcleared
    cases s.state.phase <;> simp
  have hstores : wp (stores env n) (fun v _ => Allows True (s.recipients.length < 2) v)
      (fun _ _ => True) (s.receiving env c rest) := by
    simp only [wp]
    rcases hrun : stores env n (s.receiving env c rest) with ⟨v | e | _, s'⟩
    · refine ⟨fun _ => trivial, fun hv => ?_⟩
      by_contra hmany
      obtain ⟨-, -, -, -, hstored⟩ := hanswerable (Nat.le_of_not_lt hmany)
      exact hv (hstored v (by rw [hrun]))
    · trivial
    · trivial
  have hable (hmany : ¬ s.recipients.length < 2) :
      s.state.phase ∈ [.ready, .mail, .recipients, .failedBDAT] ∧ s.recipients ≠ [] ∧
      n ≤ maxInt64 ∧ s.extended = true ∧ cfg.chunking = true ∧ s.state.phase ≠ .failedBDAT := by
    obtain ⟨hn, hextended, hchunking, hfailed, -⟩ := hanswerable (Nat.le_of_not_lt hmany)
    exact ⟨hphase, hrcpt, hn, hextended, hchunking, hfailed⟩
  have hconcluded (o : Outcome (SessionError φ) Bool) (s' : Session φ ω)
      (hs' : Concluded env True (s.recipients.length < 2) s s') :
      Answered s.recipients s.said (o, s') := by
    rcases hs' with ⟨-, results, hfits, hreported⟩ | ⟨hfew, r, hr, hsaid⟩
    · rw [hmode] at hfits
      exact .inl (hreported.oneEach henv hfits)
    · obtain ⟨recipient, hsingle⟩ : ∃ recipient, s.recipients = [recipient] := by
        have hpos := List.length_pos_iff.mpr hrcpt
        exact List.length_eq_one_iff.mp (by omega)
      rw [hsingle]
      exact .inl ⟨[r], hsaid, oneEach_refusal hr recipient⟩
  apply wp_elim (wp_turn_lastChunk hread hverb hsize hable fun _ _ _ => hstores)
  · rintro on s' (hs' | ⟨rfl, hsaid⟩)
    · exact hconcluded _ s' hs'
    · exact .inr ⟨by simp, hsaid⟩
  · rintro e s' (hs' | hsaid)
    · exact hconcluded _ s' hs'
    · exact .inr ⟨by simp, hsaid⟩
  · rintro s' (hs' | hsaid)
    · exact hconcluded _ s' hs'
    · exact .inr ⟨by simp, hsaid⟩

theorem answered_data (hread : readCommand s.feed = (.ok c, rest))
    (hverb : Verb.ofSpelling c.verb = .data) {go : WireReply} {rs : List WireReply}
    (hsaid : (turn cfg env s).2.said = s.said ++ go :: rs) (hgo : go.code = 354) :
  Answered s.recipients (s.said ++ [go]) (turn cfg env s)
  := by
  have hanswered (ended : Prop) (x : Outcome (SessionError φ) Bool × Session φ ω)
      (h : AnsweredData cfg env ended (s.receiving env c rest) x.2) (hover : ended → x.1 ≠ .ok true)
      (hsaid : x.2.said = s.said ++ go :: rs) : Answered s.recipients (s.said ++ [go]) x := by
    rw [AnsweredData, said_receiving, hsaid] at h
    rcases h with ⟨r, hr, heq⟩ | ⟨-, heq⟩ | ⟨go', -, ⟨ho, heq⟩ | ⟨results, hfits, h, -⟩⟩
    · obtain ⟨rfl, -⟩ := by simpa using heq
      simp [WireReply.refuses, hgo] at hr
    · simp at heq
    · obtain ⟨rfl, rfl⟩ := by simpa using heq
      exact .inr ⟨hover ho, hsaid⟩
    · rw [show (s.receiving env c rest).state.mode = .lmtp from hmode] at hfits
      obtain ⟨rs', heq, hone⟩ := h.oneEach henv hfits
      rw [hsaid] at heq
      obtain ⟨rfl, rfl⟩ := by simpa using heq
      exact .inl ⟨rs, by simp [hsaid], hone⟩
  revert hsaid
  apply wp_elim (wp_turn_data hread hverb)
    (P := fun x => x.2.said = s.said ++ go :: rs → Answered s.recipients (s.said ++ [go]) x)
  · exact fun on s' h => hanswered _ _ h (by rintro rfl; simp)
  · exact fun e s' h => hanswered _ _ h (by simp)
  · exact fun s' h => hanswered _ _ h (by simp)

end Turns

/-- A LMTP server for two recipients. -/
def lmtp : Config := { Config.small 7 seven_lt with mode := .lmtp, maxRcpt := 2 }

/-- The session of two recipients, before the chunk in `lines`. -/
def addressed (lines : List String) : Session Empty Unit × Bool :=
  after lmtp Env.plain .plain SpoolManager.small false
    (script (["LHLO a", "MAIL FROM:<>", "RCPT TO:<c>", "RCPT TO:<d>"] ++ lines)) () 4

end GoSmtp.Server.Session
