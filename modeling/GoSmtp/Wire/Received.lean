import GoSmtp.Wire.Path

/-!
# Trace fields

The Received field that a server puts in front of a message (`internal/smtpwire/received.go`).  The
protocol that it names follows from what is known of the session.
-/

namespace GoSmtp

open Octet

inductive ReceivedError where
  | invalidField
  | impossibleState
  deriving DecidableEq, Repr

/-- `ReceivedOptions`.  The timestamp is the text that it is formatted as, unless it is zero. -/
structure ReceivedOptions where
  fromName : Bytes
  byName : Bytes
  extended : Bool
  lmtp : Bool
  tls : Bool
  authenticated : Bool
  id : Bytes := []
  forPath : Bytes := []
  recipientCount : Int
  timestamp : Option Bytes
  deriving DecidableEq, Repr

def receivedProtocol (opts : ReceivedOptions) : Except ReceivedError Bytes :=
  if opts.lmtp then
    if opts.tls && opts.authenticated then .ok (ascii "LMTPSA")
    else if opts.tls then .ok (ascii "LMTPS")
    else if opts.authenticated then .ok (ascii "LMTPA")
    else .ok (ascii "LMTP")
  else if !opts.extended then
    if opts.tls || opts.authenticated then .error .impossibleState else .ok (ascii "SMTP")
  else if opts.tls && opts.authenticated then .ok (ascii "ESMTPSA")
  else if opts.tls then .ok (ascii "ESMTPS")
  else if opts.authenticated then .ok (ascii "ESMTPA")
  else .ok (ascii "ESMTP")

/-- The octets that no part of the field may have. -/
def breaksField (c : UInt8) : Bool := c == cr || c == lf || c == 0

/-- The clause about the recipient, if there is exactly one. -/
def forClause (opts : ReceivedOptions) : Except ReceivedError Bytes :=
  if opts.recipientCount = 1 ∧ !opts.forPath.isEmpty then
    if opts.forPath.head? != some langle || opts.forPath.getLast? != some rangle then
      .error .invalidField
    else .ok (ascii " for " ++ opts.forPath)
  else .ok []

def formatReceived (opts : ReceivedOptions) : Except ReceivedError Bytes :=
  match opts.timestamp with
  | none => .error .invalidField
  | some timestamp =>
    if opts.fromName.isEmpty || opts.byName.isEmpty || opts.recipientCount < 0 then
      .error .invalidField
    else if [opts.fromName, opts.byName, opts.id, opts.forPath].any (·.any breaksField) then
      .error .invalidField
    else do
      let keyword ← receivedProtocol opts
      let recipient ← forClause opts
      .ok (ascii "Received: from " ++ opts.fromName ++ ascii " by " ++ opts.byName ++
        ascii " with " ++ keyword ++
        ((if opts.id.isEmpty then [] else ascii " id " ++ opts.id) ++ recipient ++ ascii "; " ++
          timestamp) ++ crlf)

/-! ### What the field looks like -/

/-- The keywords of extended SMTP, with or without TLS and authentication. -/
def esmtpKeywords : List Bytes := [ascii "ESMTP", ascii "ESMTPS", ascii "ESMTPA", ascii "ESMTPSA"]

/-- Text without control characters. -/
def Clean (w : Bytes) : Prop := ∀ c ∈ w, isControl c = false

theorem Clean.append {v w : Bytes} (hv : Clean v) (hw : Clean w) :
  Clean (v ++ w)
  := by
  intro c hc
  rcases List.mem_append.mp hc with hc | hc
  · exact hv c hc
  · exact hw c hc

theorem Clean.bracketed {w : Bytes} (h : Clean w) :
  Clean (langle :: w ++ [rangle])
  := by
  intro c hc
  rcases List.mem_cons.mp hc with rfl | hc
  · rfl
  · rcases List.mem_append.mp hc with hc | hc
    · exact h c hc
    · rw [List.mem_singleton.mp hc]
      rfl

theorem Clean.any_breaksField {w : Bytes} (h : Clean w) :
  w.any breaksField = false
  := by
  rw [List.any_eq_false]
  intro c hc hbreaks
  have hc := h c hc
  simp only [breaksField, Bool.or_eq_true, beq_iff_eq] at hbreaks
  rcases hbreaks with (rfl | rfl) | rfl <;> cases hc

theorem receivedProtocol_cases (opts : ReceivedOptions)
    (h : opts.extended = true ∨ opts.tls = false ∧ opts.authenticated = false) :
  ∃ keyword, receivedProtocol opts = .ok keyword ∧ Clean keyword ∧
    (keyword ∈ esmtpKeywords ∨ opts.lmtp = true ∨
      opts.extended = false ∧ opts.tls = false ∧ opts.authenticated = false)
  := by
  obtain ⟨_, _, extended, lmtp, tls, authenticated, _, _, _, _⟩ := opts
  cases lmtp with
  | true =>
    cases tls <;> cases authenticated <;>
      exact ⟨_, rfl, by unfold Clean; decide, .inr (.inl rfl)⟩
  | false =>
    cases extended with
    | true =>
      cases tls <;> cases authenticated <;>
        exact ⟨_, rfl, by unfold Clean; decide, .inl (by decide)⟩
    | false =>
      rcases h with h | ⟨rfl, rfl⟩
      · cases h
      · exact ⟨_, rfl, by unfold Clean; decide, .inr (.inr ⟨rfl, rfl, rfl⟩)⟩

theorem forClause_angle (opts : ReceivedOptions) {recipient : Bytes}
    (hpath : opts.forPath = langle :: recipient ++ [rangle]) (hrecipient : Clean recipient) :
  ∃ clause, forClause opts = .ok clause ∧ Clean clause
  := by
  by_cases hcount : opts.recipientCount = 1
  · refine ⟨ascii " for " ++ opts.forPath, ?_, ?_⟩
    · have hlast : (langle :: (recipient ++ [rangle])).getLast? = some rangle := by
        rw [← List.cons_append, List.getLast?_concat]
      simp [forClause, hcount, hpath, hlast]
    · rw [hpath]
      apply Clean.append
      · unfold Clean
        decide
      · exact hrecipient.bracketed
  · exact ⟨[], by simp [forClause, hcount], by simp [Clean]⟩

theorem formatReceived_line (opts : ReceivedOptions) {recipient timestamp : Bytes}
    (htime : opts.timestamp = some timestamp) (hclock : Clean timestamp)
    (hfrom : opts.fromName ≠ []) (hcleanFrom : Clean opts.fromName) (hby : opts.byName ≠ [])
    (hcleanBy : Clean opts.byName) (hid : opts.id = []) (hcount : 0 ≤ opts.recipientCount)
    (hpath : opts.forPath = langle :: recipient ++ [rangle]) (hrecipient : Clean recipient)
    (hstate : opts.extended = true ∨ opts.tls = false ∧ opts.authenticated = false) :
  ∃ keyword tail,
    formatReceived opts =
      .ok (ascii "Received: from " ++ opts.fromName ++ ascii " by " ++ opts.byName ++
        ascii " with " ++ keyword ++ tail ++ crlf) ∧
    Clean (ascii "Received: from " ++ opts.fromName ++ ascii " by " ++ opts.byName ++
      ascii " with " ++ keyword ++ tail) ∧
    (keyword ∈ esmtpKeywords ∨ opts.lmtp = true ∨
      opts.extended = false ∧ opts.tls = false ∧ opts.authenticated = false)
  := by
  obtain ⟨keyword, hprotocol, hkeyword, hclass⟩ := receivedProtocol_cases opts hstate
  obtain ⟨clause, hclause, hcleanClause⟩ := forClause_angle opts hpath hrecipient
  have hcleanPath : Clean opts.forPath := hpath ▸ hrecipient.bracketed
  have hbreaks :
      [opts.fromName, opts.byName, opts.id, opts.forPath].any (·.any breaksField) = false := by
    simp [hcleanFrom.any_breaksField, hcleanBy.any_breaksField, hcleanPath.any_breaksField, hid]
  refine ⟨keyword, clause ++ ascii "; " ++ timestamp, ?_, ?_, hclass⟩
  · have hfields :
        (opts.fromName.isEmpty || opts.byName.isEmpty || decide (opts.recipientCount < 0)) =
          false := by
      simpa [hfrom, hby] using hcount
    rw [formatReceived, htime]
    simp only [hfields, hbreaks, Bool.false_eq_true, if_false, hprotocol, hclause]
    rw [hid]
    rfl
  · have hascii : ∀ text ∈ [ascii "Received: from ", ascii " by ", ascii " with ", ascii "; "],
        Clean text := by
      unfold Clean
      decide
    simp only [List.forall_mem_cons] at hascii
    exact (((((hascii.1.append hcleanFrom).append hascii.2.1).append hcleanBy).append
      hascii.2.2.1).append hkeyword).append ((hcleanClause.append hascii.2.2.2.1).append hclock)

end GoSmtp
