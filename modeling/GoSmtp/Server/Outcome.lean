import GoSmtp.Server.Commands

/-!
# Outcomes of messages

The evaluation of a message that is completed is the one of an authoritative outcome of the
backend.
-/

namespace GoSmtp.Server.Session

variable {φ ω : Type}
variable {recipients : List Bytes} {mode : ListenerMode} {result : DataResult} {σ : Type}
  {command : Bytes} {fuel : Nat} {call : DataCall φ ω} {evaluation : DataEvaluation φ} {w : ω}

theorem misnamed_eq_none (hlength : result.length = recipients.length) :
  misnamed result recipients = none ↔ result.map (·.recipient) = recipients
  := by
  rw [misnamed, List.findIdx?_eq_none_iff]
  induction result generalizing recipients with
  | nil => cases recipients <;> simp at hlength ⊢
  | cons r rs ih =>
    cases recipients with
    | nil => simp at hlength
    | cons n ns =>
      have htail := ih (Nat.succ.inj hlength)
      simp only [List.zip_cons_cons, List.forall_mem_cons, List.map_cons, List.cons.injEq, htail]
      simp

/-- The outcome stands exactly if it is authoritative for content that was read, and then the
results are those of the backend. -/
theorem completed_validateDataOutcome (mode : ListenerMode) (recipients : List Bytes)
    (command : Bytes) (result : DataResult) (err : Option BackendError) :
  (validateDataOutcome mode recipients command result err : DataEvaluation φ).completed
      = authoritative mode recipients true (some (result, err)) ∧
    ((validateDataOutcome mode recipients command result err : DataEvaluation φ).completed = true →
      (validateDataOutcome mode recipients command result err : DataEvaluation φ).result
        = result.map fun r => r.normalize.1)
  := by
  by_cases hempty : recipients.isEmpty = true
  · cases err <;> simp [validateDataOutcome, authoritative, invalidDataOutcome, hempty]
  · cases err with
    | some e =>
      by_cases hresult : result.isEmpty = true <;>
        simp [validateDataOutcome, authoritative, invalidDataOutcome, hempty, hresult]
    | none =>
      by_cases hlength : result.length = resultCount mode recipients
      · cases mode with
        | smtp => simp [validateDataOutcome, authoritative, hempty, hlength]
        | lmtp =>
          have hnames := misnamed_eq_none hlength
          rcases hmisnamed : misnamed result recipients with _ | i
          · simp [validateDataOutcome, authoritative, hempty, hlength, hmisnamed,
              hnames.mp hmisnamed]
          · have hne : result.map (·.recipient) ≠ recipients := by
              intro heq
              simp [hnames.mpr heq] at hmisnamed
            simp [validateDataOutcome, authoritative, invalidDataOutcome, hempty, hlength,
              hmisnamed, hne]
      · simp [validateDataOutcome, authoritative, invalidDataOutcome, hempty, hlength]

theorem completed_replaceEarly (mode : ListenerMode) (recipients : List Bytes) (command : Bytes)
    (result : DataResult) (err : Option BackendError) :
  (replaceEarly (validateDataOutcome mode recipients command result err) :
      DataEvaluation φ).completed = authoritative mode recipients false (some (result, err))
  := by
  obtain ⟨hcompleted, hresult⟩ : (validateDataOutcome mode recipients command result err :
      DataEvaluation φ).completed = _ ∧ _ := completed_validateDataOutcome ..
  have hearly : authoritative mode recipients false (some (result, err))
      = (authoritative mode recipients true (some (result, err)) &&
        !result.any (·.normalize.1.accepted)) := by
    cases err <;> simp [authoritative, Bool.and_assoc]
  rw [hearly, ← hcompleted]
  cases hc : (validateDataOutcome mode recipients command result err :
      DataEvaluation φ).completed with
  | false =>
    rw [replaceEarly]
    split <;> simp [hc]
  | true =>
    rw [replaceEarly, hresult hc]
    simp only [List.any_map]
    split
    · next hany =>
      simpa [Function.comp_def] using hany
    · next hany =>
      simpa [Function.comp_def, hc] using hany

theorem completed_evaluateDataCall {r : Reader σ UInt8 (ContentError φ)}
    {t t' : TrackedDataReader σ}
    (h : evaluateDataCall mode recipients command r fuel call t = (some evaluation, w, t'))
    (hclose : evaluation.closeConnection = false) :
  evaluation.completed = authoritative mode recipients (call.run (tracked r) t).2.2.exhausted
    (call.run (tracked r) t).1
  := by
  rw [evaluateDataCall.eq_def] at h
  rcases hrun : call.run (tracked r) t with ⟨_ | ⟨result, err⟩, w', t''⟩ <;> rw [hrun] at h
  · cases h
  · simp only at h ⊢
    split at h
    · next hexhausted =>
      cases h
      rw [(completed_validateDataOutcome ..).1, hexhausted]
    · next hexhausted =>
      split at h
      · cases h
      · cases h
        cases hclose
      · cases h
        rw [completed_replaceEarly, Bool.eq_false_iff.mpr hexhausted]

/-! ### The names of results -/

/-- There is a result for every reply, in LMTP under the name of its recipient. -/
def Fits (mode : ListenerMode) (recipients : List Bytes) (result : DataResult) : Prop :=
  result.length = resultCount mode recipients ∧
    (mode = .lmtp → result.map (·.recipient) = recipients)

theorem fits_uniformResult (mode : ListenerMode) (recipients : List Bytes) (command : Bytes)
    (code : Int) (enhanced : EnhancedCode) (text : Bytes) :
  Fits mode recipients (uniformResult mode recipients command code enhanced text)
  := by
  constructor
  · simp [uniformResult]
  · rintro rfl
    apply List.ext_getElem
    · simp [uniformResult, resultCount]
    · intro i hi hi'
      simp [uniformResult, resultRecipient, hi']

theorem Fits.map (h : Fits mode recipients result) {f : RecipientResult → RecipientResult}
    (hf : ∀ r, (f r).recipient = r.recipient) :
  Fits mode recipients (result.map f)
  := by
  constructor
  · rw [List.length_map]
    exact h.1
  · intro hmode
    rw [List.map_map, ← h.2 hmode]
    simp [Function.comp_def, hf]

theorem fits_validateDataOutcome (mode : ListenerMode) (recipients : List Bytes)
    (command : Bytes) (result : DataResult) (err : Option BackendError) :
  Fits mode recipients
    (validateDataOutcome mode recipients command result err : DataEvaluation φ).result
  := by
  have htemporary : Fits mode recipients (temporaryDataResult mode recipients command) :=
    fits_uniformResult ..
  rw [validateDataOutcome.eq_def]
  split
  · exact htemporary
  · split
    · split
      · exact htemporary
      · exact htemporary
    · split
      · exact htemporary
      · next hlength =>
        split
        · exact htemporary
        · next hnamed =>
          refine Fits.map ⟨not_not.mp hlength, ?_⟩ fun r => ?_
          · rintro rfl
            apply (misnamed_eq_none (not_not.mp hlength)).mp
            rcases hm : misnamed result recipients with _ | i
            · rfl
            · exact (hnamed i rfl hm).elim
          · rfl

theorem fits_evaluateDataCall {r : Reader σ UInt8 (ContentError φ)} {t t' : TrackedDataReader σ}
    (h : evaluateDataCall mode recipients command r fuel call t = (some evaluation, w, t'))
    (hclose : evaluation.closeConnection = false) :
  Fits mode recipients evaluation.result
  := by
  rw [evaluateDataCall.eq_def] at h
  rcases hrun : call.run (tracked r) t with ⟨_ | ⟨result, err⟩, w', t''⟩ <;> rw [hrun] at h
  · cases h
  · simp only at h
    split at h
    · cases h
      exact fits_validateDataOutcome ..
    · split at h
      · cases h
      · cases h
        cases hclose
      · cases h
        rw [replaceEarly]
        split
        · apply (fits_validateDataOutcome ..).map
          intro r
          split <;> rfl
        · exact fits_validateDataOutcome ..

end GoSmtp.Server.Session
