import GoSmtp.Server.Outcome

/-!
# The rule of outcomes

What becomes of a message is decided by four things: whether the backend has read the content to
its end, whether the rest could be drained, the results it returned, and the error.
-/

namespace GoSmtp.Server

variable {σ φ ω : Type}
variable {r : Reader σ UInt8 (ContentError φ)} {s s' : σ} {recipients : List Bytes}

/-! ### The end of the content -/

/-- What the reads of the backend return, in order. -/
def DataCall.seen (r : Reader σ UInt8 (ContentError φ)) :
    DataCall φ ω → σ → List (ReadResult UInt8 (ContentError φ))
  | .ret .., _ | .panic _, _ => []
  | .read n _ k, s =>
    match r.read n s with
    | (⟨w, some .outOfRange⟩, _) => [⟨w, some .outOfRange⟩]
    | (x, s) => x :: seen r (k x) s

/-- The backend has read the content to its end. -/
def DataCall.consumes (r : Reader σ UInt8 (ContentError φ)) (call : DataCall φ ω) (s : σ) : Bool :=
  (call.seen r s).any (·.err.any (·.isEOF))

theorem exhausted_run (r : Reader σ UInt8 (ContentError φ)) (call : DataCall φ ω)
    (t : TrackedDataReader σ) :
  (call.run (tracked r) t).2.2.exhausted = (t.exhausted || call.consumes (tracked r) t)
  := by
  have hread : ∀ n t, ((tracked r).read n t).2.exhausted
      = (t.exhausted || ((tracked r).read n t).1.err.any (·.isEOF)) := fun _ _ => rfl
  induction call generalizing t with
  | ret | panic => simp [DataCall.run, DataCall.consumes, DataCall.seen]
  | read n world k ih =>
    have hread := hread n t
    rw [DataCall.run, DataCall.consumes, DataCall.seen]
    rcases hx : (tracked r).read n t with ⟨⟨w, _ | e⟩, t'⟩ <;> rw [hx] at hread <;>
      dsimp only at hread
    · apply (ih ⟨w, none⟩ t').trans
      simp [hread, DataCall.consumes]
    · cases e with
      | outOfRange => simpa [ContentError.isEOF] using hread
      | _ =>
        apply (ih _ t').trans
        simp [hread, DataCall.consumes, Bool.or_assoc]

/-- How the content ends that the backend has left: with the end of data, or an error.  Reading is
resumed once after the report that the message is too large. -/
inductive Ends (r : Reader σ UInt8 (ContentError φ)) : σ → Option (ContentError φ) → σ → Prop where
  | clean {s s' : σ} (h : r.Stops discardSize s .eof s') : Ends r s none s'
  | broken {s s' : σ} {e : ContentError φ} (h : r.Stops discardSize s e s')
      (he : e ∉ [.eof, .messageTooLarge, .outOfRange]) : Ends r s (some e) s'
  | resumed {s s₁ s' : σ} (h : r.Stops discardSize s .messageTooLarge s₁)
      (rest : r.Stops discardSize s₁ .eof s') : Ends r s none s'
  | brokenAgain {s s₁ s' : σ} {e : ContentError φ}
      (h : r.Stops discardSize s .messageTooLarge s₁) (rest : r.Stops discardSize s₁ e s')
      (he : e ∉ [.eof, .outOfRange]) : Ends r s (some e) s'

theorem discard_eof (h : r.Stops discardSize s .eof s') :
  ∃ least, ∀ fuel, least ≤ fuel → discard r fuel s = (some none, s')
  := by
  obtain ⟨least, hdrain⟩ := h.drain
  refine ⟨least, fun fuel hfuel => ?_⟩
  rw [discard, hdrain fuel hfuel]

theorem discard_error {e : ContentError φ}
    (h : r.Stops discardSize s e s') (he : e ∉ [.eof, .outOfRange]) :
  ∃ least, ∀ fuel, least ≤ fuel → discard r fuel s = (some (some e), s')
  := by
  obtain ⟨least, hdrain⟩ := h.drain
  refine ⟨least, fun fuel hfuel => ?_⟩
  rw [discard, hdrain fuel hfuel]
  cases e <;> simp at he ⊢

theorem Ends.drainContent {ending : Option (ContentError φ)} (h : Ends r s ending s') :
  ∃ least, ∀ fuel, least ≤ fuel → drainContent r fuel s = (some ending, s')
  := by
  have htooLarge : (.messageTooLarge : ContentError φ) ∉ [.eof, .outOfRange] := by simp
  cases h with
  | clean h =>
    obtain ⟨least, hdiscard⟩ := discard_eof h
    refine ⟨least, fun fuel hfuel => ?_⟩
    rw [GoSmtp.Server.drainContent, hdiscard fuel hfuel]
  | broken h he =>
    simp only [List.mem_cons, List.not_mem_nil, or_false, not_or] at he
    obtain ⟨least, hdiscard⟩ := discard_error h (by simp [he])
    refine ⟨least, fun fuel hfuel => ?_⟩
    rw [GoSmtp.Server.drainContent, hdiscard fuel hfuel]
    split
    · next heq => simp_all
    · rfl
  | resumed h rest =>
    obtain ⟨least, hdiscard⟩ := discard_error h htooLarge
    obtain ⟨least', hdiscard'⟩ := discard_eof rest
    refine ⟨max least least', fun fuel hfuel => ?_⟩
    rw [GoSmtp.Server.drainContent, hdiscard fuel (by omega)]
    exact hdiscard' fuel (by omega)
  | brokenAgain h rest he =>
    obtain ⟨least, hdiscard⟩ := discard_error h htooLarge
    obtain ⟨least', hdiscard'⟩ := discard_error rest he
    refine ⟨max least least', fun fuel hfuel => ?_⟩
    rw [GoSmtp.Server.drainContent, hdiscard fuel (by omega)]
    exact hdiscard' fuel (by omega)

theorem stops_of_discard {fuel : Nat}
    {ending : Option (ContentError φ)} (h : discard r fuel s = (some ending, s')) :
  ∃ e, r.Stops discardSize s e s' ∧ e ≠ .outOfRange ∧ ending = if e.isEOF then none else some e
  := by
  rw [discard] at h
  rcases hdrain : r.drain discardSize fuel s with ⟨_ | e, s₁⟩ <;> rw [hdrain] at h
  · cases h
  · have hstops := Reader.Stops.of_drain hdrain
    cases e <;> cases h <;> exact ⟨_, hstops, by simp, rfl⟩

theorem ends_of_drainContent {fuel : Nat}
    {ending : Option (ContentError φ)} (h : drainContent r fuel s = (some ending, s')) :
  Ends r s ending s'
  := by
  rw [drainContent] at h
  split at h
  · next s₁ hdiscard =>
    obtain ⟨e, hfirst, -, he⟩ := stops_of_discard hdiscard
    obtain ⟨e', hrest, hpanics, rfl⟩ := stops_of_discard h
    obtain rfl : e = .messageTooLarge := by
      cases e <;> simp [ContentError.isEOF] at he ⊢
    cases e' with
    | eof => exact .resumed hfirst hrest
    | outOfRange => exact absurd rfl hpanics
    | _ => exact .brokenAgain hfirst hrest (by simp)
  · next hother =>
    obtain ⟨e, hstops, hpanics, rfl⟩ := stops_of_discard h
    cases e with
    | eof => exact .clean hstops
    | outOfRange => exact absurd rfl hpanics
    | messageTooLarge => exact (hother s' h).elim
    | _ => exact .broken hstops (by simp)

/-! ### The rule -/

namespace Session

/-- The backend has returned no error, and a result for every reply, in LMTP under the name of its
recipient. -/
def Credible (mode : ListenerMode) (recipients : List Bytes) (result : DataResult)
    (err : Option BackendError) : Prop :=
  err = none ∧ Fits mode recipients result

/-- What the evaluation makes of the result and the error that the backend returned, where `ending`
is the error at the end of the content, if any. -/
structure Judged (mode : ListenerMode) (recipients : List Bytes) (consumed : Bool)
    (result : DataResult) (err : Option BackendError) (ending : Option (ContentError φ))
    (evaluation : DataEvaluation φ) : Prop where
  closes : evaluation.closeConnection = true ↔ ending ≠ none
  silent : evaluation.closeConnection = true → evaluation.result = [] ∧ evaluation.completed = false
  fits : evaluation.closeConnection = false → Fits mode recipients evaluation.result
  accepted : ∀ (i : Nat) (entry : RecipientResult), evaluation.result[i]? = some entry → entry.accepted = true →
    consumed = true ∧ Credible mode recipients result err ∧
      ∃ given : RecipientResult, result[i]? = some given ∧ given.accepted = true
  keeps : evaluation.closeConnection = false → Credible mode recipients result err →
    ∀ (i : Nat) (given : RecipientResult), result[i]? = some given → 400 ≤ given.code ∧ given.code < 600 →
      ∃ entry : RecipientResult, evaluation.result[i]? = some entry ∧ entry.code = given.code
  completed : evaluation.closeConnection = false →
    (evaluation.completed = true ↔
      Credible mode recipients result err ∧ evaluation.result = result.map fun r => r.normalize.1)

/-- A credible outcome stands as it is, with the enhanced codes repaired, and any other becomes a
temporary failure. -/
theorem validateDataOutcome_cases (mode : ListenerMode)
    (hne : recipients ≠ []) (command : Bytes) (result : DataResult) (err : Option BackendError) :
  let evaluation : DataEvaluation φ := validateDataOutcome mode recipients command result err
  evaluation.closeConnection = false ∧
    (Credible mode recipients result err ∧ evaluation.completed = true ∧
        evaluation.result = result.map (fun r => r.normalize.1) ∨
      ¬ Credible mode recipients result err ∧ evaluation.completed = false ∧
        evaluation.result = temporaryDataResult mode recipients command)
  := by
  have hempty : recipients.isEmpty = false := by simpa using hne
  cases err with
  | some e =>
    by_cases hresult : result.isEmpty = true <;>
      simp [validateDataOutcome, invalidDataOutcome, hempty, hresult, Credible]
  | none =>
    by_cases hlength : result.length = resultCount mode recipients
    · cases mode with
      | smtp => simp [validateDataOutcome, hempty, hlength, Credible, Fits]
      | lmtp =>
        have hnames := misnamed_eq_none hlength
        rcases hmisnamed : misnamed result recipients with _ | i
        · simp [validateDataOutcome, hempty, hlength, hmisnamed, Credible, Fits,
            hnames.mp hmisnamed]
        · have hother : result.map (·.recipient) ≠ recipients := by
            intro heq
            simp [hnames.mpr heq] at hmisnamed
          simp [validateDataOutcome, invalidDataOutcome, hempty, hlength, hmisnamed, Credible,
            Fits, hother]
    · simp [validateDataOutcome, invalidDataOutcome, hempty, hlength, Credible, Fits]

theorem not_accepted_temporary {mode : ListenerMode} {command : Bytes}
    {r : RecipientResult} (h : r ∈ temporaryDataResult mode recipients command) :
  r.accepted = false
  := by
  obtain ⟨i, -, rfl⟩ := List.mem_map.mp h
  rfl

/-- A success of a message that was not read. -/
def early (r : RecipientResult) : RecipientResult :=
  if r.accepted then
    { r with code := 451, enhanced := ⟨4, 3, 0, []⟩, text := ascii "Temporary server failure" }
  else r

theorem early_accepted (r : RecipientResult) :
  (early r).accepted = false
  := by
  rw [early]
  split
  · rfl
  · next h => exact Bool.eq_false_iff.mpr h

theorem early_of_not_accepted {r : RecipientResult} (h : r.accepted = false) :
  early r = r
  := by
  simp [early, h]

theorem map_early_eq_iff (rs : DataResult) :
  rs.map early = rs ↔ rs.any (·.accepted) = false
  := by
  constructor
  · intro h
    rw [← h, List.any_map]
    simp [early_accepted]
  · intro h
    have hsame : ∀ r ∈ rs, early r = r := by
      intro r hr
      apply early_of_not_accepted
      exact Bool.eq_false_iff.mpr (List.any_eq_false.mp h r hr)
    rw [List.map_congr_left hsame, List.map_id']

theorem replaceEarly_result (evaluation : DataEvaluation φ) :
  (replaceEarly evaluation).result = evaluation.result.map early
  := by
  rw [replaceEarly]
  split
  · rfl
  · next h =>
    exact ((map_early_eq_iff _).mpr (Bool.eq_false_iff.mpr h)).symm

theorem replaceEarly_completed (evaluation : DataEvaluation φ) :
  (replaceEarly evaluation).completed
    = (evaluation.completed && !evaluation.result.any (·.accepted))
  := by
  rw [replaceEarly]
  split
  · next h => simp [h]
  · next h => simp [h]

theorem replaceEarly_closeConnection (evaluation : DataEvaluation φ) :
  (replaceEarly evaluation).closeConnection = evaluation.closeConnection
  := by
  rw [replaceEarly]
  split <;> rfl

theorem judged_consumed (mode : ListenerMode) (hne : recipients ≠ [])
    (command : Bytes) (result : DataResult) (err : Option BackendError) :
  Judged mode recipients true result err (none : Option (ContentError φ))
    (validateDataOutcome mode recipients command result err)
  := by
  have hfits : Fits mode recipients (validateDataOutcome mode recipients command result err :
    DataEvaluation φ).result := fits_validateDataOutcome ..
  have hcases := validateDataOutcome_cases (φ := φ) mode hne command result err
  generalize (validateDataOutcome mode recipients command result err : DataEvaluation φ)
    = evaluation at hfits hcases
  obtain ⟨hopen, ⟨hcredible, hcompleted, hresult⟩ | ⟨hcredible, hcompleted, hresult⟩⟩ := hcases
  · refine ⟨by simp [hopen], by simp [hopen], fun _ => hfits, ?_, ?_, ?_⟩
    · intro i entry hentry haccepted
      rw [hresult, List.getElem?_map] at hentry
      obtain ⟨given, hgiven, rfl⟩ := Option.map_eq_some_iff.mp hentry
      exact ⟨rfl, hcredible, given, hgiven, haccepted⟩
    · intro _ _ i given hgiven _
      exact ⟨given.normalize.1, by simp [hresult, hgiven], rfl⟩
    · intro _
      simp [hcompleted, hcredible, hresult]
  · refine ⟨by simp [hopen], by simp [hopen], fun _ => hfits, ?_, ?_, ?_⟩
    · intro i entry hentry haccepted
      have hmem := List.mem_of_getElem? hentry
      rw [hresult] at hmem
      simp [not_accepted_temporary hmem] at haccepted
    · intro _ h
      exact absurd h hcredible
    · intro _
      simp [hcompleted, hcredible]

theorem judged_drained (mode : ListenerMode) (hne : recipients ≠ [])
    (command : Bytes) (result : DataResult) (err : Option BackendError) :
  Judged mode recipients false result err (none : Option (ContentError φ))
    (replaceEarly (validateDataOutcome mode recipients command result err))
  := by
  have hjudged := judged_consumed (φ := φ) mode hne command result err
  obtain ⟨hopen, hcases⟩ := validateDataOutcome_cases (φ := φ) mode hne command result err
  generalize (validateDataOutcome mode recipients command result err : DataEvaluation φ)
    = evaluation at hjudged hopen hcases
  have hopen' := (replaceEarly_closeConnection evaluation).trans hopen
  refine ⟨by simp [hopen'], by simp [hopen'], ?_, ?_, ?_, ?_⟩
  · intro _
    rw [replaceEarly_result]
    refine (hjudged.fits hopen).map fun r => ?_
    rw [early]
    split <;> rfl
  · intro i entry hentry haccepted
    rw [replaceEarly_result, List.getElem?_map] at hentry
    obtain ⟨r, -, rfl⟩ := Option.map_eq_some_iff.mp hentry
    simp [early_accepted] at haccepted
  · intro _ hcredible i given hgiven hcode
    obtain ⟨entry, hentry, hsame⟩ := hjudged.keeps hopen hcredible i given hgiven hcode
    have hrefused : entry.accepted = false := by
      simp [RecipientResult.accepted, hsame]
      omega
    refine ⟨entry, ?_, hsame⟩
    rw [replaceEarly_result, List.getElem?_map, hentry, Option.map_some,
      early_of_not_accepted hrefused]
  · intro _
    rw [replaceEarly_completed, replaceEarly_result]
    rcases hcases with ⟨hcredible, hcompleted, hresult⟩ | ⟨hcredible, hcompleted, -⟩
    · rw [hcompleted, ← hresult, map_early_eq_iff]
      simp [hcredible]
    · simp [hcompleted, hcredible]

theorem judged_broken (mode : ListenerMode) (recipients : List Bytes) (result : DataResult)
    (err : Option BackendError) (e : ContentError φ) :
  Judged mode recipients false result err (some e)
    { result := [], closeConnection := true, cause := some (.drain e) }
  := by
  refine ⟨by simp, by simp, by simp, by simp, by simp, by simp⟩

/-- The content of a call ends: the backend has read to its end, or it ends when it is drained. -/
def Finishes (r : Reader σ UInt8 (ContentError φ)) (consumed : Bool) (t : TrackedDataReader σ)
    (ending : Option (ContentError φ)) (t' : TrackedDataReader σ) : Prop :=
  if consumed then ending = none ∧ t' = t else Ends (tracked r) t ending t'

/-- A call that returns is judged, as soon as the content ends, and it is judged by the rule. -/
theorem judged_evaluateDataCall (mode : ListenerMode) {recipients : List Bytes}
    (hne : recipients ≠ []) (command : Bytes) (r : Reader σ UInt8 (ContentError φ))
    (content : MultiReader σ) (call : DataCall φ ω) {result : DataResult}
    {err : Option BackendError} {w : ω} {t : TrackedDataReader σ}
    (hrun : call.run (tracked r) ⟨content, false⟩ = (some (result, err), w, t)) :
  let consumed := call.consumes (tracked r) ⟨content, false⟩
  let evaluated := fun fuel => evaluateDataCall mode recipients command r fuel call ⟨content, false⟩
  (∀ ending t', Finishes r consumed t ending t' → ∃ least, ∀ fuel, least ≤ fuel →
      ∃ evaluation, evaluated fuel = (some evaluation, w, t')) ∧
    ∀ fuel evaluation w' t', evaluated fuel = (some evaluation, w', t') →
      ∃ ending, Finishes r consumed t ending t' ∧
        Judged mode recipients consumed result err ending evaluation
  := by
  have hconsumed : t.exhausted = call.consumes (tracked r) ⟨content, false⟩ := by
    have h := exhausted_run r call ⟨content, false⟩
    rw [hrun] at h
    simpa using h
  rcases hread : call.consumes (tracked r) ⟨content, false⟩ with _ | _ <;> rw [hread] at hconsumed
  · have hevaluate : ∀ fuel x t', drainContent (tracked r) fuel t = (x, t') →
        evaluateDataCall mode recipients command r fuel call ⟨content, false⟩
          = (x.map fun ending =>
              match ending with
              | none => replaceEarly (validateDataOutcome mode recipients command result err)
              | some e => { result := [], closeConnection := true, cause := some (.drain e) },
              w, t') := by
      intro fuel x t' hdrain
      simp only [evaluateDataCall, hrun, hconsumed, Bool.false_eq_true, if_false, hdrain]
      rcases x with _ | _ | e <;> rfl
    simp only [Finishes, Bool.false_eq_true, if_false]
    constructor
    · intro ending t' hends
      obtain ⟨least, hdrain⟩ := hends.drainContent
      exact ⟨least, fun fuel hfuel => ⟨_, hevaluate fuel _ t' (hdrain fuel hfuel)⟩⟩
    · intro fuel evaluation w' t' h
      rcases hdrain : drainContent (tracked r) fuel t with ⟨_ | _ | e, t''⟩ <;>
        rw [hevaluate fuel _ t'' hdrain] at h <;> cases h
      · exact ⟨none, ends_of_drainContent hdrain, judged_drained mode hne command result err⟩
      · exact ⟨some e, ends_of_drainContent hdrain, judged_broken mode recipients result err e⟩
  · have hevaluate : ∀ fuel,
        evaluateDataCall mode recipients command r fuel call ⟨content, false⟩
          = (some (validateDataOutcome mode recipients command result err), w, t) := by
      intro fuel
      simp only [evaluateDataCall, hrun, hconsumed, if_true]
    simp only [hevaluate, Finishes, if_true]
    constructor
    · rintro ending t' ⟨rfl, rfl⟩
      exact ⟨0, fun _ _ => ⟨_, rfl⟩⟩
    · rintro fuel evaluation w' t' h
      cases h
      exact ⟨none, ⟨rfl, rfl⟩, judged_consumed mode hne command result err⟩

/-- The results of a message for two recipients, of which the second is refused. -/
def divided : DataResult :=
  [⟨ascii "a", ascii "DATA", 250, ⟨2, 0, 0, []⟩, ascii "OK"⟩,
    ⟨ascii "b", ascii "DATA", 550, ⟨5, 0, 0, []⟩, ascii "Refused"⟩]

/-- A backend that reads two octets and the end, and returns them. -/
def dividing : DataCall Unit Unit :=
  .read 2 () fun _ => .read 2 () fun _ => .ret divided none ()

theorem judged_evaluateDataCall_divided :
  ∃ evaluation t, evaluateDataCall .lmtp [ascii "a", ascii "b"] (ascii "DATA")
      (spoolContent false) 0 dividing ⟨⟨none, false, Feed.items (ascii "hi")⟩, false⟩
        = (some evaluation, (), t) ∧
    Judged .lmtp [ascii "a", ascii "b"] true divided none (none : Option (ContentError Unit))
      evaluation
  := by
  have hne : [ascii "a", ascii "b"] ≠ [] := by decide
  have hjudged := judged_evaluateDataCall .lmtp hne (ascii "DATA") (spoolContent false)
    ⟨none, false, Feed.items (ascii "hi")⟩ dividing rfl
  obtain ⟨ending, ⟨rfl, -⟩, h⟩ := hjudged.2 0 _ _ _ rfl
  exact ⟨_, _, rfl, h⟩

end Session

end GoSmtp.Server
