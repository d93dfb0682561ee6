import GoSmtp.Server.Outcome
import GoSmtp.Wire.EndOfData

/-!
# The end of DATA

What the evaluation of DATA content comes to, for every backend: the content is always
read to its end, whether the size limit was exceeded depends on the length of the content
alone, and a stream that fails before the clean end closes the connection
(`evaluateDataCall_spec`).  `handleDATA` then drops that verdict if the limit was
exceeded, so a failed stream is answered and the octets after it are decoded as commands
(`dataRule_iff`).
-/

namespace GoSmtp.Server

open Exec

variable {σ φ ω : Type}
variable (env : Env φ ω)
variable {evaluation : DataEvaluation φ} {s₀ : σ} {cfg : Config} {s : Session φ ω}
variable {t : TrackedDataReader (SizeEnforcingReader × σ)} {x : SizeEnforcingReader × σ}

/-! ### The size limit -/

section Limit

variable {r : Reader σ UInt8 (ContentError φ)} (d : r.Meaning) (limit : Nat) (s₀ : σ)

/-- The reader under a size limit, at a state reached from the content `s₀`: the limiter
has counted what was delivered. -/
structure Metered (x : SizeEnforcingReader × σ) : Prop where
  final : d.final x.2 = d.final s₀
  last : d.last x.2 = d.last s₀
  meter : (x.1.exceeded = false ∧ x.1.reported = false ∧
      ∃ c, d.content s₀ = c ++ d.content x.2 ∧ x.1.remain = (limit : Int) - c.length ∧
        c.length ≤ limit) ∨
    (x.1.exceeded = true ∧ limit < (d.content s₀).length)

variable {d limit s₀}

theorem metered_start :
  Metered d limit s₀ (⟨limit, false, false⟩, s₀)
  := ⟨rfl, rfl, Or.inl ⟨rfl, rfl, [], rfl, by simp, by simp⟩⟩

theorem Metered.exceeded_iff (h : Metered d limit s₀ x) (hend : d.content x.2 = []) :
  x.1.exceeded = true ↔ limit < (d.content s₀).length
  := by
  rcases h.meter with ⟨hex, -, c, hc, -, hle⟩ | ⟨hex, hlt⟩
  · rw [hend, List.append_nil] at hc
    simp only [hex, hc, Bool.false_eq_true, false_iff]
    omega
  · simp [hex, hlt]

/-- What a read under the size limit may come to. -/
inductive LimitedRead (d : r.Meaning) (s₀ : σ) (n : Nat) (x x' : SizeEnforcingReader × σ) :
    Option (ContentError φ) → Prop where
  | more (hx : x'.1.exceeded = x.1.exceeded)
      (h : (d.content x'.2).length ≤ (d.content x.2).length)
      (hn : 0 < n → (d.content x'.2).length < (d.content x.2).length) :
      LimitedRead d s₀ n x x' none
  | tooLarge (hx : x.1.exceeded = false) (hx' : x'.1.exceeded = true)
      (h : (d.content x'.2).length ≤ (d.content x.2).length) :
      LimitedRead d s₀ n x x' (some .messageTooLarge)
  | ended (h : x'.2 = d.last s₀) : LimitedRead d s₀ n x x' (some (d.final s₀))

theorem add64_one {n : Nat} (h : n < maxInt64) :
  add64 n 1 = n + 1
  := by
  unfold maxInt64 at h
  unfold add64 Int.bmod
  simp only [Nat.reducePow]
  split <;> omega

theorem Metered.ended (hd : d.Sticky) {l : SizeEnforcingReader}
    (h : Metered d limit s₀ x) (hc : d.content x.2 = []) (hl : l = x.1) :
  Metered d limit s₀ (l, d.last x.2)
  := by
  subst hl
  constructor
  · rw [hd.final, h.final]
  · rw [hd.last, h.last]
  · rcases h.meter with ⟨hex, hrep, c, hcs, hrem, hle⟩ | h
    · exact Or.inl ⟨hex, hrep, c, by rw [hd.content, hcs, hc], hrem, hle⟩
    · exact Or.inr h

theorem Metered.read_exceeded (hd : d.Sticky)
    (h : Metered d limit s₀ x) (hx : x.1.exceeded = true) (n : Nat) :
  ∃ w e x', (limited r).read n x = (⟨w, e⟩, x') ∧ Metered d limit s₀ x' ∧
    LimitedRead d s₀ n x x' e
  := by
  have hlt : limit < (d.content s₀).length := by
    rcases h.meter with ⟨hex, -⟩ | ⟨-, hlt⟩
    · simp [hx] at hex
    · exact hlt
  rcases d.read_cases n x.2 with ⟨w, s', hr, hc, hf, hl, hw⟩ | ⟨hc, hr⟩
  · refine ⟨w, none, (x.1, s'), by simp [limited, SizeEnforcingReader.read, hx, hr],
      ⟨hf.trans h.final, hl.trans h.last, Or.inr ⟨hx, hlt⟩⟩, .more rfl (by simp [hc]) fun hn => ?_⟩
    have := List.length_pos_iff.mpr (hw hn)
    simp only [hc, List.length_append]
    omega
  · refine ⟨[], some (d.final s₀), (x.1, d.last x.2), ?_, h.ended hd hc rfl, .ended h.last⟩
    simp [limited, SizeEnforcingReader.read, hx, hr, h.final]

theorem Metered.read (hd : d.Sticky) (hlim : limit < maxInt64)
    (h : Metered d limit s₀ x) (n : Nat) :
  ∃ w e x', (limited r).read n x = (⟨w, e⟩, x') ∧ Metered d limit s₀ x' ∧
    LimitedRead d s₀ n x x' e
  := by
  rcases h.meter with ⟨hex, hrep, c, hcs, hrem, hle⟩ | ⟨hex, -⟩
  · obtain ⟨k, hk⟩ : ∃ k : Nat, x.1.remain = k ∧ k < maxInt64 ∧ c.length + k = limit :=
      ⟨limit - c.length, by omega, by omega, by omega⟩
    obtain ⟨m, hm, hpos⟩ : ∃ m : Nat,
        (if (n : Int) > add64 k 1 then add64 k 1 else n) = (m : Int) ∧ (0 < n → 0 < m) := by
      rw [add64_one hk.2.1]
      split
      · exact ⟨k + 1, by omega, by omega⟩
      · exact ⟨n, rfl, id⟩
    have hread {w e s} (hr : r.read m x.2 = (⟨w, e⟩, s)) : (limited r).read n x =
        if w.length ≤ k then (⟨w, e⟩, { x.1 with remain := x.1.remain - w.length }, s)
        else (⟨w.take k, some .messageTooLarge⟩, ⟨0, true, true⟩, s) := by
      have hneg : ¬ (m : Int) < 0 := by omega
      simp only [limited, SizeEnforcingReader.read, hex, hm, hneg, if_false, Int.toNat_natCast,
        hrep, hk.1, hr, Int.ofNat_le, Bool.false_eq_true]
    rcases d.read_cases m x.2 with ⟨w, s', hr, hc, hf, hl, hw⟩ | ⟨hc, hr⟩
    · have hlen : (d.content x.2).length = w.length + (d.content s').length := by simp [hc]
      replace hread := hread hr
      by_cases hwk : w.length ≤ k
      · simp only [hwk, if_true] at hread
        refine ⟨_, _, _, hread, ⟨hf.trans h.final, hl.trans h.last, Or.inl ⟨hex, hrep, c ++ w, ?_,
          ?_, ?_⟩⟩, .more rfl (by simp [hc]) fun hn => ?_⟩
        · simp [hcs, hc]
        · simp only [List.length_append]
          omega
        · simp only [List.length_append]
          omega
        · have := List.length_pos_iff.mpr (hw (hpos hn))
          simp only
          omega
      · simp only [hwk, if_false] at hread
        refine ⟨_, _, _, hread, ⟨hf.trans h.final, hl.trans h.last, Or.inr ⟨rfl, ?_⟩⟩,
          .tooLarge hex rfl ?_⟩
        · simp only [hcs, hc, List.length_append]
          omega
        · simp only
          omega
    · replace hread := hread hr
      simp only [List.length_nil, Nat.zero_le, if_true, h.final] at hread
      exact ⟨_, _, _, hread, h.ended hd hc (by simp), .ended h.last⟩
  · exact h.read_exceeded hd hex n

/-! ### The reader of the backend -/

omit r in
theorem isEOF_iff {e : ContentError φ} :
  e.isEOF = true ↔ e = .eof
  := by
  cases e <;> simp [ContentError.isEOF]

/-- The reader that the backend gets, at a state reached from the content `s₀`. -/
structure Tracking (d : r.Meaning) (limit : Nat) (s₀ : σ)
    (t : TrackedDataReader (SizeEnforcingReader × σ)) : Prop where
  metered : Metered d limit s₀ t.reader.source
  done : t.reader.done = true → d.final s₀ = .eof ∧ t.reader.source.2 = d.last s₀
  exhausted : t.exhausted = true → t.reader.done = true

/-- How much is left to read. -/
def unread (d : r.Meaning) (t : TrackedDataReader (SizeEnforcingReader × σ)) : Nat :=
  (t.reader.header.getD []).length + (d.content t.reader.source.2).length

/-- What a read of the backend may come to. -/
inductive TrackedRead (d : r.Meaning) (s₀ : σ) (n : Nat)
    (t t' : TrackedDataReader (SizeEnforcingReader × σ)) : Option (ContentError φ) → Prop where
  | more (ht : t'.reader.source.1.exceeded = t.reader.source.1.exceeded)
      (h : unread d t' ≤ unread d t) (hn : 0 < n → unread d t' < unread d t) :
      TrackedRead d s₀ n t t' none
  | tooLarge (ht : t.reader.source.1.exceeded = false) (ht' : t'.reader.source.1.exceeded = true)
      (h : unread d t' ≤ unread d t) : TrackedRead d s₀ n t t' (some .messageTooLarge)
  | ended (h : t'.reader.source.2 = d.last s₀) (he : d.final s₀ = .eof → t'.exhausted = true)
      (hu : unread d t' ≤ unread d t) : TrackedRead d s₀ n t t' (some (d.final s₀))

theorem Tracking.read_source (hd : d.Sticky) (hlim : limit < maxInt64) (h : Tracking d limit s₀ t)
    (n : Nat) (hread : (tracked (limited r)).read n t =
      ((MultiReader.readSource (limited r) n t.reader).1,
        ⟨(MultiReader.readSource (limited r) n t.reader).2,
          t.exhausted || (MultiReader.readSource (limited r) n t.reader).1.err.any (·.isEOF)⟩)) :
  ∃ w e t', (tracked (limited r)).read n t = (⟨w, e⟩, t') ∧
    Tracking d limit s₀ t' ∧ TrackedRead d s₀ n t t' e
  := by
  have hu (t' : TrackedDataReader (SizeEnforcingReader × σ)) (ht' : t'.reader.header = none) :
      unread d t' = (d.content t'.reader.source.2).length := by simp [unread, ht']
  have hu₀ : (d.content t.reader.source.2).length ≤ unread d t := by simp [unread]
  rw [hread]
  by_cases hdone : t.reader.done
  · obtain ⟨hf, hl⟩ := h.done hdone
    simp only [MultiReader.readSource, hdone, if_true]
    refine ⟨_, _, _, rfl, ⟨h.metered, fun _ => ⟨hf, hl⟩, fun _ => rfl⟩, ?_⟩
    rw [← hf]
    refine .ended hl (fun _ => ?_) ?_
    · simp [hf, ContentError.isEOF]
    · rw [hu _ rfl]
      exact hu₀
  · have hexh : t.exhausted = false := by
      by_contra hne
      exact hdone (h.exhausted (by simpa using hne))
    obtain ⟨w, e, x', hxr, hm, hstep⟩ := h.metered.read hd hlim n
    simp only [MultiReader.readSource, hdone, Bool.false_eq_true, if_false, hxr, hexh,
      Bool.false_or]
    refine ⟨w, e, _, rfl, ⟨hm, ?_, id⟩, ?_⟩
    · intro heof
      cases hstep with
      | more => simp at heof
      | tooLarge => simp [ContentError.isEOF] at heof
      | ended hl => exact ⟨isEOF_iff.mp (by simpa using heof), hl⟩
    · cases hstep with
      | more hx hle hn =>
        refine .more hx ?_ fun h0 => ?_
        · rw [hu _ rfl]
          exact Nat.le_trans hle hu₀
        · rw [hu _ rfl]
          exact Nat.lt_of_lt_of_le (hn h0) hu₀
      | tooLarge hx hx' hle =>
        refine .tooLarge hx hx' ?_
        rw [hu _ rfl]
        exact Nat.le_trans hle hu₀
      | ended hl =>
        refine .ended hl (fun hf => by simp [hf, ContentError.isEOF]) ?_
        rw [hu _ rfl]
        simp [hl, hd.content]

theorem Tracking.read (hd : d.Sticky) (hlim : limit < maxInt64)
    (h : Tracking d limit s₀ t) (n : Nat) :
  ∃ w e t', (tracked (limited r)).read n t = (⟨w, e⟩, t') ∧ Tracking d limit s₀ t' ∧
    TrackedRead d s₀ n t t' e
  := by
  obtain ⟨⟨header, done, x⟩, exhausted⟩ := t
  match header with
  | some (b :: hs) =>
    refine ⟨(b :: hs).take n, none, ⟨⟨some ((b :: hs).drop n), done, x⟩, exhausted⟩, ?_,
      ⟨h.metered, h.done, h.exhausted⟩, .more rfl ?_ fun hn => ?_⟩
    · simp [tracked, MultiReader.read]
    · simp [unread]
    · simp only [unread, Option.getD_some, List.length_drop, List.length_cons]
      omega
  | some [] => exact h.read_source hd hlim n rfl
  | none => exact h.read_source hd hlim n rfl

theorem Tracking.run (hd : d.Sticky) (hlim : limit < maxInt64) (call : DataCall φ ω)
    (h : Tracking d limit s₀ t) :
  Tracking d limit s₀ (call.run (tracked (limited r)) t).2.2 ∧
    unread d (call.run (tracked (limited r)) t).2.2 ≤ unread d t
  := by
  induction call generalizing t with
  | ret => exact ⟨h, Nat.le_refl _⟩
  | panic => exact ⟨h, Nat.le_refl _⟩
  | read n world k ih =>
    obtain ⟨w, e, t', hr, ht', hstep⟩ := h.read hd hlim n
    have hle : unread d t' ≤ unread d t := by
      cases hstep <;> assumption
    simp only [DataCall.run, hr]
    split
    · next heq =>
      cases heq
      exact ⟨ht', hle⟩
    · next heq =>
      cases heq
      obtain ⟨h₁, h₂⟩ := ih ⟨w, e⟩ ht'
      exact ⟨h₁, Nat.le_trans h₂ hle⟩

/-- The loop of `io.Copy` comes to the end of the content, or to the report that it is too
large. -/
theorem Tracking.drain (hd : d.Sticky) (hlim : limit < maxInt64) {fuel : Nat}
    (h : Tracking d limit s₀ t) (hfuel : unread d t < fuel) :
  ∃ e t', (tracked (limited r)).drain discardSize fuel t = (some e, t') ∧
    Tracking d limit s₀ t' ∧ unread d t' ≤ unread d t ∧
    ((e = .messageTooLarge ∧ t.reader.source.1.exceeded = false ∧
        t'.reader.source.1.exceeded = true) ∨
      (e = d.final s₀ ∧ t'.reader.source.2 = d.last s₀))
  := by
  induction fuel generalizing t with
  | zero => omega
  | succ fuel ih =>
    obtain ⟨w, e, t', hr, ht', hstep⟩ := h.read hd hlim discardSize
    simp only [Reader.drain, hr]
    cases hstep with
    | more hx hle hn =>
      have hlt := hn (by decide)
      obtain ⟨e, t'', hr', ht'', hle', hcase⟩ := ih ht' (by omega)
      rw [hx] at hcase
      exact ⟨e, t'', hr', ht'', Nat.le_trans hle' hle, hcase⟩
    | tooLarge hx hx' hle => exact ⟨_, _, rfl, ht', hle, Or.inl ⟨rfl, hx, hx'⟩⟩
    | ended hl he hu => exact ⟨_, _, rfl, ht', hu, Or.inr ⟨rfl, hl⟩⟩

theorem Tracking.drainContent (hd : d.Sticky) (hlim : limit < maxInt64)
    (hfinal : d.final s₀ ≠ .messageTooLarge ∧ d.final s₀ ≠ .outOfRange) {n : Nat}
    (h : Tracking d limit s₀ t) (hfuel : unread d t < n) :
  ∃ t', Server.drainContent (tracked (limited r)) n t
      = (some (if (d.final s₀).isEOF then none else some (d.final s₀)), t') ∧
    Tracking d limit s₀ t' ∧ t'.reader.source.2 = d.last s₀
  := by
  have hend {t t' : TrackedDataReader (SizeEnforcingReader × σ)}
      (hr : (tracked (limited r)).drain discardSize n t = (some (d.final s₀), t')) :
      discard (tracked (limited r)) n t
        = (some (if (d.final s₀).isEOF then none else some (d.final s₀)), t') := by
    simp only [discard, hr]
    cases hf : d.final s₀ <;> simp_all [ContentError.isEOF]
  obtain ⟨e, t', hr, ht', hle, ⟨rfl, -, hx⟩ | ⟨rfl, hl⟩⟩ := h.drain hd hlim hfuel
  · obtain ⟨e, t'', hr', ht'', -, ⟨rfl, hx', -⟩ | ⟨rfl, hl⟩⟩ := ht'.drain hd hlim
      (Nat.lt_of_le_of_lt hle hfuel)
    · simp [hx] at hx'
    · refine ⟨t'', ?_, ht'', hl⟩
      simp only [Server.drainContent, discard, hr]
      exact hend hr'
  · refine ⟨t', ?_, ht', hl⟩
    simp only [Server.drainContent, hend hr]
    cases hf : d.final s₀ <;> simp_all [ContentError.isEOF]

omit r in
theorem validateDataOutcome_open (mode : ListenerMode) (recipients : List Bytes) (command : Bytes)
    (result : DataResult) (callErr : Option BackendError) :
  (validateDataOutcome mode recipients command result callErr
    : DataEvaluation φ).closeConnection = false
  := by
  unfold validateDataOutcome
  repeat' split
  all_goals rfl

omit r in
theorem replaceEarly_closeConnection (evaluation : DataEvaluation φ) :
  (replaceEarly evaluation).closeConnection = evaluation.closeConnection
  := by
  unfold replaceEarly
  split <;> rfl

/-- The evaluation of content under a size limit, for every backend that returns: the
content was read to its end, and the connection is closed unless that is the clean end. -/
theorem evaluateDataCall_spec (hd : d.Sticky) (hlim : limit < maxInt64)
    (hfinal : d.final s₀ ≠ .messageTooLarge ∧ d.final s₀ ≠ .outOfRange)
    (mode : ListenerMode) (recipients : List Bytes) (command : Bytes) {fuel : Nat}
    (call : DataCall φ ω) {t' : TrackedDataReader (SizeEnforcingReader × σ)} {w : ω}
    (h : Tracking d limit s₀ t) (hfuel : unread d t < fuel)
    (heval : evaluateDataCall mode recipients command (limited r) fuel call t
      = (some evaluation, w, t')) :
  t'.reader.source.2 = d.last s₀ ∧
    (t'.reader.source.1.exceeded = true ↔ limit < (d.content s₀).length) ∧
    (evaluation.closeConnection = true ↔ d.final s₀ ≠ .eof) ∧
    (evaluation.closeConnection = true → evaluation.cause.isSome)
  := by
  obtain ⟨ht₁, hle⟩ := h.run hd hlim call
  have hspec {t' : TrackedDataReader (SizeEnforcingReader × σ)} (ht' : Tracking d limit s₀ t')
      (hl : t'.reader.source.2 = d.last s₀) :
      t'.reader.source.1.exceeded = true ↔ limit < (d.content s₀).length :=
    ht'.metered.exceeded_iff (by rw [hl, hd.content])
  simp only [evaluateDataCall] at heval
  rcases hrun : call.run (tracked (limited r)) t with ⟨_ | ⟨result, callErr⟩, w₁, t₁⟩
  · simp [hrun] at heval
  · rw [hrun] at ht₁ hle
    simp only [hrun] at heval
    split at heval
    · next hexh =>
      obtain ⟨hf, hl⟩ := ht₁.done (ht₁.exhausted hexh)
      cases heval
      exact ⟨hl, hspec ht₁ hl, by simp [validateDataOutcome_open, hf],
        by simp [validateDataOutcome_open]⟩
    · obtain ⟨t₂, hdrain, ht₂, hl⟩ := ht₁.drainContent hd hlim hfinal (n := fuel)
        (Nat.lt_of_le_of_lt hle hfuel)
      rw [hdrain] at heval
      by_cases hf : (d.final s₀).isEOF
      · simp only [hf, if_true] at heval
        cases heval
        exact ⟨hl, hspec ht₂ hl,
          by simp [replaceEarly_closeConnection, validateDataOutcome_open, isEOF_iff.mp hf],
          by simp [replaceEarly_closeConnection, validateDataOutcome_open]⟩
      · simp only [hf, if_false, Bool.false_eq_true] at heval
        cases heval
        exact ⟨hl, hspec ht₂ hl, by simpa using mt isEOF_iff.mpr hf, by simp⟩

end Limit

/-! ### The limit that overflows -/

section Overflow

variable {r : Reader σ UInt8 (ContentError φ)}

/-- Nothing of the content was read. -/
def Untouched (s₀ : σ) (t : TrackedDataReader (SizeEnforcingReader × σ)) : Prop :=
  t.reader.source = (⟨maxInt64, false, false⟩, s₀) ∧ t.reader.done = false ∧ t.exhausted = false

theorem Untouched.read (h : Untouched s₀ t) (n : Nat) :
  (∃ w t', (tracked (limited r)).read n t = (⟨w, none⟩, t') ∧ Untouched s₀ t' ∧
      (0 < n → (t'.reader.header.getD []).length < (t.reader.header.getD []).length) ∧
      (t'.reader.header.getD []).length ≤ (t.reader.header.getD []).length) ∨
    ∃ t', (tracked (limited r)).read n t = (⟨[], some .outOfRange⟩, t')
  := by
  obtain ⟨⟨header, done, x⟩, exhausted⟩ := t
  obtain ⟨rfl, rfl, rfl⟩ := h
  have hlim : add64 maxInt64 1 = -2 ^ 63 := by decide
  have hn : (n : Int) > -2 ^ 63 := by omega
  have hread : (limited r).read n (⟨maxInt64, false, false⟩, s₀)
      = (⟨[], some .outOfRange⟩, ⟨maxInt64, false, false⟩, s₀) := by
    simp only [limited, SizeEnforcingReader.read, hlim, if_pos hn, Bool.false_eq_true, if_false]
    rfl
  match header with
  | some (b :: hs) =>
    left
    refine ⟨(b :: hs).take n, ⟨⟨some ((b :: hs).drop n), false, _⟩, false⟩, ?_,
      ⟨rfl, rfl, rfl⟩, fun hn => ?_, ?_⟩
    · simp [tracked, MultiReader.read]
    · simp only [Option.getD_some, List.length_drop, List.length_cons]
      omega
    · simp
  | some [] =>
    right
    simp [tracked, MultiReader.read, MultiReader.readSource, hread]
  | none =>
    right
    simp [tracked, MultiReader.read, MultiReader.readSource, hread]

theorem Untouched.run (call : DataCall φ ω) (h : Untouched s₀ t) :
  (call.run (tracked (limited r)) t).1 = none ∨
    (Untouched s₀ (call.run (tracked (limited r)) t).2.2 ∧
      ((call.run (tracked (limited r)) t).2.2.reader.header.getD []).length
        ≤ (t.reader.header.getD []).length)
  := by
  induction call generalizing t with
  | ret => exact Or.inr ⟨h, Nat.le_refl _⟩
  | panic => exact Or.inl rfl
  | read n world k ih =>
    rcases h.read (r := r) n with ⟨w, t', hr, ht', -, hle⟩ | ⟨t', hr⟩
    · simp only [DataCall.run, hr]
      rcases ih ⟨w, none⟩ ht' with h | ⟨h, hle'⟩
      · exact Or.inl h
      · exact Or.inr ⟨h, Nat.le_trans hle' hle⟩
    · simp [DataCall.run, hr]

theorem Untouched.drain (fuel : Nat) (h : Untouched s₀ t) :
  ∃ e t', (tracked (limited r)).drain discardSize fuel t = (e, t') ∧
    (e = none ∨ e = some .outOfRange)
  := by
  induction fuel generalizing t with
  | zero => exact ⟨_, _, rfl, Or.inl rfl⟩
  | succ fuel ih =>
    rcases h.read (r := r) discardSize with ⟨w, t', hr, ht', -, -⟩ | ⟨t', hr⟩
    · simp only [Reader.drain, hr]
      exact ih ht'
    · simp [Reader.drain, hr]

theorem evaluateDataCall_overflow (mode : ListenerMode) (recipients : List Bytes) (command : Bytes)
    (fuel : Nat) (call : DataCall φ ω) {s : σ} (h : Untouched s t) :
  (evaluateDataCall mode recipients command (limited r) fuel call t).1 = none
  := by
  simp only [evaluateDataCall]
  rcases hrun : call.run (tracked (limited r)) t with ⟨_ | ⟨result, callErr⟩, w, t₁⟩
  · rfl
  · have ht₁ : Untouched s t₁ := by
      rcases h.run (r := r) call with h | ⟨h, -⟩
      · simp [hrun] at h
      · simpa [hrun] using h
    obtain ⟨e, t₂, hdrain, rfl | rfl⟩ := ht₁.drain (r := r) fuel
    · simp [ht₁.2.2, drainContent, discard, hdrain]
    · simp [ht₁.2.2, drainContent, discard, hdrain]

end Overflow

/-! ### The content of DATA -/

/-- The dot-unstuffing reader comes to the clean end of the content. -/
def CleanEnd (s : Feed UInt8 φ) : Prop :=
  (DotUnstuffReader.deliver .new s).2.1.err = some .eof

instance [DecidableEq φ] (s : Feed UInt8 φ) : Decidable (CleanEnd s) :=
  inferInstanceAs (Decidable (_ = _))

/-- The content before the end, clean or not. -/
def received (s : Feed UInt8 φ) : Bytes := (DotUnstuffReader.deliver .new s).1

/-- What follows the end, clean or not. -/
def rest (s : Feed UInt8 φ) : Feed UInt8 φ := (DotUnstuffReader.deliver .new s).2.2

/-- The content of DATA and how it ends. -/
def dotMeaning : (dotContent (φ := φ)).Meaning :=
  DotUnstuffReader.meaning.mapErr ContentError.ofDot

theorem dotMeaning_sticky :
  (dotMeaning (φ := φ)).Sticky
  := by
  apply Reader.Meaning.Sticky.mapErr DotUnstuffReader.meaning
  constructor
  · intro s
    by_cases h : s.1.done <;>
      simp [DotUnstuffReader.meaning, h, (DotUnstuffReader.deliver_stopped s.1 s.2).1]
  · intro s
    by_cases h : s.1.done <;>
      simp [DotUnstuffReader.meaning, h, (DotUnstuffReader.deliver_stopped s.1 s.2).1]
  · intro s
    by_cases h : s.1.done <;>
      simp [DotUnstuffReader.meaning, h, (DotUnstuffReader.deliver_stopped s.1 s.2).1]

theorem ofDot_ne (e : DotError φ) :
  ContentError.ofDot e ≠ .messageTooLarge ∧ ContentError.ofDot e ≠ .outOfRange
  := by
  cases e <;> simp [ContentError.ofDot]

theorem ofDot_eof {e : DotError φ} :
  ContentError.ofDot e = .eof ↔ e = .eof
  := by
  cases e <;> simp [ContentError.ofDot]

theorem dotMeaning_new (s : Feed UInt8 φ) :
  dotMeaning.content (.new, s) = received s ∧
    (dotMeaning.last (.new, s)).2 = rest s ∧
    (dotMeaning.final (.new, s) = .eof ↔ CleanEnd s)
  := by
  obtain ⟨hc, hf, hl⟩ := DotUnstuffReader.meaning_new s
  refine ⟨hc, congrArg Prod.snd hl, ?_⟩
  simp only [dotMeaning, Reader.Meaning.mapErr, ofDot_eof, CleanEnd, ← hf, Option.some.injEq]

theorem tracking_start (header : Bytes) (s : Feed UInt8 φ) (limit : Nat) :
  Tracking dotMeaning limit (.new, s)
    ⟨⟨some header, false, ⟨limit, false, false⟩, .new, s⟩, false⟩
  := ⟨metered_start, by simp, by simp⟩

theorem unread_start (header : Bytes) (s : Feed UInt8 φ) (limit : Nat) :
  unread dotMeaning ⟨⟨some header, false, ⟨limit, false, false⟩, .new, s⟩, false⟩
    < header.length + s.length + 2
  := by
  have hlen : (received s).length ≤ s.length := DotUnstuffReader.deliver_length_le _ _
  simp only [unread, (dotMeaning_new s).1, Option.getD_some]
  omega

theorem evaluateDataCall_dot {s : Feed UInt8 φ} {limit : Nat} (hlim : limit < maxInt64)
    (mode : ListenerMode) (recipients : List Bytes) (command header : Bytes)
    (call : DataCall φ ω) {w : ω}
    {t : TrackedDataReader (SizeEnforcingReader × DotUnstuffReader φ × Feed UInt8 φ)}
    (heval : evaluateDataCall mode recipients command (limited dotContent)
      (header.length + s.length + 2) call ⟨⟨some header, false, ⟨limit, false, false⟩, .new, s⟩, false⟩
        = (some evaluation, w, t)) :
  t.reader.source.2.2 = rest s ∧
    (t.reader.source.1.exceeded = true ↔ limit < (received s).length) ∧
    (evaluation.closeConnection = true ↔ ¬ CleanEnd s) ∧
    (evaluation.closeConnection = true → evaluation.cause.isSome)
  := by
  obtain ⟨hc, hl, hf⟩ := dotMeaning_new s
  obtain ⟨h₁, h₂, h₃, h₄⟩ := evaluateDataCall_spec dotMeaning_sticky hlim (ofDot_ne _) mode
    recipients command call (tracking_start header s limit) (unread_start header s limit) heval
  rw [hc] at h₂
  exact ⟨by rw [h₁, hl], h₂, h₃.trans (not_congr hf), h₄⟩

theorem evaluateDataCall_ret {s : Feed UInt8 φ} {limit : Nat} (hlim : limit < maxInt64)
    (mode : ListenerMode) (recipients : List Bytes) (command header : Bytes)
    (result : DataResult) (err : Option BackendError) (w : ω) :
  (evaluateDataCall mode recipients command (limited dotContent) (header.length + s.length + 2)
    (.ret result err w) ⟨⟨some header, false, ⟨limit, false, false⟩, .new, s⟩, false⟩).1 ≠ none
  := by
  obtain ⟨t, hdrain, -⟩ := (tracking_start header s limit).drainContent dotMeaning_sticky hlim
    (ofDot_ne _) (unread_start header s limit)
  simp only [evaluateDataCall, DataCall.run, hdrain]
  split
  · simp
  · split <;> simp_all

/-! ### The session -/

/-- A reply, or the decoding of a command. -/
def LogEvent.isSpoken : LogEvent → Bool
  | .decoded _ | .reply _ => true
  | _ => false

/-- The conversation with the peer, as far as the log has it. -/
def spoken (log : List LogEvent) : List LogEvent := log.filter (·.isSpoken)

namespace Session

/-- What cleaning up leaves alone. -/
def outward (s : Session φ ω) : Feed UInt8 φ × List LogEvent := (s.feed, spoken s.log)

theorem outward_lifecycleReset (reason : ResetReason) :
  Keeps outward (lifecycleReset env reason)
  := by
  apply keeps_lifecycleReset (fun _ _ => rfl) _ _ fun _ _ => rfl
  · intro s reason
    simp [outward, spoken, LogEvent.isSpoken]
  · intro s
    simp [outward, spoken, LogEvent.isSpoken]

theorem outward_transition (event : StateEvent) :
  Keeps outward (transition event : Call φ ω Unit)
  := by
  apply keeps_transition fun _ _ => rfl
  intro s event
  simp [outward, spoken, LogEvent.isSpoken]

theorem outward_resetIfOpen (reason : ResetReason) :
  Keeps outward (resetIfOpen env reason)
  := Keeps.read.bind fun _ => .ite (.pure _) (outward_lifecycleReset env reason)

theorem outward_lifecycleClose :
  Keeps outward (lifecycleClose env)
  := by
  have hclose : Keeps outward (record .close : Call φ ω Unit) := by
    apply keeps_record
    intro s
    simp [outward, spoken, LogEvent.isSpoken]
  refine Keeps.read.bind fun _ => .ite (.pure _) ?_
  refine Keeps.bind (fun _ => rfl) fun _ => ?_
  exact (outward_resetIfOpen env _).bind fun _ =>
    hclose.bind fun _ => keeps_notify (fun _ _ => rfl) _

theorem outward_close :
  Keeps outward (close env)
  := (outward_lifecycleClose env).bind fun _ =>
    (outward_transition .close).attempt.bind fun _ => .pure _

/-- The session right before the evaluation of the content is acted upon. -/
def evaluated (cfg : Config) (s : Session φ ω) (header : Bytes) (decided : Bool)
    (w : ω) : Session φ ω :=
  { s with
    log := s.log ++
      [.traced s.state s.extended (some header), .dataCall .dot, .outcome decided] ++
      if cfg.maxMessage < (received s.feed).length then [.oversize] else []
    world := w
    feed := rest s.feed }

theorem spoken_evaluated (cfg : Config) (s : Session φ ω) (header : Bytes) (decided : Bool)
    (w : ω) :
  spoken (evaluated cfg s header decided w).log = spoken s.log
  := by
  unfold evaluated
  split <;> simp [spoken, LogEvent.isSpoken]

/-- What receiving the content comes to: the session fails before it asks the backend, it
panics, or it acts upon an evaluation. -/
theorem receive_cases (cfg : Config) (env : Env φ ω) (s : Session φ ω) :
  (∃ s', handleDATA.receive cfg env s = (.err .received, s') ∧ s'.outward = s.outward ∧
      (env.received s.state s.extended s.recipients s.world).1 = none) ∨
    (∃ s', handleDATA.receive cfg env s = (.panic, s') ∧ spoken s'.log = spoken s.log ∧
      (cfg.maxMessage < maxInt64 → ∃ w, ∀ result err w', env.data w ≠ .ret result err w')) ∨
    (cfg.maxMessage < maxInt64 ∧ ∃ header decided w, ∃ evaluation : DataEvaluation φ,
      handleDATA.receive cfg env s = finishContent env
        (if cfg.maxMessage < (received s.feed).length then
          (evaluated cfg s header decided w).sizeExceededEvaluation (ascii "DATA")
        else evaluation) (evaluated cfg s header decided w) ∧
      (evaluation.closeConnection = true ↔ ¬ CleanEnd s.feed) ∧
      (evaluation.closeConnection = true → evaluation.cause.isSome) ∧
      (evaluation.closeConnection = false → Fits s.state.mode s.recipients evaluation.result))
  := by
  rcases hrec : env.received s.state s.extended s.recipients s.world with ⟨_ | header, w₁⟩
  · left
    refine ⟨{ s with world := w₁, log := s.log ++ [.traced s.state s.extended none] }, ?_, ?_, rfl⟩
    · simp [handleDATA.receive, evaluateContent, Bind.bind, Exec.read, outside, hrec, record,
        Exec.update, Exec.fail]
    · simp [outward, spoken, LogEvent.isSpoken]
  · right
    let answer := (env.data w₁).run (tracked (limited dotContent))
      ⟨⟨some header, false, ⟨cfg.maxMessage, false, false⟩, .new, s.feed⟩, false⟩
    let decided := authoritative s.state.mode s.recipients answer.2.2.exhausted answer.1
    rcases heval : evaluateDataCall s.state.mode s.recipients (ascii "DATA") (limited dotContent)
        (header.length + s.feed.length + 2) (env.data w₁)
        ⟨⟨some header, false, ⟨cfg.maxMessage, false, false⟩, .new, s.feed⟩, false⟩
      with ⟨_ | evaluation, w, t⟩
    · left
      refine ⟨{ s with
        log := s.log ++
          [.traced s.state s.extended (some header), .dataCall .dot, .outcome decided],
        world := w, feed := t.reader.source.2.2 }, ?_, ?_, fun hlim => ⟨w₁, ?_⟩⟩
      · simp [handleDATA.receive, evaluateContent, Bind.bind, Exec.read, outside, hrec, heval, record,
          Exec.update, Pure.pure, decided, answer]
      · simp [spoken, LogEvent.isSpoken]
      · intro result err w' hret
        rw [hret] at heval
        exact evaluateDataCall_ret hlim _ _ _ _ _ _ _ (by rw [heval])
    · right
      have hlim : cfg.maxMessage < maxInt64 := by
        by_contra hge
        have heq : cfg.maxMessage = maxInt64 := by
          have := cfg.maxMessage_le
          omega
        have hnone := evaluateDataCall_overflow (r := dotContent) s.state.mode s.recipients
          (ascii "DATA") (header.length + s.feed.length + 2) (env.data w₁) (s := (.new, s.feed))
          (t := ⟨⟨some header, false, ⟨cfg.maxMessage, false, false⟩, .new, s.feed⟩, false⟩)
          ⟨by rw [heq], rfl, rfl⟩
        simp [heval] at hnone
      obtain ⟨hrest, hex, hclose, hcause⟩ := evaluateDataCall_dot hlim _ _ _ _ _ heval
      refine ⟨hlim, header, decided, w, evaluation, ?_, hclose, hcause, fits_evaluateDataCall heval⟩
      by_cases hover : cfg.maxMessage < (received s.feed).length
      · simp [handleDATA.receive, evaluateContent, Bind.bind, Exec.read, outside, hrec, heval,
          record, Exec.update, Pure.pure, hrest, hex, evaluated, hover, decided, answer]
      · simp [handleDATA.receive, evaluateContent, Bind.bind, Exec.read, outside, hrec, heval,
          record, Exec.update, Pure.pure, hrest, hex, evaluated, hover, decided, answer]

/-- The rest of the connection after the 354 reply, for at most `n` further turns. -/
def proceed (cfg : Config) (env : Env φ ω) (n : Nat) (s : Session φ ω) : Session φ ω × Bool :=
  match (do finishTurn env (← handleDATA.receive cfg env) : Call φ ω Bool) s with
  | (.ok true, s) => serve cfg env n s
  | (_, s) => ((close env s).2, false)

/-- The rule for the end of DATA, after the 354 reply. -/
structure DataRule (cfg : Config) (env : Env φ ω) (s : Session φ ω) : Prop where
  /-- There is a final reply, and the handler returns to the loop, only after the clean end
  of the content. -/
  reached : ∀ o s', handleDATA.receive cfg env s = (o, s') →
    (∃ action, o = .ok action) ∨ spoken s'.log ≠ spoken s.log →
    CleanEnd s.feed ∧ s'.feed = rest s.feed
  /-- If the content fails before its clean end, the connection is closed, with no reply and
  no further command. -/
  failed : ¬ CleanEnd s.feed → ∀ n, (s.proceed cfg env n).2 = false ∧
    spoken (s.proceed cfg env n).1.log = spoken s.log

/-- The condition under which the rule holds for every backend. -/
def EndsInLimit (cfg : Config) (s : Feed UInt8 φ) : Prop :=
  CleanEnd s ∨ (received s).length ≤ cfg.maxMessage ∨ cfg.maxMessage = maxInt64

theorem keeps_writeResults {γ : Type} {f : Session φ ω → γ}
    (hw : ∀ s w, f { s with world := w } = f s) (hl : ∀ s e, f { s with log := s.log ++ [e] } = f s)
    (env : Env φ ω) (rs : DataResult) :
  Keeps f (writeResults env rs)
  := by
  induction rs with
  | nil => exact .pure _
  | cons r rs ih => exact (keeps_writeReply hw hl env _).bind fun _ => ih

theorem feed_finishContent (evaluation : DataEvaluation φ) :
  Keeps (·.feed) (finishContent env evaluation)
  := by
  unfold finishContent
  refine .ite ?_ (.defer ?_ ?_)
  · split
    · exact .fail _
    · exact .pure _
  · refine Keeps.bind (keeps_record .emit fun _ => rfl) fun _ => ?_
    exact (keeps_writeResults (fun _ _ => rfl) (fun _ _ => rfl) env _).bind fun _ => .pure _
  · exact (keeps_lifecycleReset (fun _ _ => rfl) (fun _ _ => rfl) (fun _ => rfl)
      (fun _ _ => rfl) env _).bind fun _ =>
        Keeps.bind (fun _ => rfl) fun _ => keeps_transition (fun _ _ => rfl) (fun _ _ => rfl) _

theorem receive_failed (hcond : EndsInLimit cfg s.feed) (hfail : ¬ CleanEnd s.feed) :
  ∃ o s', handleDATA.receive cfg env s = (o, s') ∧ (∀ action, o ≠ .ok action) ∧
    spoken s'.log = spoken s.log
  := by
  rcases receive_cases cfg env s with ⟨s', h, hout, -⟩ | ⟨s', h, hsp, -⟩ |
    ⟨hlim, header, decided, w, ev, h, hcl, hca, -⟩
  · exact ⟨_, _, h, by simp, congrArg Prod.snd hout⟩
  · exact ⟨_, _, h, by simp, hsp⟩
  · have hle : ¬ cfg.maxMessage < (received s.feed).length := by
      rcases hcond with h | h | h
      · exact absurd h hfail
      · omega
      · omega
    have hclose := hcl.mpr hfail
    obtain ⟨cause, hcause⟩ := Option.isSome_iff_exists.mp (hca hclose)
    rw [if_neg hle] at h
    simp only [finishContent, hclose, hcause, if_true, Exec.fail] at h
    exact ⟨_, _, h, by simp, spoken_evaluated cfg s header decided w⟩

theorem dataRule_of_endsInLimit (hcond : EndsInLimit cfg s.feed) (env : Env φ ω) :
  DataRule cfg env s
  := by
  constructor
  · intro o s' h hspoke
    by_cases hclean : CleanEnd s.feed
    · refine ⟨hclean, ?_⟩
      rcases receive_cases cfg env s with ⟨s'', h', hout, -⟩ | ⟨s'', h', hsp, -⟩ |
        ⟨-, header, decided, w, ev, h', -⟩
      · rw [h] at h'
        cases h'
        rcases hspoke with ⟨_, h⟩ | h
        · cases h
        · exact absurd (congrArg Prod.snd hout) h
      · rw [h] at h'
        cases h'
        rcases hspoke with ⟨_, h⟩ | h
        · cases h
        · exact absurd hsp h
      · have hfeed := congrArg (fun x => x.2.feed) (h.symm.trans h')
        exact hfeed.trans (feed_finishContent env _ (evaluated cfg s header decided w))
    · obtain ⟨o', s'', h', hok, hsp⟩ := receive_failed env hcond hclean
      rw [h] at h'
      cases h'
      rcases hspoke with ⟨a, h⟩ | h
      · exact absurd h (hok a)
      · exact absurd hsp h
  · intro hfail n
    obtain ⟨o, s', h, hok, hsp⟩ := receive_failed env hcond hfail
    have hproceed : s.proceed cfg env n = ((close env s').2, false) := by
      match o, hok with
      | .ok a, hok => exact absurd rfl (hok a)
      | .err e, _ => simp [proceed, Bind.bind, h]
      | .panic, _ => simp [proceed, Bind.bind, h]
    rw [hproceed]
    exact ⟨rfl, (congrArg Prod.snd (outward_close env s')).trans hsp⟩

theorem writeResults_plain (rs : DataResult) (s : Session φ ω) :
  writeResults .plain rs s
    = (.ok (), { s with log := s.log ++ rs.map fun r => .reply (resultReply r) })
  := by
  induction rs generalizing s with
  | nil => simp [writeResults, Pure.pure]
  | cons r rs ih =>
    have hr : writeResult .plain r s
        = (.ok (), { s with log := s.log ++ [.reply (resultReply r)] }) := rfl
    simp [writeResults, Bind.bind, hr, ih]

theorem spoken_finishContent_plain (h : evaluation.closeConnection = false) (s : Session φ ω) :
  spoken (finishContent .plain evaluation s).2.log
    = spoken s.log ++ evaluation.result.map fun r => .reply (resultReply r)
  := by
  have hdefer (reason : ResetReason) (event : StateEvent) (s : Session φ ω) :
      spoken ((do
        lifecycleReset .plain reason
        clearTransaction
        transition event : Call φ ω Unit) s).2.log = spoken s.log := by
    have hkeeps : Keeps outward (do
        lifecycleReset .plain reason
        clearTransaction
        transition event : Call φ ω Unit) :=
      (outward_lifecycleReset .plain reason).bind fun _ =>
        Keeps.bind (fun _ => rfl) fun _ => outward_transition _
    exact congrArg Prod.snd (hkeeps s)
  have hwrite : ((do
      record .emit
      writeResults .plain evaluation.result
      pure sync : Call φ ω CommandAction) s).2.log
        = s.log ++ [.emit] ++ evaluation.result.map fun r => .reply (resultReply r) := by
    simp only [Bind.bind, record, Exec.update, writeResults_plain, Pure.pure]
  have hspoken : ∀ e ∈ evaluation.result.map fun r => LogEvent.reply (resultReply r),
      e.isSpoken = true := by
    simp [LogEvent.isSpoken]
  simp only [finishContent, h, Bool.false_eq_true, if_false]
  rw [Exec.defer_state, hdefer, hwrite, spoken, List.filter_append, List.filter_append,
    List.filter_eq_self.mpr hspoken]
  simp [spoken, LogEvent.isSpoken]

theorem uniformResult_ne_nil (mode : ListenerMode) {recipients : List Bytes} (h : recipients ≠ [])
    (command : Bytes) (code : Int) (enhanced : EnhancedCode) (text : Bytes) :
  (uniformResult mode recipients command code enhanced text).length ≠ 0
  := by
  cases mode <;> simp [uniformResult, resultCount, h]

theorem not_dataRule_plain (hrcpt : s.recipients ≠ []) (hcond : ¬ EndsInLimit cfg s.feed) :
  ¬ DataRule cfg .plain s
  := by
  obtain ⟨hfail, hlen, hmax⟩ : ¬ CleanEnd s.feed ∧ cfg.maxMessage < (received s.feed).length ∧
      cfg.maxMessage ≠ maxInt64 := by
    simpa [EndsInLimit, not_or] using hcond
  have hlim : cfg.maxMessage < maxInt64 := Nat.lt_of_le_of_ne cfg.maxMessage_le hmax
  intro hrule
  rcases receive_cases cfg .plain s with ⟨s', -, -, hnone⟩ | ⟨s', -, -, hret⟩ |
    ⟨-, header, decided, w, ev, h, -⟩
  · simp [Env.plain] at hnone
  · obtain ⟨w, hw⟩ := hret hlim
    exact hw [] none w rfl
  · rw [if_pos hlen] at h
    apply hfail
    rcases heq : handleDATA.receive cfg .plain s with ⟨o, s'⟩
    apply (hrule.reached o s' heq (Or.inr ?_)).1
    rw [show s' = (finishContent .plain
        ((evaluated cfg s header decided w).sizeExceededEvaluation (ascii "DATA"))
        (evaluated cfg s header decided w)).2 by rw [← h, heq], spoken_finishContent_plain rfl,
      spoken_evaluated]
    have hne := uniformResult_ne_nil s.state.mode hrcpt (ascii "DATA") 552 ⟨5, 3, 4, []⟩
      sizeExceededText
    intro heq
    have hlen := congrArg List.length heq
    simp only [List.length_append, List.length_map, sizeExceededEvaluation] at hlen
    exact hne (by simpa [evaluated] using hlen)

/-- The rule for the end of DATA holds for every backend exactly if the stream comes to the
clean end or fails within the size limit.  The largest limit there is never comes to
a verdict. -/
theorem dataRule_iff (cfg : Config) (s : Session φ ω) (hrcpt : s.recipients ≠ []) :
  (∀ env : Env φ ω, DataRule cfg env s) ↔ EndsInLimit cfg s.feed
  := by
  constructor
  · intro h
    by_contra hcond
    exact not_dataRule_plain hrcpt hcond (h .plain)
  · exact dataRule_of_endsInLimit

/-- A session that has sent the 354 reply, and the octets its peer sends next. -/
def afterGoAhead (w : Bytes) : Session Empty Unit :=
  { new (.small 0 (by decide)) ⟨⟨1, 1, 1, 1, 1⟩, 0, 0, 0⟩ false (Feed.items w) () with
    state := ⟨.smtp, .recipients, false, false, ascii "a"⟩
    transactionOpen := true
    recipients := [ascii "c"] }

theorem dataRule_iff_empty_message :
  (∀ env, DataRule (.small 0 (by decide)) env (afterGoAhead terminator))
    ↔ EndsInLimit (.small 0 (by decide)) (afterGoAhead terminator).feed
  := dataRule_iff _ _ (by decide)

/-- The octets `ab` CRLF `.` CR `x`, which fail beyond the limit of one octet, and a command
after them. -/
def smuggled : Bytes := [97, 98, cr, lf, dot, cr, 120] ++ ascii "QUIT" ++ crlf

/-- The stream is answered with 552 and the command decoded. -/
theorem not_dataRule_smuggled :
  ¬ DataRule (.small 0 (by decide)) .plain (afterGoAhead smuggled) ∧
    spoken ((afterGoAhead smuggled).proceed (.small 0 (by decide)) .plain 1).1.log =
      [.reply { code := 552, enhanced := ⟨5, 3, 4, []⟩, text := sizeExceededText },
        .decoded ⟨ascii "QUIT", []⟩,
        .reply { code := 221, enhanced := ⟨2, 0, 0, []⟩, text := ascii "b closing connection" }]
  := by
  have hlog : spoken ((afterGoAhead smuggled).proceed (.small 0 (by decide)) .plain 1).1.log =
      [.reply { code := 552, enhanced := ⟨5, 3, 4, []⟩, text := sizeExceededText },
        .decoded ⟨ascii "QUIT", []⟩,
        .reply { code := 221, enhanced := ⟨2, 0, 0, []⟩,
                 text := ascii "b closing connection" }] := by
    decide +kernel
  refine ⟨fun h => ?_, hlog⟩
  have hquiet := (h.failed (by decide +kernel) 1).2
  rw [hlog] at hquiet
  revert hquiet
  decide +kernel

end Session

end GoSmtp.Server
