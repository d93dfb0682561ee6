import GoSmtp.Wire.DotUnstuff

/-!
# The end of the content

A mark of a received stream is a `.` that starts a line or follows a bare CR and is itself
followed by a line ending.  The dot-unstuffing reader ends at the first mark it reaches:
with the clean end of the content if the mark starts a line and is followed by CRLF, and
with an error otherwise.  A line starts after any LF, so a mark after a bare LF is taken
for the end of the content as well.
-/

namespace GoSmtp

variable {φ : Type}
variable {v w : Bytes} {e : DotError φ} {ns : List Nat}
variable {pre : Bytes} {post s s' : Feed UInt8 φ} {b : UInt8} {d : DotUnstuffReader φ}

/-! ### Marks -/

/-- A `.` after `pre` starts a line. -/
def StartsLine (pre : Bytes) : Prop := pre = [] ∨ [lf] <:+ pre

/-- The feed begins with the octets `w`. -/
def Begins (w : Bytes) (s : Feed UInt8 φ) : Prop := Feed.items w <+: s

/-- A `.` after `pre` and before `post` is a mark. -/
def Mark (pre : Bytes) (post : Feed UInt8 φ) : Prop :=
  (StartsLine pre ∧ (Begins [cr] post ∨ Begins [lf] post)) ∨
    ([cr] <:+ pre ∧ (Begins [lf] post ∨ Begins [cr, lf] post))

/-- After `pre` and before `post`, the octets `w` hold no mark. -/
def NoMark (pre w : Bytes) (post : Feed UInt8 φ) : Prop :=
  ∀ u v, w = u ++ dot :: v → ¬ Mark (pre ++ u) (Feed.items v ++ post)

/-- The first mark of the feed `s` is the `.` between `pre` and `post`. -/
structure FirstMark (s : Feed UInt8 φ) (pre : Bytes) (post : Feed UInt8 φ) : Prop where
  split : s = Feed.items pre ++ .item dot :: post
  mark : Mark pre post
  first : NoMark [] pre (.item dot :: post)

/-- The octets `pre` end with an LF that does not follow a CR. -/
def EndsBareLF (pre : Bytes) : Prop := [lf] <:+ pre ∧ ¬ crlf <:+ pre

/-- The octets `pre` end with a CR. -/
def EndsCR (pre : Bytes) : Prop := [cr] <:+ pre

theorem noMark_nil (pre : Bytes) (post : Feed UInt8 φ) :
  NoMark pre [] post
  := by
  intro u v h
  simp at h

theorem noMark_cons :
  NoMark pre (b :: w) post
    ↔ (b = dot → ¬ Mark pre (Feed.items w ++ post)) ∧ NoMark (pre ++ [b]) w post
  := by
  constructor
  · intro h
    constructor
    · rintro rfl
      simpa using h [] w rfl
    · rintro u v rfl
      simpa using h (b :: u) v rfl
  · rintro ⟨hb, hw⟩ u v huv
    match u with
    | [] =>
      simp only [List.nil_append, List.cons.injEq] at huv
      simpa [huv.2] using hb huv.1
    | c :: u =>
      simp only [List.cons_append, List.cons.injEq] at huv
      simpa [huv.1] using hw u v huv.2

namespace DotUnstuffReader

/-- The flags of the reader `d` are those of a reader that has consumed `pre`. -/
structure Tracks (d : DotUnstuffReader φ) (pre : Bytes) : Prop where
  atLineStart : d.atLineStart = true ↔ StartsLine pre
  previousCR : d.previousCR = true ↔ EndsCR pre

theorem startsLine_concat :
  StartsLine (pre ++ [b]) ↔ b = lf
  := by
  simp only [StartsLine, List.append_eq_nil_iff, List.cons_ne_nil, and_false, false_or]
  rw [List.singleton_suffix_append_singleton_iff, eq_comm]

theorem endsCR_concat :
  EndsCR (pre ++ [b]) ↔ b = cr
  := by
  rw [EndsCR, List.singleton_suffix_append_singleton_iff, eq_comm]

theorem not_endsCR_of_startsLine (h : StartsLine pre) :
  ¬ EndsCR pre
  := by
  rcases h with rfl | ⟨u, rfl⟩
  · simp [EndsCR]
  · rw [endsCR_concat]
    decide

theorem tracks_new :
  Tracks (new : DotUnstuffReader φ) []
  := by
  constructor <;> simp [new, StartsLine, EndsCR]

theorem Tracks.after (b : UInt8) :
  Tracks (d.after b) (pre ++ [b])
  := by
  constructor
  · simp [DotUnstuffReader.after, startsLine_concat]
  · simp [DotUnstuffReader.after, endsCR_concat]

theorem Tracks.dropDot (h : Tracks d pre) (hls : d.atLineStart = true) :
  Tracks { d with atLineStart := false } (pre ++ [dot])
  := by
  have hcr := not_endsCR_of_startsLine (h.atLineStart.mp hls)
  constructor
  · simp only [Bool.false_eq_true, startsLine_concat, false_iff]
    decide
  · simp only [endsCR_concat]
    rw [h.previousCR]
    constructor
    · intro h'
      exact absurd h' hcr
    · intro h'
      cases h'

/-! ### The verdict on a dot -/

theorem lineStartDot_eof (h : lineStartDot s = (some .eof, s')) :
  s = .item cr :: .item lf :: s'
  := by
  match s with
  | [] => cases h
  | .fault e :: s => cases h
  | .item b :: s =>
    by_cases hcr : b = cr
    · subst hcr
      match s with
      | [] => cases h
      | .fault e :: s => cases h
      | .item c :: s =>
        by_cases hlf : c = lf
        · subst hlf
          cases h
          rfl
        · simp [lineStartDot, Feed.peek, consumeTerminatorTail, Feed.next, hlf] at h
    · by_cases hlf : b = lf
      · subst hlf
        cases h
      · simp [lineStartDot, Feed.peek, hcr, hlf] at h

theorem lineStartDot_none (h : lineStartDot s = (none, s')) :
  ¬ Begins [cr] s ∧ ¬ Begins [lf] s
  := by
  constructor
  · rintro ⟨r, rfl⟩
    simp only [lineStartDot, Feed.items_cons, Feed.items_nil, List.cons_append, List.nil_append,
      Feed.peek, if_true] at h
    split at h <;> cases h
  · rintro ⟨r, rfl⟩
    cases h

theorem bareCRDot_ne_eof (h : bareCRDot s = (some e, s')) :
  e ≠ .eof
  := by
  rintro rfl
  revert h
  simp only [bareCRDot]
  repeat' split
  all_goals simp_all

theorem bareCRDot_none (h : bareCRDot s = (none, s')) :
  ¬ Begins [lf] s ∧ ¬ Begins [cr, lf] s
  := by
  constructor
  · rintro ⟨r, rfl⟩
    cases h
  · rintro ⟨r, rfl⟩
    cases h

/-! ### The reader stops at the first mark -/

/-- The reader passes over an octet that is not a mark, as long as an octet that is
neither CR nor LF is still to come. -/
theorem deliver_pass (h : Tracks d pre)
    (hb : b = dot → ¬ Mark pre (Feed.items v ++ .item dot :: post)) :
  ∃ w d', Tracks d' (pre ++ [b]) ∧
    deliver d (.item b :: (Feed.items v ++ .item dot :: post))
      = (w ++ (deliver d' (Feed.items v ++ .item dot :: post)).1,
          (deliver d' (Feed.items v ++ .item dot :: post)).2)
  := by
  generalize hs : (Feed.items v ++ .item dot :: post : Feed UInt8 φ) = s at hb ⊢
  by_cases hls : d.atLineStart = true
  · by_cases hdot : b = dot
    · have hnone : lineStartDot s = (none, s) := by
        have hm := not_or.mp fun hx => hb hdot (Or.inl ⟨h.atLineStart.mp hls, hx⟩)
        cases v with
        | nil => subst hs; rfl
        | cons c v =>
          have hcr : c ≠ cr := fun hc => hm.1 (by simp [← hs, hc, Begins])
          have hlf : c ≠ lf := fun hc => hm.2 (by simp [← hs, hc, Begins])
          simp [← hs, lineStartDot, Feed.peek, hcr, hlf]
      use [], { d with atLineStart := false }
      constructor
      · rw [hdot]
        exact h.dropDot hls
      · rw [deliver]
        simp [hls, hdot, hnone]
    · use [b], d.after b, Tracks.after b
      rw [deliver]
      simp [hls, hdot]
  · by_cases hcrdot : d.previousCR = true ∧ b = dot
    · have hnone : bareCRDot s = (none, s) := by
        have hm := not_or.mp fun hx => hb hcrdot.2 (Or.inr ⟨h.previousCR.mp hcrdot.1, hx⟩)
        cases v with
        | nil => subst hs; rfl
        | cons c v =>
          have hlf : c ≠ lf := fun hc => hm.1 (by simp [← hs, hc, Begins])
          by_cases hcr : c = cr
          · subst hcr
            cases v with
            | nil => subst hs; rfl
            | cons c' v =>
              have hlf' : c' ≠ lf := fun hc => hm.2 (by simp [← hs, hc, Begins])
              simp [← hs, bareCRDot, Feed.peek, hlf, hlf']
          · simp [← hs, bareCRDot, Feed.peek, hcr, hlf]
      use [b], d.after b, Tracks.after b
      rw [deliver]
      simp [hls, hcrdot, hnone]
    · use [b], d.after b, Tracks.after b
      rw [deliver]
      simp [hls, hcrdot]

theorem deliver_reach (h : Tracks d pre) (hv : NoMark pre v (.item dot :: post)) :
  ∃ w d', Tracks d' (pre ++ v) ∧
    deliver d (Feed.items v ++ .item dot :: post)
      = (w ++ (deliver d' (.item dot :: post)).1, (deliver d' (.item dot :: post)).2)
  := by
  induction v generalizing pre d with
  | nil => exact ⟨[], d, by simpa using h, by simp⟩
  | cons b v ih =>
    obtain ⟨hb, hv⟩ := noMark_cons.mp hv
    obtain ⟨w, d', hd', hw⟩ := deliver_pass h hb
    obtain ⟨w', d'', hd'', hw'⟩ := ih hd' hv
    use w ++ w', d''
    constructor
    · simpa using hd''
    · simp only [Feed.items_cons, List.cons_append]
      rw [hw, hw']
      simp

theorem deliver_firstMark (h : FirstMark s pre post) :
  ∃ e r, (deliver new s).2.1.err = some e ∧ (deliver new s).2.2 = r ∧
    ((StartsLine pre ∧ lineStartDot post = (some e, r)) ∨
      (EndsCR pre ∧ bareCRDot post = (some e, r)))
  := by
  obtain ⟨w, d, hd, hw⟩ := deliver_reach tracks_new h.first
  rw [List.nil_append] at hd
  rw [h.split, hw]
  rcases h.mark with ⟨hsl, hpost⟩ | ⟨hcr, hpost⟩
  · have hls := hd.atLineStart.mpr hsl
    match hv : lineStartDot post with
    | (none, _) => exact absurd hpost (not_or.mpr (lineStartDot_none hv))
    | (some e, r) =>
      use e, r
      simp [deliver, hls, hv, stop, hsl]
  · have hls : d.atLineStart = false := by
      by_contra hls
      exact not_endsCR_of_startsLine (hd.atLineStart.mp (by simpa using hls)) hcr
    match hv : bareCRDot post with
    | (none, _) => exact absurd hpost (not_or.mpr (bareCRDot_none hv))
    | (some e, r) =>
      use e, r
      simp [deliver, hls, hd.previousCR.mpr hcr, hv, stop, show EndsCR pre from hcr]

/-- The feed `s` consists of octets without a mark, of a mark that starts a line and is
followed by CRLF, and of `r`; `pre` comes before it. -/
def EndsCleanly (pre : Bytes) (s r : Feed UInt8 φ) : Prop :=
  ∃ w, StartsLine (pre ++ w) ∧ s = Feed.items w ++ (Feed.items terminator ++ r) ∧
    NoMark pre w (Feed.items terminator ++ r)

theorem EndsCleanly.octet {r : Feed UInt8 φ}
    (hb : b = dot → ¬ Mark pre s) (h : EndsCleanly (pre ++ [b]) s r) :
  EndsCleanly pre (.item b :: s) r
  := by
  obtain ⟨w, hw, rfl, hno⟩ := h
  use b :: w
  and_intros
  · simpa using hw
  · rfl
  · exact noMark_cons.mpr ⟨hb, hno⟩

/-- A reader that has consumed `pre` reports the clean end only if the feed ends
cleanly. -/
theorem endsCleanly_of_deliver (hd : Tracks d pre) (h : (deliver d s).2.1.err = some .eof) :
  EndsCleanly pre s (deliver d s).2.2
  := by
  fun_induction deliver d s generalizing pre with
  | case1 d => simp [stop, normalizeReadErr] at h
  | case2 d e s => simp [stop, normalizeReadErr] at h
  | case3 d b s hls hb e s' hdot =>
    simp only [stop, Option.some.injEq] at h
    subst h
    rw [beq_iff_eq] at hb
    rw [lineStartDot_eof hdot, hb]
    exact ⟨[], by simpa using hd.atLineStart.mp hls, rfl, noMark_nil _ _⟩
  | case4 d b s hls hb s' hdot ih =>
    rw [beq_iff_eq] at hb
    subst hb
    apply EndsCleanly.octet _ (ih (hd.dropDot hls) h)
    intro _ hm
    rcases hm with ⟨-, hm⟩ | ⟨hcr, -⟩
    · exact absurd hm (not_or.mpr (lineStartDot_none hdot))
    · exact not_endsCR_of_startsLine (hd.atLineStart.mp hls) hcr
  | case5 d b s hls hb w r hr ih =>
    rw [hr] at ih
    apply EndsCleanly.octet _ (ih (Tracks.after b) h)
    rintro rfl
    simp at hb
  | case6 d b s hls hb e s' hdot =>
    simp only [stop, Option.some.injEq] at h
    exact absurd h (bareCRDot_ne_eof hdot)
  | case7 d b s hls hb s' hdot w r hr ih =>
    rw [hr] at ih
    apply EndsCleanly.octet _ (ih (Tracks.after b) h)
    intro _ hm
    rcases hm with ⟨hsl, -⟩ | ⟨-, hm⟩
    · exact hls (hd.atLineStart.mpr hsl)
    · exact absurd hm (not_or.mpr (bareCRDot_none hdot))
  | case8 d b s hls hb w r hr ih =>
    rw [hr] at ih
    apply EndsCleanly.octet _ (ih (Tracks.after b) h)
    rintro rfl hm
    rcases hm with ⟨hsl, -⟩ | ⟨hcr, -⟩
    · exact hls (hd.atLineStart.mpr hsl)
    · exact hb (by simp [hd.previousCR.mpr hcr])

/-- The clean end of the content is at the first mark, which starts a line and is followed
by CRLF. -/
theorem deliver_eof (h : (deliver new s).2.1.err = some .eof) :
  ∃ pre, StartsLine pre ∧
    FirstMark s pre (.item cr :: .item lf :: (deliver new s).2.2)
  := by
  obtain ⟨pre, hpre, hs, hno⟩ := endsCleanly_of_deliver tracks_new h
  use pre, hpre
  constructor
  · simpa [terminator] using hs
  · left
    exact ⟨hpre, Or.inl (by simp [Begins])⟩
  · exact hno

theorem deliver_length_le (d : DotUnstuffReader φ) (s : Feed UInt8 φ) :
  (deliver d s).1.length ≤ s.length
  := by
  fun_induction deliver d s <;> (simp_all; try omega)

theorem drive_new (s : Feed UInt8 φ) (hpos : ∀ n ∈ ns, 0 < n) (hlen : s.length < ns.length) :
  ∃ e, (deliver new s).2.1.err = some e ∧
    reader.drive ns (new, s) = (⟨(deliver new s).1, some e⟩, (deliver new s).2)
  := by
  obtain ⟨hc, hf, hl⟩ := meaning_new s
  use meaning.final (new, s), hf.symm
  rw [← hc, ← hl]
  apply meaning.drive_of_pos hpos
  rw [hc]
  exact Nat.lt_of_le_of_lt (deliver_length_le new s) hlen

theorem drive_new_some {t : DotUnstuffReader φ × Feed UInt8 φ}
    (h : reader.drive ns (new, s) = (⟨w, some e⟩, t)) :
  w = (deliver new s).1 ∧ (deliver new s).2.1.err = some e ∧ t = (deliver new s).2
  := by
  obtain ⟨hc, hf, hl⟩ := meaning_new s
  obtain ⟨hw, he, ht⟩ := meaning.drive_some h
  exact ⟨hw.trans hc, by rw [← hf, he], ht.trans hl⟩

/-! ### The rule for the end of the content -/

/-- The rule for the end of the content of the stream `s`. -/
structure EndRule (s : Feed UInt8 φ) : Prop where
  /-- The clean end is reported only once `.` CRLF or CRLF `.` CRLF has been consumed. -/
  clean : ∀ ns w t, reader.drive ns (new, s) = (⟨w, some .eof⟩, t) →
    ∃ consumed, s = Feed.items consumed ++ t.2 ∧
      (consumed = terminator ∨ crlf ++ terminator <:+ consumed)
  /-- A dot line after a bare LF or a bare CR is an error. -/
  bare : ∀ pre post, FirstMark s pre post → EndsBareLF pre ∨ EndsCR pre →
    Begins crlf post ∨ Begins [lf] post → ∀ ns, (∀ n ∈ ns, 0 < n) → s.length < ns.length →
    ∃ w e t, reader.drive ns (new, s) = (⟨w, some e⟩, t) ∧ e ≠ .eof

theorem startsLine_of_endsBareLF (h : EndsBareLF pre) :
  StartsLine pre
  := Or.inr h.1

/-- The rule holds of a stream exactly if its first mark is not a `.` CRLF after a bare
LF. -/
theorem endRule_iff (s : Feed UInt8 φ) :
  EndRule s ↔ ¬ ∃ pre r, EndsBareLF pre ∧ FirstMark s pre (.item cr :: .item lf :: r)
  := by
  constructor
  · rintro hrule ⟨pre, r, hbare, hmark⟩
    have hsl := startsLine_of_endsBareLF hbare
    obtain ⟨e, r', he, hr', hv⟩ := deliver_firstMark hmark
    have hdot : lineStartDot (.item cr :: .item lf :: r) = (some (.eof : DotError φ), r) := rfl
    rcases hv with ⟨-, hv⟩ | ⟨hcr, -⟩
    · rw [hdot] at hv
      cases hv
      have hpos : ∀ n ∈ List.replicate (s.length + 1) 1, 0 < n := by simp
      obtain ⟨e, he', hdrive⟩ := drive_new s hpos (by simp)
      rw [he'] at he
      cases he
      obtain ⟨consumed, hs, hcons⟩ := hrule.clean _ _ _ hdrive
      have heq : consumed = pre ++ terminator := by
        apply Feed.items_injective (φ := φ)
        apply List.append_cancel_right
        rw [← hs, hr']
        simpa [terminator] using hmark.split
      rcases hcons with h | h
      · rw [heq, List.append_left_eq_self] at h
        simp [h, EndsBareLF] at hbare
      · rw [heq] at h
        exact hbare.2 ((List.suffix_append_inj_of_length_eq rfl).mp h).1
    · exact not_endsCR_of_startsLine hsl hcr
  · intro hno
    constructor
    · intro ns w t h
      obtain ⟨-, he, rfl⟩ := drive_new_some h
      obtain ⟨pre, hpre, hmark⟩ := deliver_eof he
      use pre ++ terminator
      constructor
      · simpa [terminator] using hmark.split
      · rcases hpre with rfl | hlf
        · exact Or.inl rfl
        · right
          have hcrlf : crlf <:+ pre := by
            by_contra h
            exact hno ⟨pre, _, ⟨hlf, h⟩, hmark⟩
          obtain ⟨u, rfl⟩ := hcrlf
          exact ⟨u, by simp⟩
    · intro pre post hmark hbare hline ns hpos hlen
      obtain ⟨e, he, hdrive⟩ := drive_new _ hpos hlen
      refine ⟨_, e, _, hdrive, ?_⟩
      rintro rfl
      obtain ⟨e, r, he', -, hv⟩ := deliver_firstMark hmark
      rw [he] at he'
      cases he'
      rcases hv with ⟨hsl, hv⟩ | ⟨-, hv⟩
      · rcases hbare with hbare | hcr
        · rw [lineStartDot_eof hv] at hmark
          exact hno ⟨pre, r, hbare, hmark⟩
        · exact not_endsCR_of_startsLine hsl hcr
      · exact bareCRDot_ne_eof hv rfl

/-- A dot line after a bare LF ends the content of `a` LF `.` CRLF. -/
theorem not_endRule_bareLF :
  ¬ EndRule (Feed.items [97, lf, dot, cr, lf] : Feed UInt8 Empty)
  := by
  intro h
  obtain ⟨consumed, hs, hc⟩ := h.clean [4, 4] [97, lf] _ rfl
  have hcons : consumed = [97, lf, dot, cr, lf] := by
    apply Feed.items_injective (φ := Empty)
    simpa [Feed.items] using hs.symm
  rw [hcons] at hc
  revert hc
  decide

end DotUnstuffReader

end GoSmtp
