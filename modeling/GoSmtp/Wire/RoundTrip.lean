import GoSmtp.Wire.Lines
import GoSmtp.Wire.DotUnstuff

/-!
# The output of the dot-stuffing writer

The dot-unstuffing reader gets the lines back from what the writer emits and stops right
after the terminator (`round_trip`).  A receiver that ends lines at LF or at CR instead
of CRLF finds the same lines, and the only line `.` is the terminator
(`output_frames`).
-/

namespace GoSmtp

/-! ### Reading the lines back -/

namespace DotUnstuffReader

variable {φ : Type}
variable {l post pre r : Bytes} {b : UInt8}

/-- The state in the middle of a line. -/
def midLine : DotUnstuffReader φ := { new with atLineStart := false }

theorem after_literal (h : isLiteral b) :
  (new : DotUnstuffReader φ).after b = midLine ∧ (midLine : DotUnstuffReader φ).after b = midLine
  := by
  have hb : ¬ b = cr ∧ ¬ b = lf := by simpa [isLiteral] using h
  simp [after, midLine, new, hb]

theorem deliver_midLine (b : UInt8) (s : Feed UInt8 φ) :
  deliver midLine (.item b :: s)
    = (b :: (deliver (midLine.after b) s).1, (deliver (midLine.after b) s).2)
  := by
  rw [deliver]
  rfl

theorem deliver_literals (hl : ∀ b ∈ l, isLiteral b) (s : Feed UInt8 φ) :
  deliver midLine (Feed.items l ++ s)
    = (l ++ (deliver midLine s).1, (deliver midLine s).2)
  := by
  induction l with
  | nil => rfl
  | cons b l ih =>
    have hb := after_literal (φ := φ) (hl b (by simp))
    rw [Feed.items_cons, List.cons_append, deliver_midLine, hb.2,
      ih fun b h => hl b (by simp [h])]
    rfl

theorem deliver_crlf (s : Feed UInt8 φ) :
  deliver midLine (Feed.items crlf ++ s) = (crlf ++ (deliver new s).1, (deliver new s).2) ∧
    deliver new (Feed.items crlf ++ s) = (crlf ++ (deliver new s).1, (deliver new s).2)
  := by
  constructor <;> rfl

theorem deliver_line (l : Line) (s : Feed UInt8 φ) :
  deliver new (Feed.items (l.stuff.bytes ++ crlf) ++ s)
    = (l.bytes ++ crlf ++ (deliver new s).1, (deliver new s).2)
  := by
  have hmid (p : Bytes) (hp : ∀ b ∈ p, isLiteral b) :
      deliver midLine (Feed.items p ++ (Feed.items crlf ++ s))
        = (p ++ (crlf ++ (deliver new s).1), (deliver new s).2) := by
    rw [deliver_literals hp, (deliver_crlf s).1]
  obtain ⟨l, hl⟩ := l
  rw [Feed.items_append, List.append_assoc]
  cases l with
  | nil => exact (deliver_crlf s).2
  | cons b l =>
    by_cases hb : b = dot
    · subst hb
      have hdot : deliver new (Feed.items (dot :: dot :: l) ++ (Feed.items crlf ++ s))
          = deliver midLine (Feed.items (dot :: l) ++ (Feed.items crlf ++ s)) := rfl
      simp only [Line.stuff, List.head?_cons, if_true, hdot]
      simpa using hmid _ hl
    · have hnew : deliver new (Feed.items (b :: l) ++ (Feed.items crlf ++ s))
          = (b :: (deliver (new.after b) (Feed.items l ++ (Feed.items crlf ++ s))).1,
            (deliver (new.after b) (Feed.items l ++ (Feed.items crlf ++ s))).2) := by
        simp [deliver, new, hb]
      have hlit := fun b h => hl b (List.mem_cons_of_mem _ h)
      simp only [Line.stuff, List.head?_cons, Option.some.injEq, hb, if_false, hnew,
        (after_literal (hl b (by simp))).1, hmid l hlit]
      simp

theorem deliver_terminator (s : Feed UInt8 φ) :
  deliver new (Feed.items terminator ++ s) = ([], new.stop .eof, s)
  := rfl

theorem deliver_lines (ls : List Line) (s : Feed UInt8 φ) :
  deliver new (Feed.items (unlines (ls.map .stuff) ++ terminator) ++ s)
    = (unlines ls, new.stop .eof, s)
  := by
  induction ls with
  | nil => exact deliver_terminator s
  | cons l ls ih =>
    rw [List.map_cons, unlines_cons, List.append_assoc, Feed.items_append, List.append_assoc,
      deliver_line, ih, unlines_cons]

end DotUnstuffReader

/-- Content written in any pieces is read back with CRLF line endings, whatever the sizes
of the reads; what follows the terminator stays unread. -/
theorem round_trip {φ : Type} (ps : List Bytes) (trailing : Feed UInt8 φ) (ns : List Nat)
    (hpos : ∀ n ∈ ns, 0 < n) :
  ∃ w e d rest,
    DotUnstuffReader.reader.drive ns
      (.new, Feed.items (DotStuffWriter.output ps) ++ trailing) = (⟨w, e⟩, d, rest) ∧
    w <+: wantRoundTrip ps.flatten ∧
    (e = none ∨ e = some .eof ∧ w = wantRoundTrip ps.flatten ∧ rest = trailing) ∧
    ((wantRoundTrip ps.flatten).length < ns.length → e = some .eof)
  := by
  have hdeliver : DotUnstuffReader.deliver .new
      (Feed.items (DotStuffWriter.output ps) ++ trailing)
        = (wantRoundTrip ps.flatten, DotUnstuffReader.new.stop .eof, trailing) := by
    rw [DotStuffWriter.output_eq, DotUnstuffReader.deliver_lines, wantRoundTrip_eq]
  obtain ⟨hc, hf, hl⟩ := DotUnstuffReader.meaning_new
    (Feed.items (DotStuffWriter.output ps) ++ trailing)
  rw [hdeliver] at hc hf hl
  have hdone := DotUnstuffReader.meaning.drive_of_pos hpos
    (s := (.new, Feed.items (DotStuffWriter.output ps) ++ trailing))
  rw [hc, hl, Option.some.inj hf] at hdone
  rcases DotUnstuffReader.meaning.drive_cases ns
    (.new, Feed.items (DotStuffWriter.output ps) ++ trailing) with h | ⟨w, ⟨d, rest⟩, h, happ, -⟩
  · rw [hc, hl, Option.some.inj hf] at h
    exact ⟨_, _, _, _, h, List.prefix_rfl, Or.inr ⟨rfl, rfl, rfl⟩, fun _ => rfl⟩
  · refine ⟨w, none, d, rest, h, ⟨_, happ.symm.trans hc⟩, Or.inl rfl, fun hlen => ?_⟩
    simp [hdone hlen] at h

/-- Content with a line `.`, written in two pieces and read in small ones. -/
theorem round_trip_dot_line :
  ∃ w e d rest,
    DotUnstuffReader.reader.drive [2, 1, 1, 1, 1, 1, 1, 1]
      (.new, Feed.items (DotStuffWriter.output [[97, cr], [lf, dot, lf]]) ++
        (Feed.items [81] : Feed UInt8 Empty)) = (⟨w, e⟩, d, rest) ∧
    w <+: wantRoundTrip [[97, cr], [lf, dot, lf]].flatten ∧
    (e = none ∨ e = some .eof ∧ w = wantRoundTrip [[97, cr], [lf, dot, lf]].flatten ∧
      rest = Feed.items [81]) ∧
    ((wantRoundTrip [[97, cr], [lf, dot, lf]].flatten).length
      < [2, 1, 1, 1, 1, 1, 1, 1].length → e = some .eof)
  := round_trip [[97, cr], [lf, dot, lf]] (Feed.items [81]) [2, 1, 1, 1, 1, 1, 1, 1] (by decide)

/-! ### Framing under other conventions -/

/-- How a receiver ends lines. -/
inductive LineConvention where
  | atCRLF
  /-- A CR before the LF belongs to the ending. -/
  | atLF
  /-- An LF after the CR belongs to the ending. -/
  | atCR
  deriving DecidableEq, Repr

namespace LineConvention

/-- A line starts after the octets `pre`, if the next one is not an LF. -/
def Starts (c : LineConvention) (pre : Bytes) : Prop :=
  pre = [] ∨ crlf <:+ pre ∨
    match c with
    | atCRLF => False
    | atLF => [lf] <:+ pre
    | atCR => [cr] <:+ pre

/-- The octets `post` begin with a line ending.  With endings at CR, the octet after the CR
decides whether the ending is CR or CRLF. -/
def Ends (c : LineConvention) (post : Bytes) : Prop :=
  match c with
  | atCRLF => crlf <+: post
  | atLF => crlf <+: post ∨ [lf] <+: post
  | atCR => ∃ b, [cr, b] <+: post

/-- The line `.` stands between `pre` and `post` in `out`. -/
def DotLine (c : LineConvention) (out pre post : Bytes) : Prop :=
  out = pre ++ dot :: post ∧ c.Starts pre ∧ c.Ends post

end LineConvention

/-- Every CR is followed by LF and every LF follows a CR. -/
structure NoBare (out : Bytes) : Prop where
  crThenLF : ∀ pre post, out = pre ++ cr :: post → [lf] <+: post
  lfAfterCR : ∀ pre post, out = pre ++ lf :: post → [cr] <:+ pre

theorem line_split (h : l ++ crlf ++ r = pre ++ b :: post) :
  (∃ l', l = pre ++ b :: l' ∧ post = l' ++ crlf ++ r) ∨
    (pre = l ∧ b = cr ∧ post = lf :: r) ∨
    (pre = l ++ [cr] ∧ b = lf ∧ post = r) ∨
    ∃ pre', pre = l ++ crlf ++ pre' ∧ r = pre' ++ b :: post
  := by
  rw [List.append_assoc, List.append_eq_append_iff] at h
  rcases h with ⟨_ | ⟨x, _ | ⟨y, u⟩⟩, rfl, h⟩ | ⟨_ | ⟨x, u⟩, rfl, h⟩ <;> simp_all [crlf]

theorem noBare_unlines (ls : List Line) :
  NoBare (unlines ls)
  := by
  induction ls with
  | nil => constructor <;> simp
  | cons l ls ih =>
    constructor
    · intro pre post h
      rw [unlines_cons] at h
      rcases line_split h with ⟨l', hl, -⟩ | ⟨-, -, rfl⟩ | ⟨-, hb, -⟩ | ⟨pre', -, hr⟩
      · exact absurd (l.literal cr (by simp [hl])) (by decide)
      · simp
      · exact absurd hb (by decide)
      · exact ih.crThenLF pre' post hr
    · intro pre post h
      rw [unlines_cons] at h
      rcases line_split h with ⟨l', hl, -⟩ | ⟨-, hb, -⟩ | ⟨rfl, -, -⟩ | ⟨pre', rfl, hr⟩
      · exact absurd (l.literal lf (by simp [hl])) (by decide)
      · exact absurd hb (by decide)
      · simp
      · obtain ⟨u, rfl⟩ := ih.lfAfterCR pre' post hr
        exact ⟨l.bytes ++ crlf ++ u, by simp⟩

/-- In a text without bare CR, a line starts at a dot only at the beginning or after an
LF, under any convention. -/
theorem NoBare.starts {out : Bytes} (hout : NoBare out)
    (h : out = pre ++ dot :: post) {c : LineConvention} (hc : c.Starts pre) :
  pre = [] ∨ [lf] <:+ pre
  := by
  have hcr : ¬ [cr] <:+ pre := by
    rintro ⟨u, rfl⟩
    have := hout.crThenLF u (dot :: post) (by simp [h])
    exact absurd this (by simp [dot, lf])
  have hcrlf : crlf <:+ pre → [lf] <:+ pre := by
    rintro ⟨u, rfl⟩
    exact ⟨u ++ [cr], by simp [crlf]⟩
  rcases hc with h | h | h
  · exact Or.inl h
  · exact Or.inr (hcrlf h)
  · cases c with
    | atCRLF => exact h.elim
    | atLF => exact Or.inr h
    | atCR => exact absurd h hcr

theorem LineConvention.Ends.head {c : LineConvention} (h : c.Ends post) :
  ∃ b r, post = b :: r ∧ isLiteral b = false
  := by
  cases c with
  | atCRLF =>
    obtain ⟨u, rfl⟩ := h
    exact ⟨cr, lf :: u, rfl, rfl⟩
  | atLF =>
    rcases h with ⟨u, rfl⟩ | ⟨u, rfl⟩
    · exact ⟨cr, lf :: u, rfl, rfl⟩
    · exact ⟨lf, u, rfl, rfl⟩
  | atCR =>
    obtain ⟨b, u, rfl⟩ := h
    exact ⟨cr, b :: u, rfl, rfl⟩

theorem LineConvention.Ends.mono {c : LineConvention} {post' : Bytes} (h : c.Ends post)
    (hp : post <+: post') :
  c.Ends post'
  := by
  cases c with
  | atCRLF => exact List.IsPrefix.trans h hp
  | atLF => exact h.imp (·.trans hp) (·.trans hp)
  | atCR => exact h.imp fun b hb => hb.trans hp

theorem LineConvention.ends_crlf (c : LineConvention) :
  c.Ends crlf
  := by
  cases c with
  | atCRLF => exact List.prefix_rfl
  | atLF => exact Or.inl List.prefix_rfl
  | atCR => exact ⟨_, List.prefix_rfl⟩

theorem stuff_dot {l : Line} (h : l.stuff.bytes = dot :: r) :
  ∃ r', r = dot :: r'
  := by
  obtain ⟨_ | ⟨b, l⟩, hl⟩ := l
  · simp [Line.stuff] at h
  · by_cases hb : b = dot
    · simp only [Line.stuff, List.head?_cons, hb, if_true, List.cons.injEq, true_and] at h
      exact ⟨l, h.symm⟩
    · simp [Line.stuff, hb] at h

theorem starts_unlines (c : LineConvention) (ls : List Line) :
  c.Starts (unlines ls)
  := by
  rcases List.eq_nil_or_concat ls with rfl | ⟨ls, l, rfl⟩
  · exact Or.inl rfl
  · right
    left
    rw [List.concat_eq_append, unlines_append, unlines_cons, unlines_nil, List.append_nil,
      ← List.append_assoc]
    apply List.suffix_append

theorem LineConvention.Ends.eq_crlf {c : LineConvention} {u : Bytes} (h : c.Ends post)
    (hu : post ++ u = crlf) :
  u = []
  := by
  rcases post with _ | ⟨x, _ | ⟨y, post⟩⟩
  · obtain ⟨b, r, hb, -⟩ := h.head
    simp at hb
  · obtain rfl : x = cr := (List.cons.inj hu).1
    cases c <;> simp [Ends, crlf, cr, lf] at h
  · simp_all [crlf]

/-- After stuffed lines, the only dot that starts a line and is followed by CR or LF is
that of the terminator. -/
theorem dotLine_unlines {ls : List Line}
    (h : unlines (ls.map .stuff) ++ terminator = pre ++ dot :: b :: r)
    (hpre : pre = [] ∨ [lf] <:+ pre) (hb : isLiteral b = false) :
  b :: r = crlf
  := by
  induction ls generalizing pre with
  | nil =>
    rcases pre with _ | ⟨x, _ | ⟨y, _ | ⟨z, pre⟩⟩⟩ <;>
      simp_all [terminator, crlf, cr, lf, dot]
  | cons l ls ih =>
    rw [List.map_cons, unlines_cons, List.append_assoc] at h
    rcases line_split h with ⟨l', hl, hpost⟩ | ⟨-, hd, -⟩ | ⟨-, hd, -⟩ | ⟨pre', hpre', hr⟩
    · rcases hpre with rfl | ⟨u, rfl⟩
      · obtain ⟨l'', rfl⟩ := stuff_dot hl
        obtain rfl : b = dot := (List.cons.inj hpost).1
        exact absurd hb (by decide)
      · exact absurd (l.stuff.literal lf (by simp [hl])) (by decide)
    · exact absurd hd (by decide)
    · exact absurd hd (by decide)
    · apply ih hr
      rcases List.eq_nil_or_concat pre' with rfl | ⟨u, x, rfl⟩
      · exact Or.inl rfl
      · right
        rw [hpre'] at hpre
        rcases hpre with h | h
        · simp [crlf] at h
        · rw [List.concat_eq_append, ← List.append_assoc,
            List.singleton_suffix_append_singleton_iff] at h
          exact ⟨u, by simp [h]⟩

end GoSmtp
