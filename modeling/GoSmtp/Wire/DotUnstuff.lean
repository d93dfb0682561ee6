import GoSmtp.Wire.DotStuff

/-!
# What the dot-unstuffing reader delivers

`DotUnstuffReader.deliver` is the content the reader delivers in total from a feed, with
the state it ends in.  `DotUnstuffReader.meaning` shows that `Read` realises it
whatever the sizes of the buffers.
-/

namespace GoSmtp

namespace DotUnstuffReader

variable {φ : Type}

/-! ### The meaning -/

/-- The content delivered from a feed, the final state and the rest of the feed. -/
def deliver : DotUnstuffReader φ → Feed UInt8 φ → Bytes × DotUnstuffReader φ × Feed UInt8 φ
  | d, [] => ([], d.stop (normalizeReadErr .ended), [])
  | d, .fault e :: s => ([], d.stop (normalizeReadErr (.fault e)), s)
  | d, .item b :: s =>
    if d.atLineStart then
      if b == dot then
        match lineStartDot s with
        | (some e, s') => ([], d.stop e, s')
        | (none, _) => deliver { d with atLineStart := false } s
      else
        match deliver (d.after b) s with
        | (w, r) => (b :: w, r)
    else if d.previousCR && b == dot then
      match bareCRDot s with
      | (some e, s') => ([], d.stop e, s')
      | (none, _) =>
        match deliver (d.after b) s with
        | (w, r) => (b :: w, r)
    else
      match deliver (d.after b) s with
      | (w, r) => (b :: w, r)

theorem deliver_stopped (d : DotUnstuffReader φ) (s : Feed UInt8 φ) :
  (deliver d s).2.1.done = true ∧ ∃ e, (deliver d s).2.1.err = some e
  := by
  fun_induction deliver d s <;> simp_all [stop]

/-- The result `x` of filling a buffer that holds `p` and has room for `room` octets:
either the buffer is full and the new state delivers what is left, or the reader has
delivered everything and ended. -/
def Fills (room : Nat) (p : Bytes) (d : DotUnstuffReader φ) (s : Feed UInt8 φ)
    (x : ReadResult UInt8 (DotError φ) × DotUnstuffReader φ × Feed UInt8 φ) : Prop :=
  (∃ w d' s', x = (⟨p ++ w, none⟩, d', s') ∧ w.length = room ∧ d'.done = d.done ∧
      deliver d s = (w ++ (deliver d' s').1, (deliver d' s').2)) ∨
    ∃ w e r, deliver d s = (w, r) ∧ w.length < room ∧ r.1.err = some e ∧
      x = (⟨p ++ w, if (p ++ w).isEmpty then some e else none⟩, r)

theorem Fills.octet {room : Nat} {p : Bytes} {d : DotUnstuffReader φ} {b : UInt8} {s : Feed UInt8 φ}
    {x : ReadResult UInt8 (DotError φ) × DotUnstuffReader φ × Feed UInt8 φ}
    (hd : deliver d (.item b :: s) = (b :: (deliver (d.after b) s).1, (deliver (d.after b) s).2))
    (h : Fills room (p ++ [b]) (d.after b) s x) :
  Fills (room + 1) p d (.item b :: s) x
  := by
  rcases h with ⟨w, d', s', hx, hlen, hdone, hw⟩ | ⟨w, e, r, hw, hlen, herr, hx⟩
  · left
    refine ⟨b :: w, d', s', by simpa using hx, by simp [hlen], hdone, ?_⟩
    rw [hd, hw]
    rfl
  · right
    refine ⟨b :: w, e, r, ?_, by simpa using hlen, herr, by simpa using hx⟩
    rw [hd, hw]

theorem Fills.stop {room : Nat} {p : Bytes} {d : DotUnstuffReader φ} {s s' : Feed UInt8 φ}
    {e : DotError φ} (hd : deliver d s = ([], d.stop e, s')) :
  Fills (room + 1) p d s (d.fail p e s')
  := by
  right
  use [], e, (d.stop e, s'), hd
  simp [fail, DotUnstuffReader.stop]

theorem readLoop_fills (room : Nat) (p : Bytes) (d : DotUnstuffReader φ) (s : Feed UInt8 φ) :
  Fills room p d s (readLoop room p d s)
  := by
  fun_induction readLoop room p d s with
  | case1 p d s => exact Or.inl ⟨[], d, s, by simp⟩
  | case2 room p d => exact Fills.stop rfl
  | case3 room p d e s => exact Fills.stop rfl
  | case4 room p d b s hls hb e s' hdot =>
    apply Fills.stop
    simp [deliver, hls, hb, hdot]
  | case5 room p d b s hls hb s' hdot ih =>
    -- A stuffed dot is dropped: the call goes on with the same room.
    have hd : deliver d (.item b :: s) = deliver { d with atLineStart := false } s := by
      rw [deliver]
      simp [hls, hb, hdot]
    simpa only [Fills, hd] using ih
  | case6 room p d b s hls hb ih =>
    apply Fills.octet _ ih
    rw [deliver]
    simp [hls, hb]
  | case7 room p d b s hls hb e s' hdot =>
    apply Fills.stop
    simp [deliver, hls, hb, hdot]
  | case8 room p d b s hls hb s' hdot ih =>
    apply Fills.octet _ ih
    rw [deliver]
    simp [hls, hb, hdot]
  | case9 room p d b s hls hb ih =>
    apply Fills.octet _ ih
    rw [deliver]
    simp [hls, hb]

/-- The content still to be delivered, the error at its end and the final state. -/
def meaning : Reader.Meaning (reader (φ := φ)) where
  content s := if s.1.done then [] else (deliver s.1 s.2).1
  final s := if s.1.done then s.1.err.getD .eof else (deliver s.1 s.2).2.1.err.getD .eof
  last s := if s.1.done then s else (deliver s.1 s.2).2
  read_zero := by
    rintro ⟨d, s⟩
    by_cases hd : d.done <;> simp [reader, read, hd]
  read_done := by
    rintro n ⟨d, s⟩ hc
    by_cases hd : d.done
    · simp [reader, read, hd]
    · simp only [hd, Bool.false_eq_true, if_false] at hc
      rcases readLoop_fills (n + 1) [] d s with ⟨w, d', s', -, hlen, -, hw⟩ | ⟨w, e, r, hw, -, he, hx⟩
      · simp only [hw, List.append_eq_nil_iff] at hc
        simp [hc.1] at hlen
      · rw [hw] at hc
        subst hc
        simp [reader, read, hd, hx, hw, he]
  read_more := by
    rintro n ⟨d, s⟩ hc
    have hd : d.done = false := by
      by_contra hd
      simp [hd] at hc
    simp only [hd, Bool.false_eq_true, if_false] at hc
    rcases readLoop_fills (n + 1) [] d s with
      ⟨w, d', s', hx, hlen, hdone, hw⟩ | ⟨w, e, r, hw, -, he, hx⟩
    · use w, (d', s')
      have hne : w ≠ [] := List.ne_nil_of_length_eq_add_one hlen
      simp [reader, read, hd, hx, hw, hdone, hne]
    · rw [hw] at hc
      have hstop : r.1.done = true := by simpa [hw] using (deliver_stopped d s).1
      use w, r
      simp [reader, read, hd, hx, hw, hstop, he, hc]

theorem meaning_new (s : Feed UInt8 φ) :
  meaning.content (new, s) = (deliver new s).1 ∧
    some (meaning.final (new, s)) = (deliver new s).2.1.err ∧
    meaning.last (new, s) = (deliver new s).2
  := by
  obtain ⟨-, e, he⟩ := deliver_stopped new s
  and_intros
  · rfl
  · simp [meaning, new] at he ⊢
    simp [he]
  · rfl

/-- The buffers do not matter: two sequences of reads of positive sizes deliver the same content and
the same error at its end, and leave the same rest of the feed. -/
theorem drive_independent (s : Feed UInt8 φ) (sizes sizes' : Nat → Nat) (h : ∀ i, 0 < sizes i)
    (h' : ∀ i, 0 < sizes' i) :
  ∃ w e d rest k, ∀ m, k ≤ m →
    reader.drive ((List.range m).map sizes) (new, s) = (⟨w, some e⟩, d, rest) ∧
    reader.drive ((List.range m).map sizes') (new, s) = (⟨w, some e⟩, d, rest)
  := by
  refine ⟨meaning.content (new, s), meaning.final (new, s), (meaning.last (new, s)).1,
    (meaning.last (new, s)).2, (meaning.content (new, s)).length + 1, fun m hm => ?_⟩
  have hdrive (sizes : Nat → Nat) (h : ∀ i, 0 < sizes i) :
      reader.drive ((List.range m).map sizes) (new, s) =
        (⟨meaning.content (new, s), some (meaning.final (new, s))⟩, meaning.last (new, s)) := by
    apply meaning.drive_of_pos
    · intro n hn
      obtain ⟨i, -, rfl⟩ := List.mem_map.mp hn
      exact h i
    · rw [List.length_map, List.length_range]
      exact hm
  exact ⟨hdrive sizes h, hdrive sizes' h'⟩

/-- A smuggled end behind a bare CR, read octet by octet and all at once. -/
theorem drive_independent_smuggled :
  let s : Feed UInt8 Empty := Feed.items [120, cr, dot, cr, lf, 121]
  ∃ w e d rest k, ∀ m, k ≤ m →
    reader.drive ((List.range m).map fun _ => 1) (new, s) = (⟨w, some e⟩, d, rest) ∧
    reader.drive ((List.range m).map fun _ => 10) (new, s) = (⟨w, some e⟩, d, rest)
  := drive_independent _ (fun _ => 1) (fun _ => 10) (fun _ => by decide) fun _ => by decide

end DotUnstuffReader

end GoSmtp
