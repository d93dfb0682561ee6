import GoSmtp.Client.Conn

/-!
# Content sources

The reader that a caller passes to `Client.Data`, as the sequence of what its calls of
`Read` report, and `io.ReadFull` on it.
-/

namespace GoSmtp.Client

variable {φ : Type}
variable {n : Nat} {w : Bytes} {e : Option (SourceError φ)}

/-- Octets that the source makes available at once, and the error that it reports together
with the last of them. -/
structure Segment (φ : Type) where
  octets : Bytes
  err : Option (SourceError φ)
  deriving DecidableEq, Repr

/-- The segments still to be read.  After the last one the source reports `io.EOF`. -/
abbrev Source (φ : Type) := List (Segment φ)

namespace Source

/-- The source after it has reported `io.EOF` has ended; other errors do not end it. -/
def after (rest : Source φ) : Option (SourceError φ) → Source φ
  | some .eof => []
  | _ => rest

/-- `Read` with a buffer of `n` octets. -/
def read (n : Nat) : Source φ → Bytes × Option (SourceError φ) × Source φ
  | [] => ([], some .eof, [])
  | seg :: rest =>
    if seg.octets.length ≤ n then (seg.octets, seg.err, after rest seg.err)
    else (seg.octets.take n, none, ⟨seg.octets.drop n, seg.err⟩ :: rest)

/-- The calls of `Read` in `io.ReadFull`, each with the `n` octets that are left of the
buffer, until it is full or an error is reported. -/
def fill (n : Nat) : Source φ → Bytes × Option (SourceError φ) × Source φ
  | [] => if n = 0 then ([], none, []) else ([], some .eof, [])
  | seg :: rest =>
    if n = 0 then ([], none, seg :: rest)
    else if seg.octets.length ≤ n then
      match seg.err with
      | some e => (seg.octets, some e, after rest (some e))
      | none =>
        match fill (n - seg.octets.length) rest with
        | (w, e, s) => (seg.octets ++ w, e, s)
    else (seg.octets.take n, none, ⟨seg.octets.drop n, seg.err⟩ :: rest)

/-- `io.ReadFull` with a buffer of `n` octets.  An error that comes with the octets that
fill the buffer is dropped, and `io.EOF` inside of the buffer is reported as
`io.ErrUnexpectedEOF`. -/
def readFull (n : Nat) (s : Source φ) : Bytes × Option (SourceError φ) × Source φ :=
  match fill n s with
  | (w, e, s) =>
    if w.length ≥ n then (w, none, s)
    else
      match e with
      | some .eof => (w, some (if w.isEmpty then .eof else .unexpectedEOF), s)
      | e => (w, e, s)

/-- A bound for the number of calls of `Read`. -/
def size (s : Source φ) : Nat := (s.map fun seg => seg.octets.length + 1).sum

/-- The first error that the source reports. -/
def firstError : Source φ → SourceError φ
  | [] => .eof
  | seg :: rest => seg.err.getD (firstError rest)

/-! ### Progress -/

@[simp]
theorem size_cons (seg : Segment φ) (rest : Source φ) :
  size (seg :: rest) = seg.octets.length + 1 + size rest
  := by
  simp [size]

theorem size_after (rest : Source φ) (e : Option (SourceError φ)) :
  size (after rest e) ≤ size rest
  := by
  unfold after
  split
  · exact Nat.zero_le _
  · exact Nat.le_refl _

/-- A `Read` without an error comes closer to the end of the source, and to the same
error. -/
theorem read_progress (hn : 0 < n) {s rest : Source φ} (h : s.read n = (w, none, rest)) :
  rest.size < s.size ∧ rest.firstError = s.firstError
  := by
  cases s with
  | nil => cases h
  | cons seg s =>
    obtain ⟨octets, err⟩ := seg
    simp only [read] at h
    split at h
    · cases h
      simp only [size_cons, firstError]
      exact ⟨Nat.lt_add_of_pos_left (Nat.succ_pos _), rfl⟩
    · cases h
      simp only [size_cons, firstError, List.length_drop]
      exact ⟨by omega, trivial⟩

theorem read_error {s rest : Source φ} {e : SourceError φ} (h : s.read n = (w, some e, rest)) :
  s.firstError = e
  := by
  cases s with
  | nil =>
    cases h
    rfl
  | cons seg s =>
    obtain ⟨octets, err⟩ := seg
    simp only [read] at h
    split at h
    · cases h
      rfl
    · cases h

/-- The octets that are read are gone from the source, and without an error they fill the
buffer. -/
theorem fill_progress {s rest : Source φ} (h : fill n s = (w, e, rest)) :
  w.length ≤ n ∧ rest.size + w.length ≤ s.size ∧ (e = none → w.length = n)
  := by
  induction s generalizing n w with
  | nil =>
    simp only [fill] at h
    split at h <;> cases h <;> simp_all
  | cons seg s ih =>
    obtain ⟨octets, err⟩ := seg
    simp only [fill] at h
    split at h
    · cases h
      simp_all
    split at h
    · next hlen =>
      rcases err with _ | e
      · rcases hf : fill (n - octets.length) s with ⟨v, e', rest'⟩
        simp only [hf, Prod.mk.injEq] at h
        obtain ⟨rfl, rfl, rfl⟩ := h
        obtain ⟨hv, hsize, hfull⟩ := ih hf
        simp only [List.length_append, size_cons]
        refine ⟨by omega, by omega, fun he => ?_⟩
        have hv := hfull he
        omega
      · cases h
        have hrest := size_after s (some e)
        simp only [size_cons]
        exact ⟨hlen, by omega, by simp⟩
    · cases h
      simp only [size_cons, List.length_take, List.length_drop]
      omega

/-- A chunk has at most the octets of the buffer.  Without an error it is full, and the
source is closer to its end. -/
theorem readFull_progress {s rest : Source φ} (h : s.readFull n = (w, e, rest)) :
  w.length ≤ n ∧ (e = none → rest.size + n ≤ s.size)
  := by
  rcases hf : fill n s with ⟨v, e', rest'⟩
  obtain ⟨hv, hsize, hfull⟩ := fill_progress hf
  rw [readFull, hf] at h
  simp only at h
  split at h
  · cases h
    exact ⟨hv, fun _ => by omega⟩
  · next hlen =>
    have he : e' ≠ none := fun he => hlen (Nat.le_of_eq (hfull he).symm)
    split at h <;> cases h
    · exact ⟨hv, by simp⟩
    · exact ⟨hv, fun h => absurd h he⟩

end Source

end GoSmtp.Client
