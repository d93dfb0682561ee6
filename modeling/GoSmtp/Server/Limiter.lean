import Mathlib.Data.List.Forall2
import GoSmtp.Server.Content

/-!
# The size limit of content

The size-enforcing reader delivers a source up to the limit, says once that there is more, and is
then the source itself.  It asks for one octet beyond the limit, which is where `int64` ends for the
largest of all limits.
-/

namespace GoSmtp.Server

open ReadResult

variable {σ φ : Type}
variable {r : Reader σ UInt8 (ContentError φ)} {k : Nat}

def ContentError.isTooLarge : ContentError φ → Bool
  | .messageTooLarge => true
  | _ => false

/-- What is asked of a source: it keeps to the buffer, and its errors are its own. -/
structure IsSource (r : Reader σ UInt8 (ContentError φ)) : Prop where
  fits : ∀ n s, (r.read n s).1.data.length ≤ n
  total : ∀ n s, (r.read n s).1.err ≠ some .outOfRange
  foreign : ∀ n s, (r.read n s).1.err.any (·.isTooLarge) = false

theorem IsSource.results (hr : IsSource r) (ns : List Nat)
    (s : σ) {x : ReadResult UInt8 (ContentError φ)} (hx : x ∈ (r.results ns s).1) :
  x.err ≠ some .outOfRange ∧ x.err.any (·.isTooLarge) = false
  := by
  induction ns generalizing s with
  | nil => cases hx
  | cons n ns ih =>
    rcases List.mem_cons.mp hx with rfl | hx
    · exact ⟨hr.total n s, hr.foreign n s⟩
    · exact ih _ hx

theorem spoolFill_length_le (n : Nat) (s : Feed UInt8 φ) :
  (spoolFill n s).1.length ≤ n
  := by
  fun_induction spoolFill n s with
  | case1 n b s ih => simpa using ih
  | case2 => simp

theorem isSource_spoolContent (file : Bool) :
  IsSource (spoolContent (φ := φ) file)
  where
  fits n s := by
    rcases s with _ | ⟨_ | _, s⟩
    · simp [spoolContent]
    · exact spoolFill_length_le n _
    · simp only [spoolContent]
      split <;> simp
  total n s := by
    rcases s with _ | ⟨_ | _, s⟩
    · simp [spoolContent]
    · simp [spoolContent]
    · simp only [spoolContent]
      split <;> simp
  foreign n s := by
    rcases s with _ | ⟨_ | _, s⟩
    · simp only [spoolContent]
      split <;> simp [ContentError.isTooLarge]
    · simp [spoolContent]
    · simp only [spoolContent]
      split <;> simp [ContentError.isTooLarge]

namespace SizeEnforcingReader

/-- The reader for content of at most `limit` octets. -/
def new (limit : Nat) : SizeEnforcingReader := ⟨limit, false, false⟩

/-- For reads with the buffer sizes `ns`, the source is read with buffers that are not larger, and
have room if those have.  Compared with what the source returns to these reads: no read panics; the
octets up to the first error are those of the source, up to the limit; one error says that there
are more if there are, and none otherwise; one octet beyond the limit is lost at most; and if there
are more, the reader goes on as the source does, to its end. -/
def Enforced (r : Reader σ UInt8 (ContentError φ)) (limit : Nat) (s : σ) (ns : List Nat) : Prop :=
  ∃ ms, List.Forall₂ (fun n m => m ≤ n ∧ (0 < n → 0 < m)) ns ms ∧
    let x := (limited r).results ns (new limit, s)
    let y := r.results ms s
    (∀ z ∈ x.1, z.err ≠ some .outOfRange) ∧
    upToError x.1 = (upToError y.1).take limit ∧
    x.1.countP (·.err.any (·.isTooLarge)) = (if limit < (items y.1).length then 1 else 0) ∧
    items x.1 = (items y.1).take limit ++ (items y.1).drop (limit + 1) ∧
    x.2.2 = y.2 ∧
    (limit < (items y.1).length →
      (∀ ns, (limited r).results ns x.2 = ((r.results ns y.2).1, x.2.1, (r.results ns y.2).2)) ∧
      ∀ n fuel, ((limited r).drain n fuel x.2).1 = (r.drain n fuel y.2).1)

/-! ### After the limit -/

section Exceeded

variable {r : Reader σ UInt8 (ContentError φ)} {l : SizeEnforcingReader} (h : l.exceeded = true)
include h

theorem read_exceeded (n : Nat) (s : σ) :
  (limited r).read n (l, s) = ((r.read n s).1, l, (r.read n s).2)
  := by
  simp [limited, SizeEnforcingReader.read, h]

theorem results_exceeded (ns : List Nat) (s : σ) :
  (limited r).results ns (l, s) = ((r.results ns s).1, l, (r.results ns s).2)
  := by
  induction ns generalizing s with
  | nil => rfl
  | cons n ns ih => simp [Reader.results, read_exceeded h, ih]

theorem drain_exceeded (n fuel : Nat) (s : σ) :
  (limited r).drain n fuel (l, s) = ((r.drain n fuel s).1, l, (r.drain n fuel s).2)
  := by
  induction fuel generalizing s with
  | zero => rfl
  | succ fuel ih =>
    rw [Reader.drain, Reader.drain, read_exceeded h]
    rcases r.read n s with ⟨⟨w, _ | e⟩, s'⟩
    · exact ih s'
    · rfl

end Exceeded

/-! ### Up to the limit -/

theorem add64_one (h : k + 1 < 2 ^ 63) :
  add64 k 1 = k + 1
  := by
  rw [add64]
  apply Int.bmod_eq_of_le <;> omega

theorem read_new (hr : IsSource r) (hk : k + 1 < 2 ^ 63) (n : Nat) (s : σ) :
  ∃ m w e s', (m ≤ n ∧ (0 < n → 0 < m)) ∧ r.read m s = (⟨w, e⟩, s') ∧
    (w.length ≤ k ∧ (limited r).read n (new k, s) = (⟨w, e⟩, new (k - w.length), s') ∨
      w.length = k + 1 ∧
        (limited r).read n (new k, s)
          = (⟨w.take k, some .messageTooLarge⟩, ⟨0, true, true⟩, s'))
  := by
  have hlimit : (if (n : Int) > add64 (new k).remain 1 then add64 (new k).remain 1 else n)
      = (min n (k + 1) : Nat) := by
    rw [new, add64_one hk]
    split <;> omega
  have hread : (limited r).read n (new k, s) = SizeEnforcingReader.read r n (new k) s := by
    rw [limited]
  rw [hread, SizeEnforcingReader.read, if_neg (by simp [new]), hlimit, if_neg (by omega),
    Int.toNat_natCast]
  have hfits := hr.fits (min n (k + 1)) s
  rcases hx : r.read (min n (k + 1)) s with ⟨⟨w, e⟩, s'⟩
  rw [hx] at hfits
  dsimp only at hfits ⊢
  refine ⟨min n (k + 1), w, e, s', by omega, hx, ?_⟩
  by_cases hw : w.length ≤ k
  · left
    refine ⟨hw, ?_⟩
    have hremain : (k : Int) - w.length = (k - w.length : Nat) := by omega
    rw [if_pos (by simp [new, hw])]
    simp only [new, hremain]
  · right
    refine ⟨by omega, ?_⟩
    rw [if_neg (by simpa [new] using hw), if_neg (by simp [new])]
    simp [new]

theorem Enforced.within (hr : IsSource r) {m n : Nat}
    {s s' : σ} {w : Bytes} {e : Option (ContentError φ)} {ns : List Nat}
    (hm : m ≤ n ∧ (0 < n → 0 < m)) (hsource : r.read m s = (⟨w, e⟩, s')) (hw : w.length ≤ k)
    (hread : (limited r).read n (new k, s) = (⟨w, e⟩, new (k - w.length), s'))
    (h : Enforced r (k - w.length) s' ns) :
  Enforced r k s (n :: ns)
  := by
  obtain ⟨ms, hms, hpanics, herror, hcount, hitems, hstate, hrest⟩ := h
  have hforeign := hr.foreign m s
  have htotal := hr.total m s
  rw [hsource] at hforeign htotal
  have hmore : k < (items (⟨w, e⟩ :: (r.results ms s').1)).length ↔
      k - w.length < (items (r.results ms s').1).length := by
    rw [items_cons, List.length_append]
    dsimp only
    omega
  refine ⟨m :: ms, hms.cons hm, ?_⟩
  simp only [Reader.results, hread, hsource]
  refine ⟨?_, ?_, ?_, ?_, hstate, ?_⟩
  · intro z hz
    rcases List.mem_cons.mp hz with rfl | hz
    · exact htotal
    · exact hpanics z hz
  · cases e with
    | some e => simp [upToError, List.take_of_length_le hw]
    | none => simp [upToError, herror, List.take_append, List.take_of_length_le hw]
  · rw [List.countP_cons_of_neg (by simp [hforeign]), hcount]
    simp only [hmore]
  · have hdrop : k + 1 - w.length = k - w.length + 1 := by omega
    simp [hitems, List.take_append, List.drop_append, List.take_of_length_le hw,
      List.drop_of_length_le (Nat.le_succ_of_le hw), hdrop]
  · intro hlt
    exact hrest (hmore.mp hlt)

theorem Enforced.crosses (hr : IsSource r) {m n : Nat}
    {s s' : σ} {w : Bytes} {e : Option (ContentError φ)} (hm : m ≤ n ∧ (0 < n → 0 < m))
    (hsource : r.read m s = (⟨w, e⟩, s')) (hw : w.length = k + 1)
    (hread : (limited r).read n (new k, s)
      = (⟨w.take k, some .messageTooLarge⟩, ⟨0, true, true⟩, s')) (ns : List Nat) :
  Enforced r k s (n :: ns)
  := by
  have hnone : (r.results ns s').1.countP (·.err.any (·.isTooLarge)) = 0 := by
    apply List.countP_eq_zero.mpr
    intro x hx
    simp [(hr.results ns s' hx).2]
  have hsame : List.Forall₂ (fun n m => m ≤ n ∧ (0 < n → 0 < m)) ns ns :=
    List.forall₂_same.mpr fun _ _ => ⟨Nat.le_refl _, id⟩
  refine ⟨m :: ns, hsame.cons hm, ?_⟩
  simp only [Reader.results, hread, hsource, results_exceeded (l := ⟨0, true, true⟩) rfl]
  refine ⟨?_, ?_, ?_, ?_, trivial, ?_⟩
  · intro z hz
    rcases List.mem_cons.mp hz with rfl | hz
    · simp
    · exact (hr.results ns s' hz).1
  · cases e <;> simp [upToError, List.take_append, hw]
  · rw [List.countP_cons_of_pos (by rfl), hnone, if_pos]
    rw [items_cons, List.length_append]
    dsimp only
    omega
  · simp [List.take_append, hw]
  · intro _
    refine ⟨fun ns => trivial, fun n fuel => ?_⟩
    rw [drain_exceeded rfl]

theorem enforced (hr : IsSource r) {limit : Nat}
    (hlimit : limit + 1 < 2 ^ 63) (s : σ) (ns : List Nat) :
  Enforced r limit s ns
  := by
  induction ns generalizing limit s with
  | nil => exact ⟨[], .nil, by simp [Reader.results, upToError]⟩
  | cons n ns ih =>
    obtain ⟨m, w, e, s', hm, hsource, ⟨hw, hread⟩ | ⟨hw, hread⟩⟩ := read_new hr hlimit n s
    · exact .within hr hm hsource hw hread (ih (by omega) s')
    · exact .crosses hr hm hsource hw hread ns

theorem not_enforced_largest (r : Reader σ UInt8 (ContentError φ)) (s : σ) (n : Nat)
    (ns : List Nat) :
  ¬ Enforced r (2 ^ 63 - 1) s (n :: ns)
  := by
  have hadd : add64 (new (2 ^ 63 - 1)).remain 1 = -2 ^ 63 := by decide
  have hread : (limited r).read n (new (2 ^ 63 - 1), s)
      = (⟨[], some .outOfRange⟩, new (2 ^ 63 - 1), s) := by
    simp only [limited, SizeEnforcingReader.read, hadd]
    rw [if_neg (by simp [new]), if_pos (by omega)]
  rintro ⟨ms, -, hpanics, -⟩
  apply hpanics ⟨[], some .outOfRange⟩ _ rfl
  simp only [Reader.results, hread]
  exact List.mem_cons_self

/-- The limit is enforced on every source and for all buffers, unless it is the largest `int64` and
anything is read. -/
theorem enforced_iff {r : Reader σ UInt8 (ContentError φ)} (hr : IsSource r) {limit : Nat}
    (hlimit : limit < 2 ^ 63) (s : σ) (ns : List Nat) :
  Enforced r limit s ns ↔ limit ≠ 2 ^ 63 - 1 ∨ ns = []
  := by
  constructor
  · intro h
    by_contra hnot
    obtain ⟨hlargest, hne⟩ := not_or.mp hnot
    obtain rfl := not_not.mp hlargest
    obtain ⟨n, ns, rfl⟩ := List.exists_cons_of_ne_nil hne
    exact not_enforced_largest r s n ns h
  · rintro (hne | rfl)
    · apply enforced hr
      omega
    · exact ⟨[], .nil, by simp [Reader.results, upToError]⟩

/-- Three octets from memory, to a limit of two. -/
theorem enforced_iff_two :
  Enforced (spoolContent (φ := Unit) false) 2 (Feed.items (ascii "abc")) [1, 5, 5]
  := by
  apply (enforced_iff (isSource_spoolContent false) (by decide) _ _).mpr
  exact Or.inl (by decide)

/-- One octet, with the largest limit: the first read panics. -/
theorem not_enforced_one :
  let r := spoolContent (φ := Unit) false
  let s := Feed.items (ascii "a")
  (SizeEnforcingReader.read r 512 (new (2 ^ 63 - 1)) s).1.err = some .outOfRange ∧
    ¬ Enforced r (2 ^ 63 - 1) s [512]
  := by
  refine ⟨by decide, ?_⟩
  apply not_enforced_largest

end SizeEnforcingReader

end GoSmtp.Server
