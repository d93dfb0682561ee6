import Mathlib.Data.List.Perm.Basic
import Mathlib.Data.List.Pairwise

/-!
# Items that exclude one another

A list of items is taken item by item, and a state is changed by each.  An item may take keys, and it
is refused if it is barred by a key that was taken before it, or by itself.  What is refused depends
on the items alone: no two of them may stand in each other's way.  So the order of the items does not
matter for whether all are taken, nor for the state as far as their changes commute.
-/

/-- Items `α` with the keys `κ` they take and are barred by, and what they do to a state. -/
structure Exclusive (α κ σ : Type) where
  takes : α → List κ
  barredBy : α → List κ
  change : α → Option (σ → σ)

namespace Exclusive

variable {α κ σ ε : Type} (E : Exclusive α κ σ)

/-- The second item may stand behind the first. -/
def Apart (a b : α) : Prop := ∀ k ∈ E.takes a, k ∉ E.barredBy b

/-- What an item does to the state. -/
def act (s : σ) (a : α) : σ := (E.change a).getD id s

/-- All items of the list are taken, from the beginning. -/
def Taken (l : List α) : Prop := l.Pairwise E.Apart ∧ ∀ a ∈ l, (E.change a).isSome = true

section

variable [DecidableEq κ]

/-- One item, behind those that took the keys. -/
def accept (s : List κ × σ) (a : α) : Option (List κ × σ) :=
  if (E.barredBy a).any (· ∈ s.1) then none
  else (E.change a).map fun f => (E.takes a ++ s.1, f s.2)

/-- All items of a list. -/
def run (s : List κ × σ) (l : List α) : Option (List κ × σ) := l.foldlM E.accept s

theorem run_cons (s : List κ × σ) (a : α) (l : List α) :
  E.run s (a :: l) = (E.accept s a).bind (E.run · l)
  := List.foldlM_cons

theorem accept_eq_some {s t : List κ × σ} {a : α} :
  E.accept s a = some t ↔
    (∀ k ∈ E.barredBy a, k ∉ s.1) ∧ (E.change a).isSome = true ∧ t = (E.takes a ++ s.1, E.act s.2 a)
  := by
  rw [accept]
  cases hchange : E.change a with
  | none => simp
  | some f =>
    split
    · next hbarred =>
      simp only [List.any_eq_true, decide_eq_true_eq] at hbarred
      obtain ⟨k, hk, hseen⟩ := hbarred
      simp only [reduceCtorEq, false_iff, not_and]
      intro hfree
      exact absurd hseen (hfree k hk)
    · next hfree =>
      simp only [List.any_eq_true, decide_eq_true_eq, not_exists, not_and] at hfree
      simp only [Option.map_some, Option.some.injEq, Option.isSome_some, true_and, act, hchange,
        Option.getD_some]
      constructor
      · intro heq
        exact ⟨hfree, heq.symm⟩
      · intro h
        exact h.2.symm

/-- All items are taken if none is barred by what was taken before the list, no two of them are in
each other's way, and none is refused by itself. -/
theorem run_eq_some {seen : List κ} {s : σ} {l : List α} {t : List κ × σ} :
  E.run (seen, s) l = some t ↔
    (∀ a ∈ l, ∀ k ∈ E.barredBy a, k ∉ seen) ∧ l.Pairwise E.Apart ∧
    (∀ a ∈ l, (E.change a).isSome = true) ∧
    t = (l.foldl (fun seen a => E.takes a ++ seen) seen, l.foldl E.act s)
  := by
  induction l generalizing seen s with
  | nil =>
    constructor
    · rintro ⟨⟩
      exact ⟨by simp, .nil, by simp, rfl⟩
    · rintro ⟨-, -, -, rfl⟩
      rfl
  | cons a l ih =>
    rw [run_cons, Option.bind_eq_some_iff]
    simp only [accept_eq_some, List.forall_mem_cons, List.pairwise_cons, List.foldl_cons]
    constructor
    · rintro ⟨-, ⟨hfree, hchange, rfl⟩, hrun⟩
      obtain ⟨hrest, hapart, hchanges, rfl⟩ := ih.mp hrun
      refine ⟨⟨hfree, fun b hb k hk hseen => ?_⟩, ⟨fun b hb k hk hbar => ?_, hapart⟩,
        ⟨hchange, hchanges⟩, rfl⟩
      · exact hrest b hb k hk (List.mem_append_right _ hseen)
      · exact hrest b hb k hbar (List.mem_append_left _ hk)
    · rintro ⟨⟨hfree, hrest⟩, ⟨hfirst, hapart⟩, ⟨hchange, hchanges⟩, rfl⟩
      refine ⟨_, ⟨hfree, hchange, rfl⟩, ih.mpr ⟨?_, hapart, hchanges, rfl⟩⟩
      intro b hb k hk hmem
      rcases List.mem_append.mp hmem with htaken | hseen
      · exact hfirst b hb k htaken hk
      · exact hrest b hb k hk hseen

/-- A loop that takes each item as `accept` does, however it represents the state and whatever its
errors are. -/
theorem foldlM_toOption {τ : Type} {rep : List κ × σ → τ} {step : τ → α → Except ε τ}
    (hstep : ∀ s a, (step (rep s) a).toOption = (E.accept s a).map rep) (s : List κ × σ)
    (l : List α) :
  (l.foldlM step (rep s)).toOption = (E.run s l).map rep
  := by
  induction l generalizing s with
  | nil => rfl
  | cons a l ih =>
    rw [run_cons, List.foldlM_cons]
    have hfirst := hstep s a
    cases haccept : E.accept s a with
    | none =>
      rw [haccept] at hfirst
      cases hs : step (rep s) a with
      | error e => rfl
      | ok t =>
        rw [hs] at hfirst
        cases hfirst
    | some t =>
      rw [haccept] at hfirst
      cases hs : step (rep s) a with
      | error e =>
        rw [hs] at hfirst
        cases hfirst
      | ok u =>
        rw [hs] at hfirst
        cases hfirst
        exact ih t

theorem run_nil_eq_some {s : σ} {l : List α} {t : List κ × σ} :
  E.run ([], s) l = some t ↔
    E.Taken l ∧ t = (l.foldl (fun seen a => E.takes a ++ seen) [], l.foldl E.act s)
  := by
  rw [run_eq_some, Taken, and_assoc]
  simp

end

/-! ### The order of the items -/

variable {E}

theorem Taken.perm {l l' : List α} (hsymm : ∀ {a b}, E.Apart a b → E.Apart b a) (hp : l.Perm l')
    (h : E.Taken l) :
  E.Taken l'
  := by
  obtain ⟨hapart, hchange⟩ := h
  refine ⟨(hp.pairwise_iff hsymm).mp hapart, ?_⟩
  intro a ha
  exact hchange a (hp.mem_iff.mpr ha)

/-- What can be seen of the state does not depend on the order either, if two items that are not in
each other's way may be interchanged. -/
theorem Taken.foldl_perm {τ : Type} {view : σ → τ} {f : τ → α → τ} {l l' : List α}
    (hsymm : ∀ {a b}, E.Apart a b → E.Apart b a) (hview : ∀ s a, view (E.act s a) = f (view s) a)
    (hcomm : ∀ a b, E.Apart a b → ∀ t, f (f t a) b = f (f t b) a) (h : E.Taken l) (hp : l.Perm l')
    (s : σ) :
  view (l.foldl E.act s) = view (l'.foldl E.act s)
  := by
  rw [← List.foldl_hom view fun s a => (hview s a).symm,
    ← List.foldl_hom view fun s a => (hview s a).symm]
  apply hp.foldl_eq'
  intro a ha b hb t
  rcases eq_or_ne a b with rfl | hne
  · rfl
  · have hsymmetric : Std.Symm E.Apart := ⟨fun _ _ => hsymm⟩
    exact hcomm a b (h.1.forall ha hb hne) t

/-! ### Items with a key -/

section

variable {ρ : Type} (key : α → Option κ) (other : κ → Option κ) (setting : α → κ → Option ρ)
  (apply : σ → ρ → σ) (keep : σ → α → σ)

/-- An item with a key is a setting, if it is one of the key's; the key may be taken once, and it may
be excluded by another.  An item without a key is kept. -/
def keyed : Exclusive α κ σ where
  takes a := (key a).toList
  barredBy a := (key a).elim [] fun k => k :: (other k).toList
  change a :=
    match key a with
    | none => some (keep · a)
    | some k => (setting a k).map fun r s => apply s r

variable {key other setting apply keep}

theorem keyed_apart {a b : α} :
  (keyed key other setting apply keep).Apart a b ↔
    ∀ j ∈ key a, ∀ k ∈ key b, j ≠ k ∧ j ∉ other k
  := by
  cases ha : key a with
  | none => simp [Apart, keyed, ha]
  | some j =>
    cases hb : key b with
    | none => simp [Apart, keyed, ha, hb]
    | some k => simp [Apart, keyed, ha, hb, eq_comm]

theorem keyed_apart_symm (hother : ∀ {j k}, k ∈ other j → j ∈ other k) {a b : α}
    (h : (keyed key other setting apply keep).Apart a b) :
  (keyed key other setting apply keep).Apart b a
  := by
  rw [keyed_apart] at h ⊢
  intro k hk j hj
  obtain ⟨hne, hnot⟩ := h j hj k hk
  exact ⟨Ne.symm hne, fun hmem => hnot (hother hmem)⟩

theorem keyed_act_none {a : α} (hkey : key a = none) (s : σ) :
  (keyed key other setting apply keep).act s a = keep s a
  := by
  simp [act, keyed, hkey]

theorem keyed_act_some {a : α} {k : κ} (hkey : key a = some k) (s : σ) :
  (keyed key other setting apply keep).act s a = ((setting a k).map (apply s)).getD s
  := by
  cases hsetting : setting a k with
  | none => simp [act, keyed, hkey, hsetting]
  | some r => simp [act, keyed, hkey, hsetting]

/-- The order of the items does not matter for what can be seen of the settings, if those of two keys
that do not exclude each other commute. -/
theorem keyed_foldl_perm {τ : Type} {view : σ → τ} {applyTo : τ → ρ → τ}
    (hother : ∀ {j k}, k ∈ other j → j ∈ other k)
    (happly : ∀ s r, view (apply s r) = applyTo (view s) r)
    (hkeep : ∀ s a, view (keep s a) = view s)
    (hcomm : ∀ {a b j k r t}, setting a j = some r → setting b k = some t → j ≠ k → j ∉ other k →
      ∀ v, applyTo (applyTo v r) t = applyTo (applyTo v t) r)
    {l l' : List α} (h : (keyed key other setting apply keep).Taken l) (hp : l.Perm l') (s : σ) :
  view (l.foldl (keyed key other setting apply keep).act s) =
    view (l'.foldl (keyed key other setting apply keep).act s)
  := by
  apply h.foldl_perm (f := fun v a => ((key a).bind (setting a)).elim v (applyTo v))
    (keyed_apart_symm hother) ?_ ?_ hp
  · intro s a
    cases hkey : key a with
    | none =>
      rw [keyed_act_none hkey, hkeep]
      rfl
    | some k =>
      rw [keyed_act_some hkey, Option.bind_some]
      cases setting a k with
      | none => rfl
      | some r => exact happly s r
  · intro a b hapart v
    cases ha : (key a).bind (setting a) with
    | none => rfl
    | some r =>
      cases hb : (key b).bind (setting b) with
      | none => rfl
      | some t =>
        obtain ⟨j, hj, hr⟩ := Option.bind_eq_some_iff.mp ha
        obtain ⟨k, hk, ht⟩ := Option.bind_eq_some_iff.mp hb
        obtain ⟨hne, hnot⟩ := keyed_apart.mp hapart j hj k hk
        exact hcomm hr ht hne hnot v

theorem keyed_foldl_kept {kept : σ → List α} (happly : ∀ s r, kept (apply s r) = kept s)
    (hkeep : ∀ s a, kept (keep s a) = kept s ++ [a]) (l : List α) (s : σ) :
  kept (l.foldl (keyed key other setting apply keep).act s) =
    kept s ++ l.filter fun a => (key a).isNone
  := by
  induction l generalizing s with
  | nil => simp
  | cons a l ih =>
    rw [List.foldl_cons, ih, List.filter_cons]
    cases hkey : key a with
    | none =>
      rw [keyed_act_none hkey, hkeep]
      simp
    | some k =>
      rw [keyed_act_some hkey]
      cases setting a k with
      | none => rfl
      | some r =>
        rw [Option.map_some, Option.getD_some, happly]
        rfl

variable [DecidableEq κ]

theorem keyed_admit_none {a : α} (hkey : key a = none) (s : List κ × σ) :
  (keyed key other setting apply keep).accept s a = some (s.1, keep s.2 a)
  := by
  simp [accept, keyed, hkey]

theorem keyed_admit_some {a : α} {k : κ} (hkey : key a = some k) (s : List κ × σ) :
  (keyed key other setting apply keep).accept s a =
    if k ∈ s.1 ∨ (other k).any (· ∈ s.1) = true then none
    else (setting a k).map fun r => (k :: s.1, apply s.2 r)
  := by
  cases hother : other k with
  | none => simp [accept, keyed, hkey, hother, Function.comp_def]
  | some j => simp [accept, keyed, hkey, hother, Function.comp_def]

end

end Exclusive
