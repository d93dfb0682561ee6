import GoSmtp.Lib.Exec

/-!
# Two runs

Two calls are run side by side, each from its own state.  `Exec.Twins R V F S` says of them:
from states with `R` they end alike, with values in `V` or errors in `F`, and they leave
states with `S`.  The rules follow the structure of the calls, as those of `wp` do.
-/

variable {σ τ ε ε' α β γ δ : Type}

/-- Two ends of one kind, with related values or related errors. -/
inductive Outcome.Rel (V : α → β → Prop) (F : ε → ε' → Prop) :
    Outcome ε α → Outcome ε' β → Prop where
  | ok {a : α} {b : β} (h : V a b) : Rel V F (.ok a) (.ok b)
  | err {e : ε} {e' : ε'} (h : F e e') : Rel V F (.err e) (.err e')
  | panic : Rel V F .panic .panic

theorem Outcome.Rel.mono {V W : α → β → Prop} {F G : ε → ε' → Prop} {x : Outcome ε α}
    {y : Outcome ε' β} (h : x.Rel V F y) (hV : ∀ a b, V a b → W a b)
    (hF : ∀ e e', F e e' → G e e') :
  x.Rel W G y
  := by
  cases h with
  | ok h =>
    apply ok
    apply hV _ _ h
  | err h =>
    apply err
    apply hF _ _ h
  | panic =>
    apply panic

theorem Outcome.Rel.eq {x y : Outcome ε α} (h : x.Rel Eq Eq y) :
  x = y
  := by
  cases h with
  | ok h => rw [h]
  | err h => rw [h]
  | panic => rfl

/-- Two results of one kind. -/
inductive Except.Rel (V : α → β → Prop) (F : ε → ε' → Prop) :
    Except ε α → Except ε' β → Prop where
  | ok {a : α} {b : β} (h : V a b) : Rel V F (.ok a) (.ok b)
  | error {e : ε} {e' : ε'} (h : F e e') : Rel V F (.error e) (.error e')

namespace Exec

/-- From states with `R`, the two calls end alike and leave states with `S`. -/
def Twins (R : σ → τ → Prop) (V : α → β → Prop) (F : ε → ε' → Prop) (S : σ → τ → Prop)
    (m : Exec σ ε α) (m' : Exec τ ε' β) : Prop :=
  ∀ s t, R s t → (m s).1.Rel V F (m' t).1 ∧ S (m s).2 (m' t).2

namespace Twins

variable {R S T : σ → τ → Prop} {V : α → β → Prop} {W : γ → δ → Prop} {F : ε → ε' → Prop}
  {m : Exec σ ε α} {m' : Exec τ ε' β}

theorem pure {a : α} {b : β} (h : V a b) :
  Twins R V F R (Pure.pure a) (Pure.pure b)
  := fun _ _ hR => ⟨.ok h, hR⟩

theorem fail {e : ε} {e' : ε'} (h : F e e') :
  Twins R V F R (fail e) (fail e')
  := fun _ _ hR => ⟨.err h, hR⟩

theorem panic :
  Twins R V F R (fun s => (.panic, s)) (fun t => (.panic, t))
  := fun _ _ hR => ⟨.panic, hR⟩

theorem update {f : σ → σ} {g : τ → τ} (h : ∀ s t, R s t → S (f s) (g t)) :
  Twins R (fun _ _ => True) F S (update f) (update g)
  := fun s t hR => ⟨.ok trivial, h s t hR⟩

theorem mono {W : α → β → Prop} {G : ε → ε' → Prop} (h : Twins R V F S m m')
    (hV : ∀ a b, V a b → W a b) (hF : ∀ e e', F e e' → G e e') (hS : ∀ s t, S s t → T s t) :
  Twins R W G T m m'
  := by
  intro s t hR
  obtain ⟨hend, hleft⟩ := h s t hR
  constructor
  · apply hend.mono hV hF
  · apply hS _ _ hleft

theorem ends {s : σ} {t : τ} (h : Twins R V F S m m') (hR : R s t) :
  (∃ a b s' t', m s = (.ok a, s') ∧ m' t = (.ok b, t') ∧ V a b ∧ S s' t')
    ∨ (∃ e e' s' t', m s = (.err e, s') ∧ m' t = (.err e', t') ∧ F e e' ∧ S s' t')
    ∨ ∃ s' t', m s = (.panic, s') ∧ m' t = (.panic, t') ∧ S s' t'
  := by
  obtain ⟨hend, hleft⟩ := h s t hR
  rcases hs : m s with ⟨x, s'⟩
  rcases ht : m' t with ⟨y, t'⟩
  rw [hs, ht] at hend hleft
  cases hend with
  | @ok a b h =>
    left
    use a, b, s', t'
  | @err e e' h =>
    right
    left
    use e, e', s', t'
  | panic =>
    right
    right
    use s', t'

theorem chain {k : α → Exec σ ε γ} {k' : β → Exec τ ε' δ} (hm : Twins R V F S m m')
    (hS : ∀ s t, S s t → T s t) (hk : ∀ a b, V a b → Twins S W F T (k a) (k' b)) :
  Twins R W F T (m >>= k) (m' >>= k')
  := by
  intro s t hR
  rcases hm.ends hR with ⟨a, b, s', t', hs, ht, h, hleft⟩ | ⟨e, e', s', t', hs, ht, h, hleft⟩
      | ⟨s', t', hs, ht, hleft⟩ <;> simp only [Bind.bind, hs, ht]
  · apply hk a b h s' t' hleft
  · exact ⟨.err h, hS s' t' hleft⟩
  · exact ⟨.panic, hS s' t' hleft⟩

theorem after {k : α → Exec σ ε γ} {k' : β → Exec τ ε' δ}
    (hm : ∀ s t, R s t → ∃ a b s' t', m s = (.ok a, s') ∧ m' t = (.ok b, t') ∧ V a b ∧ S s' t')
    (hk : ∀ a b, V a b → Twins S W F T (k a) (k' b)) :
  Twins R W F T (m >>= k) (m' >>= k')
  := by
  intro s t hR
  obtain ⟨a, b, s', t', hs, ht, h, hleft⟩ := hm s t hR
  simp only [Bind.bind, hs, ht]
  apply hk a b h s' t' hleft

theorem bind {k : α → Exec σ ε γ} {k' : β → Exec τ ε' δ} (hm : Twins R V F R m m')
    (hk : ∀ a b, V a b → Twins R W F R (k a) (k' b)) :
  Twins R W F R (m >>= k) (m' >>= k')
  := chain hm (fun _ _ h => h) hk

theorem read {k : σ → Exec σ ε α} {k' : τ → Exec τ ε' β}
    (hk : ∀ s t, R s t → Twins R V F S (k s) (k' t)) :
  Twins R V F S (Exec.read >>= k) (Exec.read >>= k')
  := fun s t hR => hk s t hR s t hR

theorem cond {c c' : Prop} [Decidable c] [Decidable c'] {n : Exec σ ε α} {n' : Exec τ ε' β}
    (hc : c ↔ c') (h : c → Twins R V F S m m') (hn : ¬ c → Twins R V F S n n') :
  Twins R V F S (if c then m else n) (if c' then m' else n')
  := by
  by_cases hcond : c
  · rw [if_pos hcond, if_pos (hc.mp hcond)]
    apply h hcond
  · rw [if_neg hcond, if_neg (mt hc.mpr hcond)]
    apply hn hcond

theorem ite {c c' : Prop} [Decidable c] [Decidable c'] {n : Exec σ ε α} {n' : Exec τ ε' β}
    (hc : c ↔ c') (h : Twins R V F S m m') (hn : Twins R V F S n n') :
  Twins R V F S (if c then m else n) (if c' then m' else n')
  := cond hc (fun _ => h) fun _ => hn

theorem attempt (h : Twins R V F S m m') :
  Twins R (Except.Rel V F) F S (attempt m) (attempt m')
  := by
  intro s t hR
  rcases h.ends hR with ⟨a, b, s', t', hs, ht, h, hleft⟩ | ⟨e, e', s', t', hs, ht, h, hleft⟩
      | ⟨s', t', hs, ht, hleft⟩ <;> simp only [Exec.attempt, hs, ht]
  · exact ⟨.ok (.ok h), hleft⟩
  · exact ⟨.ok (.error h), hleft⟩
  · exact ⟨.panic, hleft⟩

theorem mapErr {f : ε → ε} {g : ε' → ε'} (h : Twins R V F S m m')
    (hf : ∀ e e', F e e' → F (f e) (g e')) :
  Twins R V F S (mapErr f m) (mapErr g m')
  := by
  intro s t hR
  rcases h.ends hR with ⟨a, b, s', t', hs, ht, h, hleft⟩ | ⟨e, e', s', t', hs, ht, h, hleft⟩
      | ⟨s', t', hs, ht, hleft⟩ <;> simp only [Exec.mapErr, hs, ht]
  · exact ⟨.ok h, hleft⟩
  · exact ⟨.err (hf e e' h), hleft⟩
  · exact ⟨.panic, hleft⟩

end Twins

end Exec
