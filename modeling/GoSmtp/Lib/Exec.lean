import Mathlib.Order.Defs.Unbundled
import Mathlib.Tactic.Common

/-!
# Calls that fail

`Exec σ ε α` is a call on a state `σ`.  It returns a value, returns an error, or panics;
in every case it leaves a state.  `Exec.wp` is its weakest precondition, with one
postcondition for values and one for errors and panics, and the `simp` lemmas compute it
along the structure of a call.
-/

/-- How a call ends. -/
inductive Outcome (ε α : Type) where
  | ok (a : α)
  | err (e : ε)
  | panic
  deriving DecidableEq, Repr

/-- A call on the state `σ`. -/
def Exec (σ ε α : Type) := σ → Outcome ε α × σ

namespace Exec

variable {σ ε α β : Type}

instance : Monad (Exec σ ε) where
  pure a := fun s => (.ok a, s)
  bind m f := fun s =>
    match m s with
    | (.ok a, s) => f a s
    | (.err e, s) => (.err e, s)
    | (.panic, s) => (.panic, s)

theorem bind_bind {γ : Type} (m : Exec σ ε α) (f : α → Exec σ ε β) (g : β → Exec σ ε γ) :
  m >>= f >>= g = m >>= fun a => f a >>= g
  := by
  funext s
  simp only [bind]
  rcases m s with ⟨_ | _ | _, s'⟩ <;> rfl

theorem ite_bind {c : Prop} [Decidable c] (m m' : Exec σ ε α) (k : α → Exec σ ε β) :
  (if c then m else m') >>= k = if c then m >>= k else m' >>= k
  := by
  split <;> rfl

/-- The state. -/
def read : Exec σ ε σ := fun s => (.ok s, s)

theorem read_bind (k : σ → Exec σ ε α) (s : σ) :
  (Exec.read >>= k) s = k s s
  := rfl

def update (f : σ → σ) : Exec σ ε Unit := fun s => (.ok (), f s)

def fail (e : ε) : Exec σ ε α := fun s => (.err e, s)

theorem fail_bind (e : ε) (k : α → Exec σ ε β) :
  fail e >>= k = fail e
  := rfl

/-- The result of a step on the state. -/
def lift (f : σ → Outcome ε α × σ) : Exec σ ε α := f

/-- The call `m`, with its error as a value. -/
def attempt (m : Exec σ ε α) : Exec σ ε (Except ε α) := fun s =>
  match m s with
  | (.ok a, s) => (.ok (.ok a), s)
  | (.err e, s) => (.ok (.error e), s)
  | (.panic, s) => (.panic, s)

/-- The call `m`, with its error changed. -/
def mapErr (f : ε → ε) (m : Exec σ ε α) : Exec σ ε α := fun s =>
  match m s with
  | (.ok a, s) => (.ok a, s)
  | (.err e, s) => (.err (f e), s)
  | (.panic, s) => (.panic, s)

/-- The call `m` followed by the deferred call `d`, also if `m` fails or panics.  The first
failure is the one reported. -/
def defer (m : Exec σ ε α) (d : Exec σ ε Unit) : Exec σ ε α := fun s =>
  match m s with
  | (.ok a, s) =>
    match d s with
    | (.ok _, s) => (.ok a, s)
    | (.err e, s) => (.err e, s)
    | (.panic, s) => (.panic, s)
  | (.err e, s) =>
    match d s with
    | (.panic, s) => (.panic, s)
    | (_, s) => (.err e, s)
  | (.panic, s) => (.panic, (d s).2)

theorem defer_state (m : Exec σ ε α) (d : Exec σ ε Unit) (s : σ) :
  (defer m d s).2 = (d (m s).2).2
  := by
  simp only [defer]
  rcases m s with ⟨_ | _ | _, s'⟩ <;> rcases hd : d s' with ⟨_ | _ | _, s''⟩ <;> simp [hd]

/-! ### Weakest preconditions -/

/-- From the state `s`, the call `m` returns a value with `Q`, or fails with `E`.  An error
is passed to `E`, and nothing for a panic. -/
def wp (m : Exec σ ε α) (Q : α → σ → Prop) (E : Option ε → σ → Prop) (s : σ) : Prop :=
  match m s with
  | (.ok a, s) => Q a s
  | (.err e, s) => E (some e) s
  | (.panic, s) => E none s

variable {Q : α → σ → Prop} {E : Option ε → σ → Prop} {s : σ}

@[simp]
theorem wp_pure (a : α) :
  wp (pure a) Q E s ↔ Q a s
  := Iff.rfl

@[simp]
theorem wp_bind (m : Exec σ ε β) (f : β → Exec σ ε α) :
  wp (m >>= f) Q E s ↔ wp m (fun b => wp (f b) Q E) E s
  := by
  simp only [wp, bind]
  rcases m s with ⟨_ | _ | _, s'⟩ <;> rfl

@[simp]
theorem wp_read {Q : σ → σ → Prop} :
  wp (read : Exec σ ε σ) Q E s ↔ Q s s
  := Iff.rfl

@[simp]
theorem wp_update {Q : Unit → σ → Prop} (f : σ → σ) :
  wp (update f : Exec σ ε Unit) Q E s ↔ Q () (f s)
  := Iff.rfl

@[simp]
theorem wp_fail (e : ε) :
  wp (fail e : Exec σ ε α) Q E s ↔ E (some e) s
  := Iff.rfl

@[simp]
theorem wp_ite {c : Prop} [Decidable c] (m m' : Exec σ ε α) :
  wp (if c then m else m') Q E s ↔ (c → wp m Q E s) ∧ (¬ c → wp m' Q E s)
  := by
  by_cases h : c <;> simp [h]

@[simp]
theorem wp_attempt {Q : Except ε α → σ → Prop} (m : Exec σ ε α) :
  wp (attempt m) Q E s
    ↔ wp m (fun a => Q (.ok a))
        (fun e => match e with | some e => Q (.error e) | none => E none) s
  := by
  simp only [wp, attempt]
  rcases m s with ⟨_ | _ | _, s'⟩ <;> rfl

@[simp]
theorem wp_mapErr (f : ε → ε) (m : Exec σ ε α) :
  wp (mapErr f m) Q E s ↔ wp m Q (fun e => E (e.map f)) s
  := by
  simp only [wp, mapErr]
  rcases m s with ⟨_ | _ | _, s'⟩ <;> rfl

@[simp]
theorem wp_defer (m : Exec σ ε α) (d : Exec σ ε Unit) :
  wp (defer m d) Q E s
    ↔ wp m (fun a => wp d (fun _ => Q a) E)
        (fun e => wp d (fun _ => E e) fun e' => E (if e' = none then none else e)) s
  := by
  simp only [wp, defer]
  rcases m s with ⟨_ | _ | _, s'⟩ <;> rcases hd : d s' with ⟨_ | _ | _, s''⟩ <;> simp [hd]

theorem wp_mono {m : Exec σ ε α} {Q' : α → σ → Prop} {E' : Option ε → σ → Prop}
    (h : wp m Q' E' s) (hQ : ∀ a s', Q' a s' → Q a s') (hE : ∀ e s', E' e s' → E e s') :
  wp m Q E s
  := by
  simp only [wp] at h ⊢
  rcases hm : m s with ⟨_ | _ | _, s'⟩ <;> rw [hm] at h
  · exact hQ _ _ h
  · exact hE _ _ h
  · exact hE _ _ h

theorem wp_state {m : Exec σ ε α} {I : σ → Prop} (h : wp m (fun _ => I) (fun _ => I) s) :
  I (m s).2
  := by
  simp only [wp] at h
  rcases heq : m s with ⟨_ | _ | _, s'⟩ <;> simpa [heq] using h

theorem wp_of_state {m : Exec σ ε α} {I : σ → Prop} (h : I (m s).2) :
  wp m (fun _ => I) (fun _ => I) s
  := by
  simp only [wp]
  rcases heq : m s with ⟨_ | _ | _, s'⟩ <;> rw [heq] at h <;> exact h

theorem wp_congr {m : Exec σ ε α} {Q' : α → σ → Prop} {E' : Option ε → σ → Prop}
    (hQ : ∀ a s', Q a s' ↔ Q' a s') (hE : ∀ e s', E e s' ↔ E' e s') :
  wp m Q E s ↔ wp m Q' E' s
  := ⟨fun h => wp_mono h (fun a s' => (hQ a s').mp) fun e s' => (hE e s').mp,
    fun h => wp_mono h (fun a s' => (hQ a s').mpr) fun e s' => (hE e s').mpr⟩

theorem ext_wp {m m' : Exec σ ε α} (h : ∀ Q E s, wp m Q E s ↔ wp m' Q E s) :
  m = m'
  := by
  funext s
  have hm : wp m' (fun a s' => m s = (.ok a, s'))
      (fun e s' => m s = (match e with | some e => .err e | none => .panic, s')) s := by
    rw [← h]
    simp only [wp]
    rcases m s with ⟨_ | _ | _, s'⟩ <;> rfl
  simp only [wp] at hm
  rcases hm' : m' s with ⟨_ | _ | _, s'⟩ <;> rw [hm'] at hm <;> exact hm

theorem wp_elim {m : Exec σ ε α} (h : wp m Q E s) {P : Outcome ε α × σ → Prop}
    (hok : ∀ a s', Q a s' → P (.ok a, s')) (herr : ∀ e s', E (some e) s' → P (.err e, s'))
    (hpanic : ∀ s', E none s' → P (.panic, s')) :
  P (m s)
  := by
  simp only [wp] at h
  rcases hm : m s with ⟨a | e | _, s'⟩ <;> rw [hm] at h
  · exact hok a s' h
  · exact herr e s' h
  · exact hpanic s' h

theorem wp_and {m : Exec σ ε α} {Q' : α → σ → Prop} {E' : Option ε → σ → Prop}
    (h : wp m Q E s) (h' : wp m Q' E' s) :
  wp m (fun a s => Q a s ∧ Q' a s) (fun e s => E e s ∧ E' e s) s
  := by
  simp only [wp] at h h' ⊢
  rcases hm : m s with ⟨_ | _ | _, s'⟩ <;> rw [hm] at h h' <;> exact ⟨h, h'⟩

theorem wp_left {m : Exec σ ε α}
    (h : wp m (fun a s' => (m s).2 = s' → Q a s') (fun e s' => (m s).2 = s' → E e s') s) :
  wp m Q E s
  := by
  simp only [wp] at h ⊢
  rcases hm : m s with ⟨_ | _ | _, s'⟩ <;> rw [hm] at h <;> exact h rfl

theorem wp_of_forall {m : Exec σ ε α} (hQ : ∀ a s', Q a s') (hE : ∀ e s', E e s') :
  wp m Q E s
  := by
  simp only [wp]
  rcases m s with ⟨_ | _ | _, s'⟩
  · exact hQ _ _
  · exact hE _ _
  · exact hE _ _

theorem not_wp_false {m : Exec σ ε α} :
  ¬ wp m (fun _ _ => False) (fun _ _ => False) s
  := by
  intro h
  simp only [wp] at h
  rcases hm : m s with ⟨_ | _ | _, s'⟩ <;> rw [hm] at h <;> exact h

/-! ### Calls that leave part of the state alone -/

section Keeps

variable {γ : Type} {f : σ → γ}

/-- However the call `m` ends, `f` of the state is as it was. -/
def Keeps (f : σ → γ) (m : Exec σ ε α) : Prop := ∀ s, f (m s).2 = f s

theorem Keeps.pure (a : α) :
  Keeps f (Pure.pure a : Exec σ ε α)
  := fun _ => rfl

theorem Keeps.read :
  Keeps f (read : Exec σ ε σ)
  := fun _ => rfl

theorem Keeps.fail (e : ε) :
  Keeps f (fail e : Exec σ ε α)
  := fun _ => rfl

theorem Keeps.bind {m : Exec σ ε β} {k : β → Exec σ ε α} (hm : Keeps f m)
    (hk : ∀ b, Keeps f (k b)) :
  Keeps f (m >>= k)
  := by
  intro s
  have h := hm s
  simp only [Bind.bind]
  rcases hs : m s with ⟨b | e | _, s'⟩ <;> rw [hs] at h
  · exact (hk b s').trans h
  · exact h
  · exact h

theorem Keeps.ite {c : Prop} [Decidable c] {m m' : Exec σ ε α} (h : Keeps f m) (h' : Keeps f m') :
  Keeps f (if c then m else m')
  := by
  split
  · exact h
  · exact h'

theorem Keeps.attempt {m : Exec σ ε α} (h : Keeps f m) :
  Keeps f (attempt m)
  := by
  intro s
  have h := h s
  simp only [Exec.attempt]
  rcases hs : m s with ⟨b | e | _, s'⟩ <;> rw [hs] at h <;> exact h

theorem Keeps.mapErr {m : Exec σ ε α} (h : Keeps f m) (g : ε → ε) :
  Keeps f (mapErr g m)
  := by
  intro s
  have h := h s
  simp only [Exec.mapErr]
  rcases hs : m s with ⟨b | e | _, s'⟩ <;> rw [hs] at h <;> exact h

theorem Keeps.defer {m : Exec σ ε α} {d : Exec σ ε Unit} (h : Keeps f m) (hd : Keeps f d) :
  Keeps f (defer m d)
  := by
  intro s
  have h := h s
  simp only [Exec.defer]
  rcases hs : m s with ⟨b | e | _, s'⟩ <;> rw [hs] at h <;> have h' := hd s' <;>
    rcases hs' : d s' with ⟨b' | e' | _, s''⟩ <;> rw [hs'] at h' <;> simpa [hs'] using h'.trans h

theorem keeps_iff_wp {m : Exec σ ε α} :
  Keeps f m ↔ ∀ s, wp m (fun _ s' => f s' = f s) (fun _ s' => f s' = f s) s
  := by
  apply forall_congr'
  intro s
  simp only [wp]
  rcases m s with ⟨b | e | _, s'⟩ <;> rfl

end Keeps

/-! ### Calls that move along a preorder -/

section Along

variable {R : σ → σ → Prop} [IsPreorder σ R]

/-- The invariant survives from one state to the other. -/
def Preserves (I : σ → Prop) (s s' : σ) : Prop := I s → I s'

instance (I : σ → Prop) : IsPreorder σ (Preserves I) where
  refl _ := id
  trans _ _ _ h h' := h' ∘ h

/-- However the call `m` ends, the state it leaves comes after the one it started from. -/
def Along (R : σ → σ → Prop) (m : Exec σ ε α) : Prop := ∀ s, R s (m s).2

theorem Along.pure (a : α) :
  Along R (Pure.pure a : Exec σ ε α)
  := fun s => refl s

theorem Along.fail (e : ε) :
  Along R (fail e : Exec σ ε α)
  := fun s => refl s

/-- The first of two calls moves along from the state `s`, the second from where the first ends. -/
theorem Along.step {m : Exec σ ε β} {k : β → Exec σ ε α} {s : σ} (h : R s (m s).2)
    (hk : ∀ b, R (m s).2 (k b (m s).2).2) :
  R s ((m >>= k) s).2
  := by
  simp only [Bind.bind]
  rcases hs : m s with ⟨b | e | _, s'⟩ <;> rw [hs] at h hk
  · exact trans_of R h (hk b)
  · exact h
  · exact h

/-- The first of two calls moves along from the state `s`, the second from everywhere. -/
theorem Along.after {m : Exec σ ε β} {k : β → Exec σ ε α} {s : σ} (h : R s (m s).2)
    (hk : ∀ b, Along R (k b)) :
  R s ((m >>= k) s).2
  := Along.step h fun b => hk b _

theorem Along.bind {m : Exec σ ε β} {k : β → Exec σ ε α} (hm : Along R m)
    (hk : ∀ b, Along R (k b)) :
  Along R (m >>= k)
  := fun s => Along.after (hm s) hk

omit [IsPreorder σ R] in
theorem Along.read {k : σ → Exec σ ε α} (hk : ∀ s, Along R (k s)) :
  Along R (Exec.read >>= k)
  := fun s => hk s s

omit [IsPreorder σ R] in
theorem Along.ite {c : Prop} [Decidable c] {m m' : Exec σ ε α} (h : Along R m) (h' : Along R m') :
  Along R (if c then m else m')
  := by
  split
  · exact h
  · exact h'

theorem Along.defer {m : Exec σ ε α} {d : Exec σ ε Unit} (h : Along R m) (hd : Along R d) :
  Along R (defer m d)
  := by
  intro s
  rw [defer_state]
  exact trans_of R (h s) (hd _)

omit [IsPreorder σ R] in
theorem Along.attempt {m : Exec σ ε α} (h : Along R m) :
  Along R (attempt m)
  := by
  intro s
  have h := h s
  simp only [Exec.attempt]
  rcases hs : m s with ⟨b | e | _, s'⟩ <;> rw [hs] at h <;> exact h

omit [IsPreorder σ R] in
theorem Along.wp {m : Exec σ ε α} (h : Along R m) {I : σ → Prop} {s : σ}
    (hI : ∀ s', R s s' → I s') :
  wp m (fun _ => I) (fun _ => I) s
  := wp_of_state (hI _ (h s))

end Along

/-! ### Calls that do not panic -/

section Calm

/-- The call `m` never panics. -/
def Calm (m : Exec σ ε α) : Prop := ∀ s, (m s).1 ≠ .panic

theorem Calm.pure (a : α) :
  Calm (Pure.pure a : Exec σ ε α)
  := by intro _ h; cases h

theorem Calm.fail (e : ε) :
  Calm (fail e : Exec σ ε α)
  := by intro _ h; cases h

theorem Calm.update (f : σ → σ) :
  Calm (update f : Exec σ ε Unit)
  := by intro _ h; cases h

theorem Calm.bind {m : Exec σ ε β} {k : β → Exec σ ε α} (hm : Calm m) (hk : ∀ b, Calm (k b)) :
  Calm (m >>= k)
  := by
  intro s
  have h := hm s
  simp only [Bind.bind]
  rcases hs : m s with ⟨b | e | _, s'⟩ <;> rw [hs] at h
  · exact hk b s'
  · simp
  · exact absurd rfl h

theorem Calm.read {k : σ → Exec σ ε α} (hk : ∀ s, Calm (k s)) :
  Calm (Exec.read >>= k)
  := fun s => hk s s

theorem Calm.ite {c : Prop} [Decidable c] {m m' : Exec σ ε α} (h : Calm m) (h' : Calm m') :
  Calm (if c then m else m')
  := by
  split
  · exact h
  · exact h'

theorem Calm.attempt {m : Exec σ ε α} (h : Calm m) :
  Calm (attempt m)
  := by
  intro s
  have h := h s
  simp only [Exec.attempt]
  rcases hs : m s with ⟨b | e | _, s'⟩ <;> rw [hs] at h
  · simp
  · simp
  · exact absurd rfl h

theorem Calm.wp {m : Exec σ ε α} (h : Calm m) {Q : α → σ → Prop} {E : Option ε → σ → Prop} {s : σ}
    (hw : wp m Q (fun e s' => e ≠ none → E e s') s) :
  wp m Q E s
  := by
  have h := h s
  simp only [Exec.wp] at hw ⊢
  rcases hs : m s with ⟨b | e | _, s'⟩ <;> rw [hs] at h hw
  · exact hw
  · exact hw (by simp)
  · exact absurd rfl h

end Calm

/-! ### Calls that maintain an invariant -/

section Maintains

variable {I F : σ → Prop}

/-- From a state with `I`, the call `m` ends in a state with `I`, or fails in one with
`F`. -/
def Maintains (I F : σ → Prop) (m : Exec σ ε α) : Prop :=
  ∀ s, I s → wp m (fun _ => I) (fun _ => F) s

theorem Maintains.pure (a : α) :
  Maintains I F (Pure.pure a : Exec σ ε α)
  := fun _ h => h

theorem Maintains.fail (hF : ∀ s, I s → F s) (e : ε) :
  Maintains I F (fail e : Exec σ ε α)
  := hF

theorem Maintains.bind {m : Exec σ ε β} {k : β → Exec σ ε α} (hm : Maintains I F m)
    (hk : ∀ b, Maintains I F (k b)) :
  Maintains I F (m >>= k)
  := by
  intro s h
  rw [wp_bind]
  exact wp_mono (hm s h) (fun b s' => hk b s') fun _ _ => id

theorem Maintains.read {k : σ → Exec σ ε α} (hk : ∀ s, I s → wp (k s) (fun _ => I) (fun _ => F) s) :
  Maintains I F (Exec.read >>= k)
  := by
  intro s h
  rw [wp_bind]
  exact hk s h

theorem Along.maintains {R : σ → σ → Prop} {m : Exec σ ε α} (h : Along R m)
    (hI : ∀ {s s'}, R s s' → I s → I s') (hF : ∀ {s}, I s → F s) :
  Maintains I F m
  := by
  intro s hs
  exact wp_mono (h.wp fun s' hR => hI hR hs) (fun _ _ => id) fun _ _ => hF

theorem Maintains.ite {c : Prop} [Decidable c] {m m' : Exec σ ε α} (h : Maintains I F m)
    (h' : Maintains I F m') :
  Maintains I F (if c then m else m')
  := by
  split
  · exact h
  · exact h'

theorem Maintains.attempt {m : Exec σ ε α} (h : Maintains I I m) (hF : ∀ s, I s → F s) :
  Maintains I F (attempt m)
  := by
  intro s hs
  rw [wp_attempt]
  apply wp_mono (h s hs) fun _ _ => id
  rintro (_ | e) s' hs'
  · exact hF s' hs'
  · exact hs'

theorem Maintains.mapErr {m : Exec σ ε α} (h : Maintains I F m) (f : ε → ε) :
  Maintains I F (mapErr f m)
  := by
  intro s hs
  rw [wp_mapErr]
  exact h s hs

theorem Maintains.state {m : Exec σ ε α} (h : Maintains I I m) {s : σ} (hs : I s) :
  I (m s).2
  := wp_state (h s hs)

end Maintains

end Exec

export Exec (wp wp_pure wp_bind wp_read wp_update wp_fail wp_ite wp_attempt wp_mapErr wp_mono wp_state
  wp_of_state wp_elim wp_and wp_of_forall)
