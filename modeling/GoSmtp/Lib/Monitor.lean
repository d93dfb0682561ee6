import Mathlib.Data.List.Induction
import Mathlib.Tactic.Common

/-!
# Monitors

A monitor reads a sequence of events.  It keeps a state, and says of every event whether it is
legal in the state before it.  A sequence is accepted if all of its events are legal.

`Since p q` is the operator of temporal logic that looks back: there was an event with `p`, and
none with `q` after it.
-/

section Since

variable {α : Type} {p q : α → Bool}

/-- Some event has `p`, and none since then has `q`. -/
def Since (p q : α → Bool) (t : List α) : Prop :=
  ∃ before a after, t = before ++ a :: after ∧ p a = true ∧ ∀ b ∈ after, q b = false

@[simp]
theorem not_since_nil :
  ¬ Since p q []
  := by
  rintro ⟨before, a, after, h, -⟩
  simp at h

@[simp]
theorem since_snoc {t : List α} {a : α} :
  Since p q (t ++ [a]) ↔ p a = true ∨ q a = false ∧ Since p q t
  := by
  constructor
  · rintro ⟨before, b, after, h, hp, hq⟩
    rcases List.eq_nil_or_concat after with rfl | ⟨after, c, rfl⟩
    · obtain ⟨-, hlast⟩ := List.append_inj' h rfl
      cases hlast
      exact .inl hp
    · rw [List.concat_eq_append, ← List.cons_append, ← List.append_assoc] at h
      obtain ⟨rfl, hlast⟩ := List.append_inj' h rfl
      cases hlast
      refine .inr ⟨hq a (by simp), before, b, after, rfl, hp, fun b hb => hq b (by simp [hb])⟩
  · rintro (hp | ⟨ha, before, b, after, rfl, hp, hq⟩)
    · exact ⟨t, a, [], rfl, hp, by simp⟩
    · refine ⟨before, b, after ++ [a], by simp, hp, ?_⟩
      intro c hc
      rcases List.mem_append.mp hc with hc | hc
      · exact hq c hc
      · rw [List.mem_singleton.mp hc]
        exact ha

end Since

structure Monitor (σ α : Type) where
  init : σ
  step : σ → α → σ
  legal : σ → α → Prop

namespace Monitor

variable {σ α : Type} (m : Monitor σ α)

/-- The state after the events `t`. -/
def run (t : List α) : σ := t.foldl m.step m.init

/-- Every event is legal in the state that the events before it lead to. -/
def Accepts (t : List α) : Prop :=
  ∀ before a after, t = before ++ a :: after → m.legal (m.run before) a

@[simp]
theorem run_snoc (t : List α) (a : α) :
  m.run (t ++ [a]) = m.step (m.run t) a
  := by
  simp [run]

variable {m}

theorem accepts_nil :
  m.Accepts []
  := by
  intro before a after h
  simp at h

theorem Accepts.snoc {t : List α} {a : α} (h : m.Accepts t) (ha : m.legal (m.run t) a) :
  m.Accepts (t ++ [a])
  := by
  intro before a' after heq
  rcases List.eq_nil_or_concat after with rfl | ⟨after, a'', rfl⟩
  · obtain ⟨rfl, hlast⟩ := List.append_inj' heq rfl
    cases hlast
    exact ha
  · rw [List.concat_eq_append, ← List.cons_append, ← List.append_assoc] at heq
    exact h before a' after (List.append_inj' heq rfl).1

theorem Accepts.of_append {t u : List α} (h : m.Accepts (t ++ u)) :
  m.Accepts t
  := by
  intro before a after heq
  apply h before a (after ++ u)
  rw [heq, List.append_assoc, List.cons_append]

theorem Accepts.last {t : List α} {a : α} (h : m.Accepts (t ++ [a])) :
  m.legal (m.run t) a
  := h t a [] rfl

end Monitor
