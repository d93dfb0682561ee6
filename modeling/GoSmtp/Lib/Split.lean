import Mathlib.Data.List.Basic

/-!
# Splitting at a separator

The parts of a list between the occurrences of an element, as `List.splitOn` has them.
-/

namespace Split

variable {α : Type} [DecidableEq α] {x c : α} {v w : List α}

theorem cons (x c : α) (w : List α) :
  (c :: w).splitOn x =
    if c == x then [] :: w.splitOn x else (w.splitOn x).modifyHead (List.cons c)
  := List.splitOnP_cons_eq_if_modifyHead c w

theorem ne_nil (x : α) (w : List α) :
  w.splitOn x ≠ []
  := List.splitOnP_ne_nil _ w

theorem append (h : x ∉ v) (w : List α) :
  (v ++ w).splitOn x = (w.splitOn x).modifyHead (v ++ ·)
  := by
  induction v with
  | nil =>
    obtain ⟨part, parts, hparts⟩ := List.exists_cons_of_ne_nil (ne_nil x w)
    rw [List.nil_append, hparts]
    rfl
  | cons c v ih =>
    have hc : (c == x) = false := by simpa using Ne.symm (List.ne_of_not_mem_cons h)
    rw [List.cons_append, cons, hc, ih (List.not_mem_of_not_mem_cons h)]
    obtain ⟨part, parts, hparts⟩ := List.exists_cons_of_ne_nil (ne_nil x w)
    rw [hparts]
    rfl

theorem of_not_mem (h : x ∉ w) :
  w.splitOn x = [w]
  := by
  have happend := append h []
  rw [List.append_nil] at happend
  rw [happend]
  simp [List.splitOn]

theorem mem (hc : c ∈ w) (hne : c ≠ x) :
  ∃ part ∈ w.splitOn x, c ∈ part
  := by
  induction w with
  | nil => cases hc
  | cons b w ih =>
    obtain ⟨first, others, hsplit⟩ := List.exists_cons_of_ne_nil (ne_nil x w)
    rw [hsplit] at ih
    rw [cons, hsplit]
    split
    · next hb =>
      have hcw : c ∈ w := (List.mem_cons.mp hc).resolve_left fun h => hne (h ▸ eq_of_beq hb)
      obtain ⟨part, hpart, hmem⟩ := ih hcw
      exact ⟨part, List.mem_cons_of_mem _ hpart, hmem⟩
    · rcases List.mem_cons.mp hc with rfl | hcw
      · exact ⟨c :: first, by simp, List.mem_cons_self⟩
      · obtain ⟨part, hpart, hmem⟩ := ih hcw
        rcases List.mem_cons.mp hpart with rfl | hothers
        · exact ⟨b :: part, by simp, List.mem_cons_of_mem b hmem⟩
        · exact ⟨part, List.mem_cons_of_mem _ hothers, hmem⟩

theorem not_mem (h : v ∈ w.splitOn x) :
  x ∉ v
  := by
  induction w generalizing v with
  | nil =>
    have hv : v = [] := by simpa [List.splitOn] using h
    rw [hv]
    exact List.not_mem_nil
  | cons b w ih =>
    obtain ⟨first, others, hsplit⟩ := List.exists_cons_of_ne_nil (ne_nil x w)
    rw [hsplit] at ih
    rw [cons, hsplit] at h
    split at h
    · rcases List.mem_cons.mp h with rfl | h
      · exact List.not_mem_nil
      · exact ih h
    · next hb =>
      rcases List.mem_cons.mp h with rfl | h
      · have hb : x ≠ b := fun hx => hb (beq_iff_eq.mpr hx.symm)
        simp [hb, ih List.mem_cons_self]
      · exact ih (List.mem_cons_of_mem _ h)

theorem intercalate_iff {parts : List (List α)} (h : parts ≠ []) :
  ([x].intercalate parts).splitOn x = parts ↔ ∀ part ∈ parts, x ∉ part
  := by
  constructor
  · intro hparts part hpart
    apply not_mem
    rw [hparts]
    exact hpart
  · exact fun hparts => List.splitOn_intercalate x hparts h

end Split
