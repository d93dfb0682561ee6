import Mathlib.Data.List.Sort
import Mathlib.Logic.Relation

/-!
# Reordering by class

Every element has a class.  An element of class 0 stands where it is; two neighbours of different
classes other than 0 may change places.  Lists that become one another this way are `Reordered`,
and `order` picks one list of each such family: it sorts every run of elements between two of
class 0, and keeps the order of elements of one class.
-/

namespace Reorder

variable {α : Type} (cls : α → Nat)

/-- Two neighbours change places. -/
inductive Swap : List α → List α → Prop
  | swap (u v : List α) (a b : α) :
      cls a ≠ 0 → cls b ≠ 0 → cls a ≠ cls b → Swap (u ++ a :: b :: v) (u ++ b :: a :: v)

/-- Any number of neighbours change places. -/
def Reordered : List α → List α → Prop := Relation.EqvGen (Swap cls)

/-- Puts an element before a list, behind those of lower class that are not of class 0. -/
def settle (a : α) : List α → List α
  | [] => [a]
  | b :: l => if cls b = 0 ∨ cls a ≤ cls b then a :: b :: l else b :: settle a l

/-- Each element is settled before those that follow it. -/
def order (l : List α) : List α := l.foldr (settle cls) []

variable {cls} {a b : α} {l l' m m' : List α}

@[simp]
theorem order_nil :
  order cls [] = []
  := rfl

@[simp]
theorem order_cons :
  order cls (a :: l) = settle cls a (order cls l)
  := rfl

theorem order_append :
  order cls (l ++ m) = l.foldr (settle cls) (order cls m)
  := List.foldr_append

/-! ### Reordered lists -/

namespace Reordered

theorem refl (l : List α) :
  Reordered cls l l
  := Relation.EqvGen.refl l

theorem symm (h : Reordered cls l m) :
  Reordered cls m l
  := Relation.EqvGen.symm _ _ h

theorem trans {n : List α} (h : Reordered cls l m) (h' : Reordered cls m n) :
  Reordered cls l n
  := Relation.EqvGen.trans _ _ _ h h'

theorem between (u v : List α) (h : Reordered cls l m) :
  Reordered cls (u ++ l ++ v) (u ++ m ++ v)
  := by
  induction h with
  | rel l m h =>
    obtain ⟨u', v', a, b, ha, hb, hab⟩ := h
    have hswap := Swap.swap (u ++ u') (v' ++ v) a b ha hb hab
    apply Relation.EqvGen.rel
    simpa using hswap
  | refl l => apply refl
  | symm l m _ ih => exact ih.symm
  | trans l m n _ _ ih ih' => exact ih.trans ih'

theorem append (h : Reordered cls l m) (h' : Reordered cls l' m') :
  Reordered cls (l ++ l') (m ++ m')
  := by
  have hleft := between [] l' h
  have hright := between m [] h'
  rw [List.append_nil, List.append_nil] at hright
  exact hleft.trans hright

theorem cons (a : α) (h : Reordered cls l m) :
  Reordered cls (a :: l) (a :: m)
  := append (refl [a]) h

theorem pass (ha : cls a ≠ 0) (h : ∀ b ∈ l, cls b ≠ 0 ∧ cls b ≠ cls a) :
  Reordered cls (a :: l) (l ++ [a])
  := by
  induction l with
  | nil => apply refl
  | cons b l ih =>
    obtain ⟨⟨hb, hba⟩, hl⟩ := List.forall_mem_cons.mp h
    have hswap : Reordered cls (a :: b :: l) (b :: a :: l) :=
      Relation.EqvGen.rel _ _ (Swap.swap [] l a b ha hb hba.symm)
    apply hswap.trans
    apply cons
    exact ih hl

end Reordered

/-! ### The order is one of the reordered lists -/

theorem settle_reordered (a : α) (l : List α) :
  Reordered cls (settle cls a l) (a :: l)
  := by
  induction l with
  | nil => apply Reordered.refl
  | cons b l ih =>
    rw [settle]
    split
    · apply Reordered.refl
    · next h =>
      push Not at h
      obtain ⟨hb, hba⟩ := h
      have hpass : Reordered cls (a :: b :: l) (b :: a :: l) :=
        Relation.EqvGen.rel _ _ (Swap.swap [] l a b (by omega) hb (by omega))
      exact (ih.cons b).trans hpass.symm

theorem order_reordered (l : List α) :
  Reordered cls (order cls l) l
  := by
  induction l with
  | nil => apply Reordered.refl
  | cons a l ih =>
    apply (settle_reordered a _).trans
    exact ih.cons a

/-! ### Reordered lists have one order -/

theorem settle_comm_of_lt (ha : cls a ≠ 0) (hab : cls a < cls b) (l : List α) :
  settle cls a (settle cls b l) = settle cls b (settle cls a l)
  := by
  have hbehind (l : List α) : settle cls b (a :: l) = a :: settle cls b l := by
    rw [settle, if_neg (by omega)]
  induction l with
  | nil =>
    rw [settle, settle, settle, if_pos (by omega), hbehind, settle]
  | cons c l ih =>
    by_cases hc : cls c = 0 ∨ cls b ≤ cls c
    · rw [settle, if_pos hc, settle, if_pos (by omega), settle, if_pos (by omega), hbehind,
        settle, if_pos hc]
    · by_cases hac : cls a ≤ cls c
      · rw [settle, if_neg hc, settle, if_pos (by omega), settle, if_pos (by omega), hbehind,
          settle, if_neg hc]
      · rw [settle, if_neg hc, settle, if_neg (by omega), ih, settle, if_neg (by omega),
          settle, if_neg hc]

theorem settle_comm (ha : cls a ≠ 0) (hb : cls b ≠ 0) (hab : cls a ≠ cls b) (l : List α) :
  settle cls a (settle cls b l) = settle cls b (settle cls a l)
  := by
  rcases Nat.lt_or_gt_of_ne hab with h | h
  · exact settle_comm_of_lt ha h l
  · exact (settle_comm_of_lt hb h l).symm

theorem Reordered.order_eq (h : Reordered cls l m) :
  order cls l = order cls m
  := by
  induction h with
  | rel l m h =>
    obtain ⟨u, v, a, b, ha, hb, hab⟩ := h
    rw [order_append, order_append, order_cons, order_cons, order_cons, order_cons,
      settle_comm ha hb hab]
  | refl l => rfl
  | symm l m _ ih => exact ih.symm
  | trans l m n _ _ ih ih' => exact ih.trans ih'

/-! ### Elements of class 0 stay -/

theorem settle_append (hb : cls b = 0) (a : α) (l m : List α) :
  settle cls a (l ++ b :: m) = settle cls a l ++ b :: m
  := by
  induction l with
  | nil => rw [List.nil_append, settle, settle, if_pos (Or.inl hb), List.singleton_append]
  | cons c l ih =>
    rw [List.cons_append, settle, settle]
    split
    · rfl
    · rw [ih, List.cons_append]

theorem settle_of_zero (ha : cls a = 0) (l : List α) :
  settle cls a l = a :: l
  := by
  cases l with
  | nil => rfl
  | cons b l => rw [settle, if_pos (by omega)]

theorem order_cons_of_zero (ha : cls a = 0) (l : List α) :
  order cls (a :: l) = a :: order cls l
  := settle_of_zero ha _

theorem order_append_cons (hb : cls b = 0) (l m : List α) :
  order cls (l ++ b :: m) = order cls l ++ b :: order cls m
  := by
  induction l with
  | nil => rw [List.nil_append, order_cons_of_zero hb, order_nil, List.nil_append]
  | cons a l ih => rw [List.cons_append, order_cons, ih, settle_append hb, order_cons]

/-! ### Runs -/

theorem settle_eq_orderedInsert (h : ∀ b ∈ l, cls b ≠ 0) (a : α) :
  settle cls a l = l.orderedInsert (fun x y => cls x ≤ cls y) a
  := by
  induction l with
  | nil => rfl
  | cons b l ih =>
    obtain ⟨hb, hl⟩ := List.forall_mem_cons.mp h
    rw [settle, List.orderedInsert, ih hl]
    simp only [hb, false_or]

theorem order_run (h : ∀ b ∈ l, cls b ≠ 0) :
  order cls l = l.insertionSort (fun x y => cls x ≤ cls y)
  := by
  induction l with
  | nil => rfl
  | cons a l ih =>
    obtain ⟨-, hl⟩ := List.forall_mem_cons.mp h
    have hsorted : ∀ b ∈ l.insertionSort (fun x y => cls x ≤ cls y), cls b ≠ 0 := by
      intro b hb
      exact hl b ((List.mem_insertionSort _).mp hb)
    rw [order_cons, ih hl, settle_eq_orderedInsert hsorted, List.insertionSort_cons]

theorem order_perm (l : List α) :
  (order cls l).Perm l
  := by
  have hsettle (a : α) (l : List α) : (settle cls a l).Perm (a :: l) := by
    induction l with
    | nil => apply List.Perm.refl
    | cons b l ih =>
      rw [settle]
      split
      · apply List.Perm.refl
      · exact (ih.cons b).trans (List.Perm.swap a b l)
  induction l with
  | nil => apply List.Perm.refl
  | cons a l ih => exact (hsettle a _).trans (ih.cons a)

theorem filter_insertionSort (k : Nat) (l : List α) :
  (l.insertionSort (fun x y => cls x ≤ cls y)).filter (fun x => cls x = k) =
    l.filter (fun x => cls x = k)
  := by
  have hinsert (a : α) (l : List α) :
      (l.orderedInsert (fun x y => cls x ≤ cls y) a).filter (fun x => cls x = k) =
        (a :: l).filter (fun x => cls x = k) := by
    induction l with
    | nil => rfl
    | cons b l ih =>
      rw [List.orderedInsert]
      split
      · rfl
      · simp only [List.filter_cons, ih]
        by_cases ha : cls a = k
        · simp [show cls b ≠ k by omega]
        · simp [ha]
  induction l with
  | nil => rfl
  | cons a l ih => rw [List.insertionSort_cons, hinsert, List.filter_cons, ih, List.filter_cons]

end Reorder
