import Mathlib.Data.List.TakeWhile
import GoSmtp.Lib.Reorder

/-!
# Canonical ordering and composition

The two steps that the normalization forms share, for any combining classes and any table of
composites.  Composition keeps the index of the last starter and the highest class behind it;
the rule it implements looks at the characters in between.
-/

namespace GoSmtp.Unicode

/-- A code point. -/
abbrev Rune := Nat

section

variable (combiningClass : Rune → Nat) (composePair : Rune → Rune → Option Rune)

/-! ### The two steps -/

/-- Each maximal run of runes that are no starters is sorted by class, with a stable sort. -/
def canonicalOrder : List Rune → List Rune
  | [] => []
  | r :: runes =>
    if combiningClass r = 0 then r :: canonicalOrder runes
    else
      let run := r :: runes.takeWhile (combiningClass · ≠ 0)
      run.insertionSort (fun a b => combiningClass a ≤ combiningClass b) ++
        canonicalOrder (runes.dropWhile (combiningClass · ≠ 0))
  termination_by runes => runes.length
  decreasing_by
    · simp
    · have hle := List.length_dropWhile_le (combiningClass · ≠ 0) runes
      simp only [List.length_cons]
      omega

structure Composition where
  out : List Rune
  /-- The index of the last starter, or -1. -/
  starterIdx : Int
  /-- The highest class behind the last starter, or -1. -/
  blockingClass : Int

/-- The rune is no part of a composite. -/
def Composition.append (st : Composition) (r : Rune) : Composition :=
  let ccc := combiningClass r
  let out := st.out ++ [r]
  if ccc = 0 then { out := out, starterIdx := out.length - 1, blockingClass := -1 }
  else if 0 ≤ st.starterIdx ∧ ccc > st.blockingClass then
    { st with out := out, blockingClass := ccc }
  else { st with out := out }

def composeStep (st : Composition) (r : Rune) : Composition :=
  let ccc := combiningClass r
  let composed :=
    if 0 ≤ st.starterIdx then
      let blocked := st.blockingClass ≥ ccc
      if ¬ blocked then composePair (st.out.getD st.starterIdx.toNat 0) r else none
    else none
  match composed with
  | some c => { st with out := st.out.set st.starterIdx.toNat c }
  | none => st.append combiningClass r

def compose : List Rune → List Rune
  | [] => []
  | r :: runes =>
    let starterIdx := if combiningClass r ≠ 0 then -1 else 0
    (runes.foldl (composeStep combiningClass composePair)
      { out := [r], starterIdx := starterIdx, blockingClass := -1 }).out

/-! ### The rule of composition -/

/-- A rune of the result, and the class of the character that was first put in its place.  A
composite stands in the place of a starter, as one. -/
structure Placed where
  rune : Rune
  cls : Nat

/-- The rule for one character, over the result so far, its last rune first.  The last starter
is replaced by its composite with the character, unless a character behind it is of class 0 or
of no lower class. -/
def ruleStep (out : List Placed) (r : Rune) : List Placed :=
  let kept := ⟨r, combiningClass r⟩ :: out
  let behind := out.takeWhile (fun b => b.cls ≠ 0)
  match out.dropWhile (fun b => b.cls ≠ 0) with
  | [] => kept
  | starter :: before =>
    if ∃ b ∈ behind, b.cls = 0 ∨ b.cls ≥ combiningClass r then kept
    else
      match composePair starter.rune r with
      | none => kept
      | some c => behind ++ { starter with rune := c } :: before

def ruleCompose (runes : List Rune) : List Rune :=
  ((runes.foldl (ruleStep combiningClass composePair) []).map Placed.rune).reverse

end

variable {combiningClass : Rune → Nat} {composePair : Rune → Rune → Option Rune}

/-! ### Ordering -/

theorem canonicalOrder_eq (runes : List Rune) :
  canonicalOrder combiningClass runes = Reorder.order combiningClass runes
  := by
  fun_induction canonicalOrder with
  | case1 => rfl
  | case2 r runes h ih => rw [ih, Reorder.order_cons_of_zero h]
  | case3 r runes h run ih =>
    have hrun : ∀ b ∈ run, combiningClass b ≠ 0 := by
      intro b hb
      rcases List.mem_cons.mp hb with rfl | hb
      · exact h
      · simpa using List.mem_takeWhile_imp hb
    have hsplit : r :: runes = run ++ runes.dropWhile (combiningClass · ≠ 0) := by
      rw [List.cons_append, List.takeWhile_append_dropWhile]
    rw [ih, hsplit, ← Reorder.order_run hrun]
    cases hrest : runes.dropWhile (combiningClass · ≠ 0) with
    | nil => simp
    | cons s rest =>
      have hs : combiningClass s = 0 := by
        have hhead := List.head?_dropWhile_not (combiningClass · ≠ 0) runes
        rw [hrest] at hhead
        simpa using hhead
      rw [Reorder.order_append_cons hs, Reorder.order_cons_of_zero hs]

/-- The order that a stable sort by class brings a run into. -/
def StablySorted (combiningClass : Rune → Nat) (run sorted : List Rune) : Prop :=
  sorted.Perm run ∧ sorted.Pairwise (fun a b => combiningClass a ≤ combiningClass b) ∧
    ∀ k, sorted.filter (combiningClass · = k) = run.filter (combiningClass · = k)

theorem stablySorted_insertionSort (run : List Rune) :
  StablySorted combiningClass run
    (run.insertionSort (fun a b => combiningClass a ≤ combiningClass b))
  := by
  refine ⟨List.perm_insertionSort _ _, ?_, fun k => Reorder.filter_insertionSort k run⟩
  have : Std.Total (fun a b => combiningClass a ≤ combiningClass b) :=
    ⟨fun a b => Nat.le_total _ _⟩
  have : IsTrans Rune (fun a b => combiningClass a ≤ combiningClass b) :=
    ⟨fun _ _ _ => Nat.le_trans⟩
  apply List.pairwise_insertionSort

theorem canonicalOrder_starter {s : Rune} (hs : combiningClass s = 0) (before after : List Rune) :
  canonicalOrder combiningClass (before ++ s :: after) =
    canonicalOrder combiningClass before ++ s :: canonicalOrder combiningClass after
  := by
  rw [canonicalOrder_eq, canonicalOrder_eq, canonicalOrder_eq]
  exact Reorder.order_append_cons hs before after

theorem canonicalOrder_perm (runes : List Rune) :
  (canonicalOrder combiningClass runes).Perm runes
  := by
  rw [canonicalOrder_eq]
  exact Reorder.order_perm runes

theorem canonicalOrder_in_place {runes : List Rune} {i : Nat} {s : Rune}
    (hi : runes[i]? = some s) (hs : combiningClass s = 0) :
  (canonicalOrder combiningClass runes)[i]? = some s
  := by
  obtain ⟨hlt, rfl⟩ := List.getElem?_eq_some_iff.mp hi
  have hsplit : runes = runes.take i ++ runes[i] :: runes.drop (i + 1) := by simp
  have hlength : (canonicalOrder combiningClass (runes.take i)).length = i := by
    rw [(canonicalOrder_perm _).length_eq, List.length_take]
    omega
  have horder := canonicalOrder_starter hs (runes.take i) (runes.drop (i + 1))
  rw [← hsplit] at horder
  rw [horder, List.getElem?_append_right (by omega), hlength, Nat.sub_self, List.getElem?_cons_zero]

/-- The runes of a text between two starters, or between a starter and an end of the text. -/
structure MaximalRun (combiningClass : Rune → Nat) (before run after : List Rune) : Prop where
  inside : ∀ r ∈ run, combiningClass r ≠ 0
  left : ∀ s, before.getLast? = some s → combiningClass s = 0
  right : ∀ s, after.head? = some s → combiningClass s = 0

theorem canonicalOrder_run {before run after : List Rune}
    (h : MaximalRun combiningClass before run after) :
  canonicalOrder combiningClass (before ++ run ++ after) =
    canonicalOrder combiningClass before ++
      run.insertionSort (fun a b => combiningClass a ≤ combiningClass b) ++
        canonicalOrder combiningClass after
  := by
  have hafter : canonicalOrder combiningClass (run ++ after) =
      canonicalOrder combiningClass run ++ canonicalOrder combiningClass after := by
    cases after with
    | nil => simp [canonicalOrder]
    | cons s after =>
      have hs := h.right s rfl
      rw [canonicalOrder_starter hs, canonicalOrder, if_pos hs]
  have hrun : canonicalOrder combiningClass run =
      run.insertionSort (fun a b => combiningClass a ≤ combiningClass b) := by
    rw [canonicalOrder_eq, Reorder.order_run h.inside]
  rw [List.append_assoc, List.append_assoc, ← hrun, ← hafter]
  rcases List.eq_nil_or_concat before with rfl | ⟨first, s, rfl⟩
  · simp [canonicalOrder]
  · have hs := h.left s (by simp)
    rw [List.concat_eq_append, List.append_assoc, List.singleton_append,
      canonicalOrder_starter hs, canonicalOrder_starter hs]
    simp [canonicalOrder]

/-! ### Composition follows the rule -/

/-- What the loop keeps of the result so far: where its last starter is, and the highest class
behind it. -/
inductive Keeps : Composition → List Placed → Prop
  | leading (behind : List Placed) :
      (∀ b ∈ behind, b.cls ≠ 0) →
      Keeps { out := (behind.map Placed.rune).reverse, starterIdx := -1, blockingClass := -1 }
        behind
  | started (behind before : List Placed) (starter : Placed) (blockingClass : Int) :
      (∀ b ∈ behind, b.cls ≠ 0) → starter.cls = 0 →
      (∀ k : Nat, blockingClass ≥ k ↔ ∃ b ∈ behind, b.cls ≥ k) →
      Keeps
        { out := ((behind ++ starter :: before).map Placed.rune).reverse
          starterIdx := before.length, blockingClass := blockingClass }
        (behind ++ starter :: before)

theorem keeps_out {st : Composition} {out : List Placed} (h : Keeps st out) :
  st.out = (out.map Placed.rune).reverse
  := by cases h <;> rfl

theorem split_leading {behind : List Placed} (h : ∀ b ∈ behind, b.cls ≠ 0) :
  behind.dropWhile (fun b => b.cls ≠ 0) = []
  := by
  rw [List.dropWhile_eq_nil_iff]
  simpa using h

theorem split_started {behind : List Placed} {starter : Placed}
    (h : ∀ b ∈ behind, b.cls ≠ 0) (hstarter : starter.cls = 0) (before : List Placed) :
  (behind ++ starter :: before).takeWhile (fun b => b.cls ≠ 0) = behind ∧
    (behind ++ starter :: before).dropWhile (fun b => b.cls ≠ 0) = starter :: before
  := by
  constructor
  · rw [List.takeWhile_append_of_pos (by simpa using h)]
    simp [hstarter]
  · rw [List.dropWhile_append_of_pos (by simpa using h)]
    simp [hstarter]

theorem keeps_append {st : Composition} {out : List Placed} (h : Keeps st out) (r : Rune) :
  Keeps (st.append combiningClass r) (⟨r, combiningClass r⟩ :: out)
  := by
  rw [Composition.append]
  by_cases hr : combiningClass r = 0
  · have hkeeps := Keeps.started [] out ⟨r, combiningClass r⟩ (-1) (by simp) hr (by simp; omega)
    rw [if_pos hr, keeps_out h]
    simpa using hkeeps
  · rw [if_neg hr]
    cases h with
    | leading _ hbehind =>
      have hkeeps := Keeps.leading (⟨r, combiningClass r⟩ :: out)
        (List.forall_mem_cons.mpr ⟨hr, hbehind⟩)
      rw [if_neg (by simp)]
      simpa using hkeeps
    | started behind before starter blockingClass hbehind hstarter hblocking =>
      have hkeeps := Keeps.started (⟨r, combiningClass r⟩ :: behind) before starter
        (if combiningClass r > blockingClass then combiningClass r else blockingClass)
        (List.forall_mem_cons.mpr ⟨hr, hbehind⟩) hstarter
        (by
          intro k
          simp only [List.exists_mem_cons_iff, ← hblocking]
          split <;> omega)
      split
      · next h =>
        rw [if_pos h.2] at hkeeps
        simpa using hkeeps
      · next h =>
        rw [if_neg (by simpa using h)] at hkeeps
        simpa using hkeeps

theorem keeps_step {st : Composition} {out : List Placed} (h : Keeps st out) (r : Rune) :
  Keeps (composeStep combiningClass composePair st r) (ruleStep combiningClass composePair out r)
  := by
  have hkept : Keeps (st.append combiningClass r) (⟨r, combiningClass r⟩ :: out) :=
    keeps_append h r
  cases h with
  | leading _ hbehind =>
    rw [composeStep, ruleStep, split_leading hbehind]
    exact hkept
  | started behind before starter blockingClass hbehind hstarter hblocking =>
    obtain ⟨htake, hdrop⟩ := split_started hbehind hstarter before
    have hget : (((behind ++ starter :: before).map Placed.rune).reverse).getD before.length 0 =
        starter.rune := by
      simp
    have hblocked : (∃ b ∈ behind, b.cls = 0 ∨ b.cls ≥ combiningClass r) ↔
        blockingClass ≥ combiningClass r := by
      rw [hblocking]
      constructor
      · rintro ⟨b, hb, hzero | hge⟩
        · exact absurd hzero (hbehind b hb)
        · exact ⟨b, hb, hge⟩
      · rintro ⟨b, hb, hge⟩
        exact ⟨b, hb, Or.inr hge⟩
    simp only [composeStep, ruleStep, htake, hdrop, hblocked, Int.toNat_natCast, hget,
      Int.natCast_nonneg, if_true]
    by_cases hcls : blockingClass ≥ combiningClass r
    · rw [if_pos hcls, if_neg (not_not.mpr hcls)]
      exact hkept
    · rw [if_neg hcls, if_pos hcls]
      cases composePair starter.rune r with
      | none => exact hkept
      | some c =>
        have hkeeps := Keeps.started behind before { starter with rune := c } blockingClass
          hbehind hstarter hblocking
        simpa using hkeeps

theorem keeps_loop {st : Composition} {out : List Placed} (h : Keeps st out) (runes : List Rune) :
  Keeps (runes.foldl (composeStep combiningClass composePair) st)
    (runes.foldl (ruleStep combiningClass composePair) out)
  := by
  induction runes generalizing st out with
  | nil => exact h
  | cons r runes ih => exact ih (keeps_step h r)

theorem compose_eq (runes : List Rune) :
  compose combiningClass composePair runes = ruleCompose combiningClass composePair runes
  := by
  cases runes with
  | nil => rfl
  | cons r runes =>
    have hstart : Keeps
        { out := [r], starterIdx := if combiningClass r ≠ 0 then -1 else 0, blockingClass := -1 }
        [⟨r, combiningClass r⟩] := by
      have hfirst : Keeps _ [⟨r, combiningClass r⟩] :=
        keeps_append (.leading [] (List.forall_mem_nil _)) r
      by_cases hr : combiningClass r = 0
      · simpa [Composition.append, hr] using hfirst
      · simpa [Composition.append, hr] using hfirst
    exact keeps_out (keeps_loop hstart runes)

/-! ### What a composed text consists of -/

theorem mem_ruleStep {out : List Placed} {r : Rune} {b : Placed}
    (hb : b ∈ ruleStep combiningClass composePair out r) :
  b ∈ out ∨ b.rune = r ∨ ∃ s r, composePair s r = some b.rune
  := by
  have hkept {b : Placed} (hb : b ∈ ⟨r, combiningClass r⟩ :: out) :
      b ∈ out ∨ b.rune = r ∨ ∃ s r, composePair s r = some b.rune := by
    rcases List.mem_cons.mp hb with rfl | hb
    · exact Or.inr (Or.inl rfl)
    · exact Or.inl hb
  have hsplit := List.takeWhile_append_dropWhile (p := fun b : Placed => b.cls ≠ 0) (l := out)
  rw [ruleStep] at hb
  generalize out.takeWhile (fun b : Placed => b.cls ≠ 0) = behind at hsplit hb
  split at hb
  · exact hkept hb
  · next starter before hrest =>
    rw [hrest] at hsplit
    split at hb
    · exact hkept hb
    · split at hb
      · exact hkept hb
      · next c hpair =>
        rw [← hsplit]
        rcases List.mem_append.mp hb with hb | hb
        · exact Or.inl (List.mem_append_left _ hb)
        · rcases List.mem_cons.mp hb with rfl | hb
          · exact Or.inr (Or.inr ⟨_, _, hpair⟩)
          · exact Or.inl (List.mem_append_right _ (List.mem_cons_of_mem _ hb))

theorem mem_foldl_ruleStep {runes : List Rune} {out : List Placed} {b : Placed}
    (hb : b ∈ runes.foldl (ruleStep combiningClass composePair) out) :
  b ∈ out ∨ b.rune ∈ runes ∨ ∃ s r, composePair s r = some b.rune
  := by
  induction runes generalizing out with
  | nil => exact Or.inl hb
  | cons r runes ih =>
    rcases ih hb with hb | hb | hb
    · rcases mem_ruleStep hb with hb | hb | hb
      · exact Or.inl hb
      · exact Or.inr (Or.inl (hb ▸ List.mem_cons_self))
      · exact Or.inr (Or.inr hb)
    · exact Or.inr (Or.inl (List.mem_cons_of_mem _ hb))
    · exact Or.inr (Or.inr hb)

theorem mem_compose {runes : List Rune} {c : Rune}
    (hc : c ∈ compose combiningClass composePair runes) :
  c ∈ runes ∨ ∃ s r, composePair s r = some c
  := by
  rw [compose_eq, ruleCompose, List.mem_reverse, List.mem_map] at hc
  obtain ⟨b, hb, rfl⟩ := hc
  rcases mem_foldl_ruleStep hb with hb | hb
  · exact absurd hb List.not_mem_nil
  · exact hb

/-! ### What the two steps do -/

/-- Composition is the rule, which it applies to any text; and ordering moves no starter, and
sorts what stands between starters. -/
theorem compose_follows_rule (combiningClass : Rune → Nat)
    (composePair : Rune → Rune → Option Rune) :
  (∀ runes, compose combiningClass composePair runes =
    ruleCompose combiningClass composePair runes) ∧
  ∀ runes,
    (canonicalOrder combiningClass runes).Perm runes ∧
    (∀ (i : Nat) (s : Rune), runes[i]? = some s → combiningClass s = 0 →
      (canonicalOrder combiningClass runes)[i]? = some s) ∧
    ∀ before run after, runes = before ++ run ++ after →
      MaximalRun combiningClass before run after →
      ∃ sorted, StablySorted combiningClass run sorted ∧
        canonicalOrder combiningClass runes =
          canonicalOrder combiningClass before ++ sorted ++ canonicalOrder combiningClass after
  := by
  refine ⟨compose_eq, fun runes => ⟨canonicalOrder_perm runes, ?_, ?_⟩⟩
  · intro i s hi hs
    exact canonicalOrder_in_place hi hs
  · rintro before run after rfl hrun
    exact ⟨_, stablySorted_insertionSort run, canonicalOrder_run hrun⟩

/-- The classes of an acute accent and of a dot below. -/
def accentClass (r : Rune) : Nat := if r = 0x301 then 230 else if r = 0x323 then 220 else 0

theorem compose_follows_rule_accents :
  MaximalRun accentClass [0x61] [0x301, 0x323] [] ∧
    ∃ sorted, StablySorted accentClass [0x301, 0x323] sorted ∧
      canonicalOrder accentClass [0x61, 0x301, 0x323] =
        canonicalOrder accentClass [0x61] ++ sorted ++ canonicalOrder accentClass []
  := by
  have hrun : MaximalRun accentClass [0x61] [0x301, 0x323] [] :=
    ⟨by decide, by simp [accentClass], by simp⟩
  have hrule := compose_follows_rule accentClass (fun _ _ => none)
  exact ⟨hrun, (hrule.2 [0x61, 0x301, 0x323]).2.2 _ _ _ rfl hrun⟩

end GoSmtp.Unicode
