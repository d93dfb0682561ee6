import GoSmtp.Unicode.Normalize
import Mathlib.Algebra.Order.Ring.Nat

/-!
# Normalization keeps the decomposition

A composite decomposes to the starter and the character that it replaced.  The characters that
stood between them are of lower class, so the character goes back behind them by reordering, and
a normalized text has the ordered decomposition of the text it was made from.
-/

namespace GoSmtp.Unicode

open Reorder

variable {r : Rune} {t : Tables} {table : DecompTable}

/-! ### Undoing composition -/

section

variable {combiningClass : Rune → Nat} {composePair : Rune → Rune → Option Rune}
  {expand : Rune → List Rune}

/-- What is put in the place of a starter and a character decomposes to them. -/
def Undone (combiningClass : Rune → Nat) (composePair : Rune → Rune → Option Rune)
    (expand : Rune → List Rune) : Prop :=
  ∀ s r c, Utf8.isScalar s = true → Utf8.isScalar r = true → expand r = [r] →
    composePair s r = some c →
    Utf8.isScalar c = true ∧ Reordered combiningClass (expand c) (expand s ++ [r])

/-- The runes of a result are characters of the text, or composites in the place of starters. -/
def Traced (combiningClass : Rune → Nat) (expand : Rune → List Rune) (out : List Placed) : Prop :=
  ∀ b ∈ out, Utf8.isScalar b.rune = true ∧
    (b.cls ≠ 0 → b.cls = combiningClass b.rune ∧ expand b.rune = [b.rune])

/-- The decomposition of a result, its last rune first. -/
def undo (expand : Rune → List Rune) (out : List Placed) : List Rune :=
  (out.map Placed.rune).reverse.flatMap expand

theorem undo_cons (b : Placed) (out : List Placed) :
  undo expand (b :: out) = undo expand out ++ expand b.rune
  := by simp [undo]

theorem undo_append (behind out : List Placed) :
  undo expand (behind ++ out) = undo expand out ++ undo expand behind
  := by simp [undo]

theorem undo_behind {behind : List Placed} (htraced : Traced combiningClass expand behind)
    (h : ∀ b ∈ behind, b.cls ≠ 0) :
  undo expand behind = (behind.map Placed.rune).reverse
  := by
  induction behind with
  | nil => rfl
  | cons b behind ih =>
    obtain ⟨hb, hbehind⟩ := List.forall_mem_cons.mp h
    obtain ⟨htraced_b, htraced⟩ := List.forall_mem_cons.mp htraced
    rw [undo_cons, ih htraced hbehind, (htraced_b.2 hb).2, List.map_cons, List.reverse_cons]

theorem pass_behind {behind : List Placed} (htraced : Traced combiningClass expand behind)
    (h : ∀ b ∈ behind, b.cls ≠ 0 ∧ b.cls < combiningClass r) :
  Reordered combiningClass (r :: undo expand behind) (undo expand behind ++ [r])
  := by
  rw [undo_behind htraced fun b hb => (h b hb).1]
  cases behind with
  | nil => apply Reordered.refl
  | cons b behind =>
    have hb := h b List.mem_cons_self
    apply Reordered.pass (by omega)
    intro x hx
    obtain ⟨b, hb, rfl⟩ := List.mem_map.mp (List.mem_reverse.mp hx)
    have hcls := (htraced b hb).2 (h b hb).1
    have hlt := h b hb
    omega

theorem undo_composite {behind before : List Placed} {starter : Placed} {c : Rune}
    (htraced : Traced combiningClass expand behind)
    (h : ∀ b ∈ behind, b.cls ≠ 0 ∧ b.cls < combiningClass r)
    (hundo : Reordered combiningClass (expand c) (expand starter.rune ++ [r])) :
  Reordered combiningClass (undo expand (behind ++ { starter with rune := c } :: before))
    (undo expand (behind ++ starter :: before) ++ [r])
  := by
  have happart := Reordered.between (undo expand before) (undo expand behind) hundo
  have hback := Reordered.append (.refl (undo expand before ++ expand starter.rune))
    (pass_behind htraced h)
  rw [undo_append, undo_cons, undo_append, undo_cons]
  apply happart.trans
  simpa using hback

theorem undo_ruleStep (hundone : Undone combiningClass composePair expand) {out : List Placed}
    {text : List Rune} (htraced : Traced combiningClass expand out)
    (htext : Reordered combiningClass (undo expand out) text) (hscalar : Utf8.isScalar r = true)
    (hr : expand r = [r]) :
  Traced combiningClass expand (ruleStep combiningClass composePair out r) ∧
    Reordered combiningClass (undo expand (ruleStep combiningClass composePair out r))
      (text ++ [r])
  := by
  have hkept : Traced combiningClass expand (⟨r, combiningClass r⟩ :: out) ∧
      Reordered combiningClass (undo expand (⟨r, combiningClass r⟩ :: out)) (text ++ [r]) := by
    constructor
    · exact List.forall_mem_cons.mpr ⟨⟨hscalar, fun _ => ⟨rfl, hr⟩⟩, htraced⟩
    · rw [undo_cons, hr]
      exact htext.append (.refl [r])
  have hsplit := List.takeWhile_append_dropWhile (p := fun b : Placed => b.cls ≠ 0) (l := out)
  have hbehind : ∀ b ∈ out.takeWhile (fun b : Placed => b.cls ≠ 0), b.cls ≠ 0 := by
    intro b hb
    simpa using List.mem_takeWhile_imp hb
  rw [ruleStep]
  generalize out.takeWhile (fun b : Placed => b.cls ≠ 0) = behind at hsplit hbehind ⊢
  split
  · exact hkept
  · next starter before hrest =>
    have hstarter : starter.cls = 0 := by
      have hhead := List.head?_dropWhile_not (fun b : Placed => b.cls ≠ 0) out
      rw [hrest] at hhead
      simpa using hhead
    rw [hrest] at hsplit
    split
    · exact hkept
    · next hblocked =>
      cases hpair : composePair starter.rune r with
      | none => exact hkept
      | some c =>
        push Not at hblocked
        subst hsplit
        obtain ⟨htraced_behind, htraced_rest⟩ := List.forall_mem_append.mp htraced
        obtain ⟨htraced_starter, htraced_before⟩ := List.forall_mem_cons.mp htraced_rest
        obtain ⟨hc, hundo⟩ := hundone _ _ _ htraced_starter.1 hscalar hr hpair
        constructor
        · have hcomposite : Traced combiningClass expand
              ({ starter with rune := c } :: before) :=
            List.forall_mem_cons.mpr
              ⟨⟨hc, fun hcls => absurd hstarter hcls⟩, htraced_before⟩
          exact List.forall_mem_append.mpr ⟨htraced_behind, hcomposite⟩
        · apply (undo_composite htraced_behind hblocked hundo).trans
          exact htext.append (.refl [r])

theorem undo_foldl (hundone : Undone combiningClass composePair expand) {runes : List Rune}
    (hrunes : ∀ r ∈ runes, Utf8.isScalar r = true ∧ expand r = [r]) {out : List Placed}
    {text : List Rune} (htraced : Traced combiningClass expand out)
    (htext : Reordered combiningClass (undo expand out) text) :
  Traced combiningClass expand (runes.foldl (ruleStep combiningClass composePair) out) ∧
    Reordered combiningClass
      (undo expand (runes.foldl (ruleStep combiningClass composePair) out)) (text ++ runes)
  := by
  induction runes generalizing out text with
  | nil =>
    rw [List.append_nil]
    exact ⟨htraced, htext⟩
  | cons r runes ih =>
    obtain ⟨⟨hscalar, hr⟩, hrunes⟩ := List.forall_mem_cons.mp hrunes
    obtain ⟨htraced, htext⟩ := undo_ruleStep hundone htraced htext hscalar hr
    rw [List.append_cons]
    exact ih hrunes htraced htext

theorem undo_compose (hundone : Undone combiningClass composePair expand) {runes : List Rune}
    (hrunes : ∀ r ∈ runes, Utf8.isScalar r = true ∧ expand r = [r]) :
  (∀ r ∈ compose combiningClass composePair runes, Utf8.isScalar r = true) ∧
    Reordered combiningClass ((compose combiningClass composePair runes).flatMap expand) runes
  := by
  obtain ⟨htraced, htext⟩ := undo_foldl hundone hrunes (List.forall_mem_nil _) (.refl [])
  rw [compose_eq, ruleCompose]
  refine ⟨?_, htext⟩
  intro r hr
  obtain ⟨b, hb, rfl⟩ := List.mem_map.mp (List.mem_reverse.mp hr)
  exact (htraced b hb).1

end

/-! ### Well-formed tables -/

def isJamo (r : Nat) : Bool := isHangulL r || isHangulV r || isHangulT r

/-- The decompositions of a table are of code points that decompose no further, and so are those
of Hangul syllables. -/
structure DecompTable.WellFormed (table : DecompTable) : Prop where
  scalar : ∀ i < table.key.length, ∀ d ∈ table.entry i, Utf8.isScalar d = true
  expanded : ∀ i < table.key.length, ∀ d ∈ table.entry i, d ∉ table.key ∧ isHangulS d = false
  jamo : ∀ r ∈ table.key, isJamo r = false

/-- The composite of a pair decomposes to the ordered decomposition of the pair. -/
def Tables.Composites (t : Tables) (table : DecompTable) : Prop :=
  ∀ i < t.composeKey.length,
    let key := t.composeKey.getD i 0
    expand table.decompose (t.composeVal.getD i 0) =
      canonicalOrder t.combiningClass
        (expand table.decompose (key >>> 32) ++ expand table.decompose (key % 2 ^ 32))

structure Tables.WellFormed (t : Tables) : Prop where
  decomp : t.decomp.WellFormed
  compatDecomp : t.compatDecomp.WellFormed
  scalar : ∀ i < t.composeKey.length, Utf8.isScalar (t.composeVal.getD i 0) = true
  composites : t.Composites t.decomp
  compatComposites : t.Composites t.compatDecomp

/-! ### Hangul -/

theorem isHangulS_iff {r : Nat} :
  isHangulS r = true ↔ 0xAC00 ≤ r ∧ r < 0xD7A4
  := by
  rw [isHangulS, Bool.and_eq_true, decide_eq_true_iff, decide_eq_true_iff]
  rfl

theorem isHangulLV_iff {r : Nat} :
  isHangulLV r = true ↔ 0xAC00 ≤ r ∧ r < 0xD7A4 ∧ (r - 0xAC00) % 28 = 0
  := by
  rw [isHangulLV, Bool.and_eq_true, Bool.and_eq_true, decide_eq_true_iff, decide_eq_true_iff,
    beq_iff_eq, and_assoc]
  rfl

theorem isHangulL_iff {r : Nat} :
  isHangulL r = true ↔ 0x1100 ≤ r ∧ r < 0x1113
  := by
  rw [isHangulL, Bool.and_eq_true, decide_eq_true_iff, decide_eq_true_iff]
  rfl

theorem isHangulV_iff {r : Nat} :
  isHangulV r = true ↔ 0x1161 ≤ r ∧ r < 0x1176
  := by
  rw [isHangulV, Bool.and_eq_true, decide_eq_true_iff, decide_eq_true_iff]
  rfl

theorem isHangulT_iff {r : Nat} :
  isHangulT r = true ↔ 0x11A7 < r ∧ r < 0x11C3
  := by
  rw [isHangulT, Bool.and_eq_true, decide_eq_true_iff, decide_eq_true_iff]
  rfl

theorem isJamo_iff {r : Nat} :
  isJamo r = true ↔
    (0x1100 ≤ r ∧ r < 0x1113) ∨ (0x1161 ≤ r ∧ r < 0x1176) ∨ (0x11A7 < r ∧ r < 0x11C3)
  := by
  rw [isJamo, Bool.or_eq_true, Bool.or_eq_true, isHangulL_iff, isHangulV_iff, isHangulT_iff,
    or_assoc]

theorem isScalar_iff {r : Nat} :
  Utf8.isScalar r = true ↔ r < 0xD800 ∨ (0xE000 ≤ r ∧ r < 0x110000)
  := by
  rw [Utf8.isScalar, Bool.or_eq_true, Bool.and_eq_true, decide_eq_true_iff, decide_eq_true_iff,
    decide_eq_true_iff]

theorem hangulDecompose_eq (r : Nat) :
  hangulDecompose r =
    if (r - 0xAC00) % 28 = 0 then
      [0x1100 + (r - 0xAC00) / 588, 0x1161 + (r - 0xAC00) % 588 / 28]
    else
      [0x1100 + (r - 0xAC00) / 588, 0x1161 + (r - 0xAC00) % 588 / 28,
        0x11A7 + (r - 0xAC00) % 28]
  := rfl

theorem hangulDecompose_jamo {r d : Nat} (hr : isHangulS r = true) (hd : d ∈ hangulDecompose r) :
  isJamo d = true
  := by
  rw [isHangulS_iff] at hr
  rw [hangulDecompose_eq] at hd
  rw [isJamo_iff]
  split at hd
  · simp only [List.mem_cons, List.not_mem_nil, or_false] at hd
    omega
  · simp only [List.mem_cons, List.not_mem_nil, or_false] at hd
    omega

theorem isJamo_bounds {r : Nat} (hr : isJamo r = true) :
  isHangulS r = false ∧ Utf8.isScalar r = true
  := by
  rw [isJamo_iff] at hr
  rw [← Bool.not_eq_true, isHangulS_iff, isScalar_iff]
  omega

theorem hangulDecompose_leading {first second : Nat} (hfirst : isHangulL first = true)
    (hsecond : isHangulV second = true) :
  let c := sBase + ((first - lBase) * vCount + (second - vBase)) * tCount
  isHangulS c = true ∧ Utf8.isScalar c = true ∧ hangulDecompose c = [first, second]
  := by
  rw [isHangulL_iff] at hfirst
  rw [isHangulV_iff] at hsecond
  change
    let c := 0xAC00 + ((first - 0x1100) * 21 + (second - 0x1161)) * 28
    isHangulS c = true ∧ Utf8.isScalar c = true ∧ hangulDecompose c = [first, second]
  intro c
  rw [isHangulS_iff, isScalar_iff, hangulDecompose_eq, if_pos (by omega)]
  simp only [List.cons.injEq, and_true]
  omega

theorem hangulDecompose_trailing {first second : Nat} (hfirst : isHangulLV first = true)
    (hsecond : isHangulT second = true) :
  let c := first + (second - tBase)
  isHangulS c = true ∧ Utf8.isScalar c = true ∧
    hangulDecompose c = hangulDecompose first ++ [second]
  := by
  rw [isHangulLV_iff] at hfirst
  rw [isHangulT_iff] at hsecond
  change
    let c := first + (second - 0x11A7)
    isHangulS c = true ∧ Utf8.isScalar c = true ∧
      hangulDecompose c = hangulDecompose first ++ [second]
  intro c
  rw [isHangulS_iff, isScalar_iff, hangulDecompose_eq, hangulDecompose_eq, if_neg (by omega),
    if_pos hfirst.2.2]
  simp only [List.cons_append, List.nil_append, List.cons.injEq, and_true]
  omega

/-! ### Decomposition -/

namespace DecompTable.WellFormed

variable {table : DecompTable}

theorem expand_of_not_mem (hr : r ∉ table.key) (hs : isHangulS r = false) :
  expand table.decompose r = [r]
  := by
  rw [expand, DecompTable.decompose, hs, Search.lookup_of_not_mem hr]
  rfl

theorem expand_of_isHangulS (hs : isHangulS r = true) :
  expand table.decompose r = hangulDecompose r
  := by rw [expand, DecompTable.decompose, if_pos hs, Option.getD_some]

theorem expand_jamo (h : table.WellFormed) (hr : isJamo r = true) :
  expand table.decompose r = [r]
  := by
  apply expand_of_not_mem _ (isJamo_bounds hr).1
  intro hmem
  exact absurd hr (by simp [h.jamo r hmem])

theorem expand_expand (h : table.WellFormed) {d : Rune} (hr : Utf8.isScalar r = true)
    (hd : d ∈ expand table.decompose r) :
  Utf8.isScalar d = true ∧ expand table.decompose d = [d]
  := by
  by_cases hs : isHangulS r = true
  · rw [expand_of_isHangulS hs] at hd
    have hjamo := hangulDecompose_jamo hs hd
    exact ⟨(isJamo_bounds hjamo).2, h.expand_jamo hjamo⟩
  · have hnone : ∀ {e : Rune}, table.decompose e = none → expand table.decompose e = [e] := by
      intro e he
      rw [expand, he]
      rfl
    rw [Bool.not_eq_true] at hs
    cases hlookup : Search.lookup table.key r with
    | none =>
      have hdecompose : table.decompose r = none := by
        rw [DecompTable.decompose, hs, hlookup]
        rfl
      rw [hnone hdecompose, List.mem_singleton] at hd
      subst hd
      exact ⟨hr, hnone hdecompose⟩
    | some i =>
      have hi := (Search.lookup_some hlookup).1
      have hentry : expand table.decompose r = table.entry i := by
        rw [expand, DecompTable.decompose, hs, hlookup]
        rfl
      rw [hentry] at hd
      obtain ⟨hkey, hsyllable⟩ := h.expanded i hi d hd
      exact ⟨h.scalar i hi d hd, expand_of_not_mem hkey hsyllable⟩

end DecompTable.WellFormed

/-! ### Composites -/

theorem pairKey_halves {second : Nat} (h : second < 2 ^ 32) (first : Nat) :
  (first <<< 32 ||| second) >>> 32 = first ∧ (first <<< 32 ||| second) % 2 ^ 32 = second
  := by
  rw [← Nat.shiftLeft_add_eq_or_of_lt h, Nat.shiftLeft_eq, Nat.shiftRight_eq_div_pow]
  omega

theorem Tables.undone (htable : table.WellFormed)
    (hscalar : ∀ i < t.composeKey.length, Utf8.isScalar (t.composeVal.getD i 0) = true)
    (hcomposites : t.Composites table) :
  Undone t.combiningClass t.composePair (expand table.decompose)
  := by
  intro s r c hs hr hrune hpair
  rw [Tables.composePair] at hpair
  split at hpair
  · next hjamo =>
    rw [Bool.and_eq_true] at hjamo
    obtain ⟨hsyllable, hc, hdecompose⟩ := hangulDecompose_leading hjamo.1 hjamo.2
    obtain rfl := Option.some.inj hpair
    have hleading : isJamo s = true := by rw [isJamo, hjamo.1, Bool.true_or, Bool.true_or]
    refine ⟨hc, ?_⟩
    rw [DecompTable.WellFormed.expand_of_isHangulS hsyllable, hdecompose,
      htable.expand_jamo hleading]
    apply Reordered.refl
  · split at hpair
    · next hjamo =>
      rw [Bool.and_eq_true] at hjamo
      obtain ⟨hsyllable, hc, hdecompose⟩ := hangulDecompose_trailing hjamo.1 hjamo.2
      obtain rfl := Option.some.inj hpair
      have hfirst : isHangulS s = true := by
        have hbounds := isHangulLV_iff.mp hjamo.1
        exact isHangulS_iff.mpr ⟨hbounds.1, hbounds.2.1⟩
      refine ⟨hc, ?_⟩
      rw [DecompTable.WellFormed.expand_of_isHangulS hsyllable, hdecompose,
        DecompTable.WellFormed.expand_of_isHangulS hfirst]
      apply Reordered.refl
    · obtain ⟨i, hi, rfl⟩ := Option.map_eq_some_iff.mp hpair
      obtain ⟨hlt, hkey⟩ := Search.lookup_some hi
      have hsecond : r < 2 ^ 32 := by
        have hbound := isScalar_iff.mp hr
        omega
      obtain ⟨hleft, hright⟩ := pairKey_halves hsecond s
      have hcomposite := hcomposites i hlt
      simp only [hkey, hleft, hright, hrune] at hcomposite
      refine ⟨hscalar i hlt, ?_⟩
      rw [hcomposite, canonicalOrder_eq]
      apply order_reordered

/-! ### Normalized texts -/

theorem Tables.decomposed (htable : table.WellFormed) {s : List UInt8}
    (hr : r ∈ canonicalOrder t.combiningClass (decomposeRunes table.decompose s)) :
  Utf8.isScalar r = true ∧ expand table.decompose r = [r]
  := by
  obtain ⟨c, hc, hr⟩ := List.mem_flatMap.mp ((canonicalOrder_perm _).mem_iff.mp hr)
  exact htable.expand_expand (Utf8.isScalar_of_mem_runes hc) hr

theorem Tables.decompose_normalize (htable : table.WellFormed)
    (hundone : Undone t.combiningClass t.composePair (expand table.decompose)) (s : List UInt8) :
  canonicalOrder t.combiningClass
      (decomposeRunes table.decompose (t.normalize (decomposeRunes table.decompose s))) =
    canonicalOrder t.combiningClass (decomposeRunes table.decompose s)
  := by
  obtain ⟨hscalar, htext⟩ := undo_compose hundone fun r hr => t.decomposed htable hr
  rw [normalize, decomposeRunes, Utf8.runes_encode_of_isScalar hscalar, canonicalOrder_eq,
    htext.order_eq, canonicalOrder_eq]
  exact (order_reordered _).order_eq

theorem Tables.normalize_congr (t : Tables) {runes runes' : List Rune}
    (h : canonicalOrder t.combiningClass runes = canonicalOrder t.combiningClass runes') :
  t.normalize runes = t.normalize runes'
  := by rw [normalize, normalize, h]

theorem Tables.form_equivalent_idempotent (htable : table.WellFormed)
    (hundone : Undone t.combiningClass t.composePair (expand table.decompose))
    {form : List UInt8 → List UInt8}
    (hform : ∀ s, form s = if s = [] then [] else t.normalize (decomposeRunes table.decompose s))
    (s : List UInt8) :
  canonicalOrder t.combiningClass (decomposeRunes table.decompose (form s)) =
      canonicalOrder t.combiningClass (decomposeRunes table.decompose s) ∧
    form (form s) = form s
  := by
  have hempty : t.normalize (decomposeRunes table.decompose []) = [] := by
    simp [normalize, decomposeRunes, Utf8.runes, canonicalOrder, compose]
  have hform' : ∀ s, form s = t.normalize (decomposeRunes table.decompose s) := by
    intro s
    rw [hform]
    split
    · next h => rw [h, hempty]
    · rfl
  have hkeeps := t.decompose_normalize htable hundone s
  rw [hform' (form s), hform' s]
  exact ⟨hkeeps, t.normalize_congr hkeeps⟩

theorem Tables.composePair_cases {first second c : Rune}
    (hc : t.composePair first second = some c) :
  isHangulS c = true ∨ ∃ i < t.composeKey.length, t.composeVal.getD i 0 = c
  := by
  rw [composePair] at hc
  split at hc
  · next hjamo =>
    rw [Bool.and_eq_true] at hjamo
    obtain rfl := Option.some.inj hc
    exact Or.inl (hangulDecompose_leading hjamo.1 hjamo.2).1
  · split at hc
    · next hjamo =>
      rw [Bool.and_eq_true] at hjamo
      obtain rfl := Option.some.inj hc
      exact Or.inl (hangulDecompose_trailing hjamo.1 hjamo.2).1
    · obtain ⟨i, hi, rfl⟩ := Option.map_eq_some_iff.mp hc
      exact Or.inr ⟨i, (Search.lookup_some hi).1, rfl⟩

theorem DecompTable.expand_cases {d : Rune} (hd : d ∈ expand table.decompose r) :
  d = r ∨ isJamo d = true ∨ ∃ i < table.key.length, d ∈ table.entry i
  := by
  by_cases hs : isHangulS r = true
  · rw [WellFormed.expand_of_isHangulS hs] at hd
    exact Or.inr (Or.inl (hangulDecompose_jamo hs hd))
  · rw [expand, decompose, if_neg hs] at hd
    cases hlookup : Search.lookup table.key r with
    | none =>
      rw [hlookup, Option.map_none, Option.getD_none] at hd
      exact Or.inl (List.mem_singleton.mp hd)
    | some i =>
      rw [hlookup, Option.map_some, Option.getD_some] at hd
      exact Or.inr (Or.inr ⟨i, (Search.lookup_some hlookup).1, hd⟩)

theorem Tables.nfkc_introduces (h : t.WellFormed) {s : List UInt8} {c : Rune}
    (hc : c ∈ Utf8.runes (t.nfkc s)) :
  c ∈ Utf8.runes s ∨ isHangulS c = true ∨ isJamo c = true ∨
    (∃ i < t.composeKey.length, t.composeVal.getD i 0 = c) ∨
    ∃ i < t.compatDecomp.key.length, c ∈ t.compatDecomp.entry i
  := by
  have hundone := Tables.undone h.compatDecomp h.scalar h.compatComposites
  rw [nfkc] at hc
  split at hc
  · simp [Utf8.runes] at hc
  · obtain ⟨hscalar, -⟩ := undo_compose hundone fun r hr =>
      t.decomposed (s := s) h.compatDecomp hr
    change c ∈ Utf8.runes (t.normalize (decomposeRunes t.compatDecomp.decompose s)) at hc
    rw [normalize, Utf8.runes_encode_of_isScalar hscalar] at hc
    rcases mem_compose hc with hc | ⟨first, second, hpair⟩
    · obtain ⟨r, hr, hc⟩ := List.mem_flatMap.mp ((canonicalOrder_perm _).mem_iff.mp hc)
      rcases DecompTable.expand_cases hc with rfl | hjamo | hentry
      · exact Or.inl hr
      · exact Or.inr (Or.inr (Or.inl hjamo))
      · exact Or.inr (Or.inr (Or.inr (Or.inr hentry)))
    · rcases composePair_cases hpair with hs | hcomposite
      · exact Or.inr (Or.inl hs)
      · exact Or.inr (Or.inr (Or.inr (Or.inl hcomposite)))

/-- A normalized text has the ordered decomposition of the text, in either form, and so is its
own normalized form. -/
theorem normalization_equivalent_idempotent {t : Tables} (h : t.WellFormed) (s : List UInt8) :
  (canonicalOrder t.combiningClass (t.decomposeString (t.nfc s)) =
      canonicalOrder t.combiningClass (t.decomposeString s) ∧
    t.nfc (t.nfc s) = t.nfc s) ∧
  canonicalOrder t.combiningClass (t.decomposeCompatString (t.nfkc s)) =
      canonicalOrder t.combiningClass (t.decomposeCompatString s) ∧
    t.nfkc (t.nfkc s) = t.nfkc s
  := by
  constructor
  · apply Tables.form_equivalent_idempotent h.decomp
    · exact Tables.undone h.decomp h.scalar h.composites
    · exact fun _ => rfl
  · apply Tables.form_equivalent_idempotent h.compatDecomp
    · exact Tables.undone h.compatDecomp h.scalar h.compatComposites
    · exact fun _ => rfl

/-- The letter a with an acute accent, and the ordinal indicator that is compatible with it. -/
def acuteTables : Tables where
  cccKey := [0x301]
  cccVal := [230]
  decomp := { key := [0xE1], offset := [0, 2], data := [0x61, 0x301] }
  compatDecomp := { key := [0xAA, 0xE1], offset := [0, 1, 3], data := [0x61, 0x61, 0x301] }
  composeKey := [0x61 <<< 32 ||| 0x301]
  composeVal := [0xE1]

theorem acuteTables_wellFormed :
  acuteTables.WellFormed
  := by
  refine ⟨⟨?_, ?_, ?_⟩, ⟨?_, ?_, ?_⟩, ?_, ?_, ?_⟩
  · decide +kernel
  · decide +kernel
  · decide +kernel
  · decide +kernel
  · decide +kernel
  · decide +kernel
  · decide +kernel
  · unfold Tables.Composites
    decide +kernel
  · unfold Tables.Composites
    decide +kernel

theorem acuteTables_nfkc_idempotent (s : List UInt8) :
  acuteTables.nfkc (acuteTables.nfkc s) = acuteTables.nfkc s
  := by
  have h := acuteTables_wellFormed
  have hundone := Tables.undone h.compatDecomp h.scalar h.compatComposites
  exact (Tables.form_equivalent_idempotent h.compatDecomp hundone (fun _ => rfl) s).2

theorem normalization_equivalent_idempotent_acute :
  acuteTables.nfkc [0xC2, 0xAA, 0xCC, 0x81] = [0xC3, 0xA1] ∧
    acuteTables.nfkc (acuteTables.nfkc [0xC2, 0xAA, 0xCC, 0x81]) =
      acuteTables.nfkc [0xC2, 0xAA, 0xCC, 0x81]
  := by
  have hforms := normalization_equivalent_idempotent acuteTables_wellFormed
    [0xC2, 0xAA, 0xCC, 0x81]
  exact ⟨by decide +kernel, hforms.2.2⟩

end GoSmtp.Unicode
