import GoSmtp.Wire.Command

/-!
# Fields

`strings.Fields` splits a text at white space, which in UTF-8 may take several octets.  No octet of
such a space can be taken for the beginning of another, so that a text is split octet by octet.
-/

namespace GoSmtp

variable {after before f field w : Bytes} {b : UInt8} {fs : List Bytes}

/-- The white space of `unicode.IsSpace`, in UTF-8. -/
def whiteSpace : List Bytes :=
  [[9], [10], [11], [12], [13], [32], [0xC2, 0x85], [0xC2, 0xA0], [0xE1, 0x9A, 0x80],
    [0xE2, 0x80, 0x80], [0xE2, 0x80, 0x81], [0xE2, 0x80, 0x82], [0xE2, 0x80, 0x83],
    [0xE2, 0x80, 0x84], [0xE2, 0x80, 0x85], [0xE2, 0x80, 0x86], [0xE2, 0x80, 0x87],
    [0xE2, 0x80, 0x88], [0xE2, 0x80, 0x89], [0xE2, 0x80, 0x8A], [0xE2, 0x80, 0xA8],
    [0xE2, 0x80, 0xA9], [0xE2, 0x80, 0xAF], [0xE2, 0x81, 0x9F], [0xE3, 0x80, 0x80]]

/-- The number of octets of the space that a text begins with. -/
def spaceWidth (w : Bytes) : Nat :=
  ((whiteSpace.find? (·.isPrefixOf w)).getD []).length

/-- The octets of a text, each with whether it belongs to a space.  The first argument is the number
of octets that are left of the last space. -/
def spaced : Nat → Bytes → List (UInt8 × Bool)
  | _, [] => []
  | k + 1, b :: w => (b, true) :: spaced k w
  | 0, b :: w =>
    match spaceWidth (b :: w) with
    | 0 => (b, false) :: spaced 0 w
    | k + 1 => (b, true) :: spaced k w

/-- The fields of a text, of which the first is continued. -/
def gather (field : Bytes) : List (UInt8 × Bool) → List Bytes
  | [] => if field.isEmpty then [] else [field]
  | (b, false) :: t => gather (field ++ [b]) t
  | (_, true) :: t => if field.isEmpty then gather [] t else field :: gather [] t

/-- `strings.Fields`. -/
def stringsFields (w : Bytes) : List Bytes := gather [] (spaced 0 w)

theorem map_fst_spaced (k : Nat) (w : Bytes) :
  (spaced k w).map Prod.fst = w
  := by
  induction w generalizing k with
  | nil => cases k <;> rfl
  | cons b w ih =>
    cases k with
    | succ k => simp [spaced, ih]
    | zero =>
      rw [spaced]
      split <;> simp [ih]

theorem ne_sp_of_mem_spaced {k : Nat} (h : (b, false) ∈ spaced k w) :
  b ≠ sp
  := by
  induction w generalizing k with
  | nil => cases k <;> simp [spaced] at h
  | cons c w ih =>
    cases k with
    | succ k =>
      rw [spaced] at h
      exact ih (by simpa using h)
    | zero =>
      rw [spaced] at h
      split at h
      · next hwidth =>
        rcases List.mem_cons.mp h with heq | hmem
        · rintro rfl
          cases heq
          have : spaceWidth (sp :: w) = 1 := by
            simp [spaceWidth, whiteSpace, sp]
          omega
        · exact ih hmem
      · exact ih (by simpa using h)

/-! ### Two fields -/

/-- Octets of spaces. -/
def Blank (t : List (UInt8 × Bool)) : Prop := ∀ x ∈ t, x.2 = true

/-- Octets of a field. -/
def Solid (t : List (UInt8 × Bool)) : Prop := ∀ x ∈ t, x.2 = false

instance : DecidablePred Blank := fun t => inferInstanceAs (Decidable (∀ x ∈ t, x.2 = true))

instance : DecidablePred Solid := fun t => inferInstanceAs (Decidable (∀ x ∈ t, x.2 = false))

theorem gather_solid {t : List (UInt8 × Bool)} (h : Solid t) (field : Bytes)
    (rest : List (UInt8 × Bool)) :
  gather field (t ++ rest) = gather (field ++ t.map Prod.fst) rest
  := by
  induction t generalizing field with
  | nil => simp
  | cons x t ih =>
    obtain ⟨b, blank⟩ := x
    obtain ⟨rfl, ht⟩ := List.forall_mem_cons.mp h
    rw [List.cons_append, gather, ih ht]
    simp

/-- The text has two fields, of which the second is `field`, with the given text before and
after it. -/
structure SecondField (w before field after : Bytes) : Prop where
  intro ::
  parts : ∃ lead name gap last trail : List (UInt8 × Bool),
    spaced 0 w = lead ++ (name ++ (gap ++ (last ++ trail))) ∧
    Blank lead ∧ Solid name ∧ Blank gap ∧ Solid last ∧ Blank trail ∧
    name ≠ [] ∧ gap ≠ [] ∧ last ≠ [] ∧
    before = (lead ++ (name ++ gap)).map Prod.fst ∧ field = last.map Prod.fst ∧
    after = trail.map Prod.fst

theorem SecondField.eq (h : SecondField w before field after) :
  w = before ++ (field ++ after)
  := by
  obtain ⟨lead, name, gap, last, trail, hw, -, -, -, -, -, -, -, -, rfl, rfl, rfl⟩ := h
  rw [← map_fst_spaced 0 w, hw]
  simp

theorem SecondField.sp_not_mem (h : SecondField w before field after) :
  sp ∉ field
  := by
  obtain ⟨lead, name, gap, last, trail, hw, -, -, -, hlast, -, -, -, -, -, rfl, -⟩ := h
  intro hsp
  obtain ⟨⟨b, blank⟩, hmem, rfl⟩ := List.mem_map.mp hsp
  obtain rfl := hlast _ hmem
  refine ne_sp_of_mem_spaced (k := 0) (w := w) ?_ rfl
  rw [hw]
  simp [hmem]

/-! ### Lists of words -/

/-- `strings.Join` with SP. -/
def joinFields : List Bytes → Bytes
  | [] => []
  | [f] => f
  | f :: fs => f ++ [sp] ++ joinFields fs

theorem joinFields_cons (h : fs ≠ []) :
  joinFields (f :: fs) = f ++ [sp] ++ joinFields fs
  := by
  cases fs with
  | nil => exact absurd rfl h
  | cons g fs => rfl

theorem joinFields_append (fs : List Bytes) {gs : List Bytes} (h : gs ≠ []) :
  joinFields (fs ++ [joinFields gs]) = joinFields (fs ++ gs)
  := by
  induction fs with
  | nil => rfl
  | cons f fs ih =>
    rw [List.cons_append, List.cons_append, joinFields_cons (by simp), joinFields_cons (by simp [h]),
      ih]

/-- An octet of a word in ASCII. -/
def visible (b : UInt8) : Bool := 33 ≤ b && b ≤ 126

theorem spaceWidth_visible (h : visible b = true) (w : Bytes) :
  spaceWidth (b :: w) = 0
  := by
  have hfirst : ∀ x ∈ whiteSpace, x.head?.any (!visible ·) = true := by decide
  have hnone : whiteSpace.find? (·.isPrefixOf (b :: w)) = none := by
    rw [List.find?_eq_none]
    intro x hx
    have hhead := hfirst x hx
    cases x with
    | nil => simp at hhead
    | cons c x =>
      have hne : c ≠ b := by
        rintro rfl
        simp [h] at hhead
      simp [hne]
  rw [spaceWidth, hnone]
  rfl

theorem spaced_visible (h : f.all visible = true) (w : Bytes) :
  spaced 0 (f ++ w) = f.map (·, false) ++ spaced 0 w
  := by
  induction f with
  | nil => rfl
  | cons b f ih =>
    obtain ⟨hb, hf⟩ : visible b = true ∧ f.all visible = true := by simpa using h
    rw [List.cons_append, spaced, spaceWidth_visible hb]
    simp [ih hf]

theorem spaced_sp (w : Bytes) :
  spaced 0 (sp :: w) = (sp, true) :: spaced 0 w
  := by
  have hwidth : spaceWidth (sp :: w) = 1 := by simp [spaceWidth, whiteSpace, sp]
  rw [spaced, hwidth]

theorem stringsFields_joinFields (h : ∀ f ∈ fs, f ≠ [] ∧ f.all visible = true) :
  stringsFields (joinFields fs) = fs
  := by
  have hsolid (f : Bytes) : Solid (f.map (·, false)) := by simp [Solid]
  have hfst (f : Bytes) : (f.map fun b => (b, false)).map Prod.fst = f := by
    simp [Function.comp_def]
  induction fs with
  | nil => rfl
  | cons f fs ih =>
    obtain ⟨⟨hne, hf⟩, hfs⟩ := List.forall_mem_cons.mp h
    cases fs with
    | nil =>
      rw [joinFields, stringsFields, ← List.append_nil f, spaced_visible hf, gather_solid (hsolid f),
        hfst]
      simp [spaced, gather, hne]
    | cons g fs =>
      rw [joinFields_cons (by simp), stringsFields, List.append_assoc, spaced_visible hf,
        gather_solid (hsolid f), hfst, List.singleton_append, spaced_sp, List.nil_append, gather,
        if_neg (by simpa using hne)]
      exact congrArg (f :: ·) (ih hfs)

end GoSmtp
