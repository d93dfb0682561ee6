import GoSmtp.Wire.Decimal
import GoSmtp.Wire.Fields

/-!
# Limits

The LIMITS parameter of EHLO (`limits.go`): a server writes it, a client reads it.  Three limits are
known by name.  Any other entry is kept as it stands.
-/

namespace GoSmtp

structure Limits where
  mailMax : UInt32 := 0
  rcptMax : UInt32 := 0
  rcptDomainMax : UInt32 := 0
  /-- The other entries, separated by SP. -/
  extra : Bytes := []
  deriving DecidableEq, Repr

/-- `=` -/
def equals : UInt8 := 61

/-- `strings.Cut` at the first `=`. -/
def cutEquals (field : Bytes) : Bytes × Option Bytes :=
  (field.takeWhile (· != equals),
    if equals ∈ field then some ((field.dropWhile (· != equals)).drop 1) else none)

theorem cutEquals_of_not_mem {name : Bytes} (h : equals ∉ name) :
  cutEquals name = (name, none)
  := by
  have hname : ∀ c ∈ name, (c != equals) = true := by
    intro c hc
    simpa using fun heq : c = equals => h (heq ▸ hc)
  have htake : (name ++ []).takeWhile (· != equals) = name ++ ([] : Bytes).takeWhile (· != equals) :=
    List.takeWhile_append_of_pos hname
  rw [List.append_nil, List.takeWhile_nil, List.append_nil] at htake
  rw [cutEquals, if_neg h, htake]

theorem cutEquals_append {name value : Bytes} (h : equals ∉ name) :
  cutEquals (name ++ [equals] ++ value) = (name, some value)
  := by
  have hname : ∀ c ∈ name, (c != equals) = true := by
    intro c hc
    simpa using fun heq : c = equals => h (heq ▸ hc)
  simp [cutEquals, List.takeWhile_append_of_pos hname, List.dropWhile_append_of_pos hname]

def validLimitName (name : Bytes) : Bool :=
  !name.isEmpty && name.all fun c =>
    (65 ≤ c && c ≤ 90) || (97 ≤ c && c ≤ 122) || (48 ≤ c && c ≤ 57) || c == 45 || c == 95

def validLimitValue (value : Bytes) : Bool :=
  !value.isEmpty && value.all fun c => (0x21 ≤ c && c ≤ 0x3a) || (0x3c ≤ c && c ≤ 0x7e)

def parseLimit (w : Bytes) : UInt32 :=
  if w.isEmpty || w.length > 6 || w.head? == some 48 then 0
  else
    match parseUint w with
    | some n => if n < 2 ^ 32 then n.toUInt32 else 0
    | none => 0

/-- A non-zero limit replaces the one before. -/
def orElse (n old : UInt32) : UInt32 := if n ≠ 0 then n else old

/-- The entries, with one more. -/
def extend (extra field : Bytes) : Bytes :=
  if extra.isEmpty then field else extra ++ [sp] ++ field

/-- One entry of the parameter.  The error quotes it. -/
def Limits.add (result : Limits) (field : Bytes) : Except Bytes Limits :=
  let (name, value) := cutEquals field
  if !validLimitName name || value.any (!validLimitValue ·) then .error field
  else
    let n := (value.map parseLimit).getD 0
    if toUpper name = ascii "MAILMAX" then .ok { result with mailMax := orElse n result.mailMax }
    else if toUpper name = ascii "RCPTMAX" then
      .ok { result with rcptMax := orElse n result.rcptMax }
    else if toUpper name = ascii "RCPTDOMAINMAX" then
      .ok { result with rcptDomainMax := orElse n result.rcptDomainMax }
    else .ok { result with extra := extend result.extra field }

def parseLimitsParam (params : Bytes) : Except Bytes Limits :=
  if params.isEmpty then .ok {}
  else
    let fields := stringsFields params
    if joinFields fields ≠ params then .error params
    else fields.foldlM Limits.add {}

/-! ### Entries -/

/-- The names of the known limits. -/
def knownLimits : List Bytes := [ascii "MAILMAX", ascii "RCPTMAX", ascii "RCPTDOMAINMAX"]

/-- An entry that is kept as it stands. -/
structure IsExtra (field : Bytes) : Prop where
  name : validLimitName (cutEquals field).1 = true
  value : (cutEquals field).2.any (!validLimitValue ·) = false
  unknown : toUpper (cutEquals field).1 ∉ knownLimits

theorem visible_of_valid {field : Bytes} (hname : validLimitName (cutEquals field).1 = true)
    (hvalue : (cutEquals field).2.any (!validLimitValue ·) = false) :
  field ≠ [] ∧ field.all visible = true
  := by
  have hletter : ∀ c : UInt8, ((65 ≤ c && c ≤ 90) || (97 ≤ c && c ≤ 122) || (48 ≤ c && c ≤ 57) ||
      c == 45 || c == 95) = true → visible c = true := by
    intro c
    simp only [visible, Bool.or_eq_true, Bool.and_eq_true, decide_eq_true_eq, beq_iff_eq,
      UInt8.le_iff_toNat_le, ← UInt8.toNat_inj]
    simp
    omega
  have hsign : ∀ c : UInt8, ((0x21 ≤ c && c ≤ 0x3a) || (0x3c ≤ c && c ≤ 0x7e)) = true →
      visible c = true := by
    intro c
    simp only [visible, Bool.or_eq_true, Bool.and_eq_true, decide_eq_true_eq,
      UInt8.le_iff_toNat_le]
    simp
    omega
  simp only [validLimitName, cutEquals, Bool.and_eq_true, List.all_eq_true] at hname
  obtain ⟨hsome, hletters⟩ := hname
  have hfield := List.takeWhile_append_dropWhile (p := (· != equals)) (l := field)
  constructor
  · rintro rfl
    simp at hsome
  rw [← hfield, List.all_append, Bool.and_eq_true]
  refine ⟨List.all_eq_true.mpr fun c hc => hletter c (hletters c hc), ?_⟩
  rcases hrest : field.dropWhile (· != equals) with _ | ⟨c, rest⟩
  · rfl
  · have hc := List.head?_dropWhile_not (· != equals) field
    rw [hrest] at hc
    obtain rfl : c = equals := by simpa using hc
    have hmem : equals ∈ field := by
      rw [← hfield, hrest]
      simp
    simp only [cutEquals, hmem, if_true, hrest, List.drop_one, List.tail_cons, Option.any_some,
      validLimitValue, Bool.not_eq_false', Bool.and_eq_true, List.all_eq_true] at hvalue
    rw [List.all_cons, Bool.and_eq_true]
    exact ⟨by decide, List.all_eq_true.mpr fun c hc => hsign c (hvalue.2 c hc)⟩

theorem IsExtra.add {field : Bytes} (h : IsExtra field) (result : Limits) :
  result.add field = .ok { result with extra := extend result.extra field }
  := by
  have hunknown := h.unknown
  simp only [knownLimits, List.mem_cons, List.not_mem_nil, or_false, not_or] at hunknown
  simp [Limits.add, h.name, h.value, hunknown]

theorem foldlM_add {fields : List Bytes} (h : ∀ f ∈ fields, IsExtra f) (result : Limits) :
  fields.foldlM Limits.add result
    = .ok { result with extra := fields.foldl extend result.extra }
  := by
  induction fields generalizing result with
  | nil => rfl
  | cons f fs ih =>
    obtain ⟨hf, hfs⟩ := List.forall_mem_cons.mp h
    rw [List.foldlM_cons, hf.add]
    exact ih hfs _

theorem foldl_extend {extra : Bytes} (hne : extra ≠ []) (fields : List Bytes) :
  fields.foldl extend extra = joinFields (extra :: fields)
  := by
  induction fields generalizing extra with
  | nil => rfl
  | cons f fs ih =>
    have hextend : extend extra f = extra ++ [sp] ++ f := by
      rw [extend, if_neg (by simpa using hne)]
    rw [List.foldl_cons, hextend, ih (by simp), joinFields_cons (f := extra) (by simp)]
    cases fs with
    | nil => rfl
    | cons g fs => simp [joinFields]

theorem foldl_extend_nil {fields : List Bytes} (h : ∀ f ∈ fields, f ≠ []) :
  fields.foldl extend [] = joinFields fields
  := by
  cases fields with
  | nil => rfl
  | cons f fs => exact foldl_extend (h f List.mem_cons_self) fs

end GoSmtp
