import Mathlib.Algebra.BigOperators.Group.List.Basic
import Mathlib.Tactic.Abel

/-!
# A shared resource

Several parts act on one resource, one part at a time.  If every action changes the value of the
resource by as much as it changes the holding of the part, then the value of the resource is the
sum of the holdings, however the actions interleave.
-/

namespace GoSmtp

/-- A resource and the parts that act on it. -/
structure Shared (ρ κ : Type) where
  resource : ρ
  parts : List κ

namespace Shared

variable {ρ κ G : Type}

/-- The part `i` acts, if there is one. -/
def act (s : Shared ρ κ) (i : Nat) (f : ρ → κ → ρ × κ) : Shared ρ κ :=
  match s.parts[i]? with
  | none => s
  | some c => ⟨(f s.resource c).1, s.parts.set i (f s.resource c).2⟩

theorem act_act (s : Shared ρ κ) (i : Nat) (f g : ρ → κ → ρ × κ) :
  (s.act i f).act i g = s.act i fun r c => g (f r c).1 (f r c).2
  := by
  rcases hc : s.parts[i]? with _ | c
  · simp [act, hc]
  · obtain ⟨hi, -⟩ := List.getElem?_eq_some_iff.mp hc
    simp [act, hc, hi]

/-- A new part. -/
def join (s : Shared ρ κ) (r : ρ) (c : κ) : Shared ρ κ := ⟨r, s.parts ++ [c]⟩

/-- The condition of the resource and of each part. -/
structure Every (I : ρ → Prop) (J : κ → Prop) (s : Shared ρ κ) : Prop where
  resource : I s.resource
  parts : ∀ c ∈ s.parts, J c

theorem Every.act {I : ρ → Prop} {J : κ → Prop} {s : Shared ρ κ} (h : Every I J s) (i : Nat)
    {f : ρ → κ → ρ × κ} (hf : ∀ r c, I r → J c → I (f r c).1 ∧ J (f r c).2) :
  Every I J (s.act i f)
  := by
  rw [Shared.act]
  split
  · exact h
  · next c hc =>
    obtain ⟨hr, hc⟩ := hf s.resource c h.resource (h.parts c (List.mem_of_getElem? hc))
    refine ⟨hr, fun c' hc' => ?_⟩
    rcases List.mem_or_eq_of_mem_set hc' with hold | rfl
    · exact h.parts c' hold
    · exact hc

theorem Every.join {I : ρ → Prop} {J : κ → Prop} {s : Shared ρ κ} (h : Every I J s) {r : ρ}
    {c : κ} (hr : I r) (hc : J c) :
  Every I J (s.join r c)
  := by
  refine ⟨hr, fun c' hc' => ?_⟩
  rcases List.mem_append.mp hc' with hold | hnew
  · exact h.parts c' hold
  · rwa [List.mem_singleton.mp hnew]

variable [AddCommGroup G] (value : ρ → G) (holding : κ → G)

/-- The parts hold what the resource is worth. -/
def Balanced (s : Shared ρ κ) : Prop := value s.resource = (s.parts.map holding).sum

variable {value holding}

theorem Balanced.act {s : Shared ρ κ} (h : Balanced value holding s) (i : Nat)
    {f : ρ → κ → ρ × κ} (hf : ∀ c ∈ s.parts,
      value (f s.resource c).1 + holding c = value s.resource + holding (f s.resource c).2) :
  Balanced value holding (s.act i f)
  := by
  rw [Shared.act]
  split
  · exact h
  · next c hc =>
    obtain ⟨hi, hget⟩ := List.getElem?_eq_some_iff.mp hc
    have hvalue := hf c (List.mem_of_getElem? hc)
    rw [Balanced] at h ⊢
    simp only [List.map_set, List.sum_set', List.length_map, hi, dif_pos, List.getElem_map, hget,
      ← h]
    rw [eq_sub_of_add_eq hvalue]
    abel

theorem Balanced.join {s : Shared ρ κ} (h : Balanced value holding s) {r : ρ} {c : κ}
    (hr : value r = value s.resource + holding c) :
  Balanced value holding (s.join r c)
  := by
  rw [Balanced, Shared.join, List.map_append, List.sum_append, ← h]
  simpa using hr

end Shared

end GoSmtp
