import Mathlib.Data.List.Nodup
import Mathlib.Logic.Function.Basic

/-!
# The registry of connections

The connections that a server has open, `smtpserver/connections.go`.  A registry counts the
connections of every source, and the handlers that a shutdown has to wait for; both counts agree
with the connections that are active.
-/

namespace GoSmtp.Server

/-- `connectionRegistry`, for connections `κ` from sources `σ`. -/
structure ConnectionRegistry (κ σ : Type) [DecidableEq κ] [DecidableEq σ] where
  accepting : Bool
  max : Nat
  maxSource : Nat
  active : List (κ × σ)
  bySource : σ → Nat
  /-- The count of the wait group. -/
  wait : Nat
  /-- A connection is registered once. -/
  nodup : (active.map Prod.fst).Nodup
  counted : ∀ source, bySource source = active.countP (·.2 = source)
  waited : wait = active.length

namespace ConnectionRegistry

variable {κ σ : Type} [DecidableEq κ] [DecidableEq σ]

/-- `newConnectionRegistry`. -/
def new (maximum maximumPerSource : Nat) : ConnectionRegistry κ σ where
  accepting := true
  max := maximum
  maxSource := maximumPerSource
  active := []
  bySource _ := 0
  wait := 0
  nodup := .nil
  counted _ := rfl
  waited := rfl

/-- `register`: `none` if the connection is refused. -/
def register (conn : κ) (source : σ) (r : ConnectionRegistry κ σ) :
    Option (ConnectionRegistry κ σ) :=
  if !r.accepting ∨ (0 < r.max ∧ r.max ≤ r.active.length) ∨ r.maxSource ≤ r.bySource source then
    none
  else if h : conn ∈ r.active.map Prod.fst then none
  else
    some { r with
      active := (conn, source) :: r.active
      bySource := Function.update r.bySource source (r.bySource source + 1)
      wait := r.wait + 1
      nodup := List.nodup_cons.mpr ⟨h, r.nodup⟩
      counted := by
        intro source'
        by_cases heq : source' = source
        · subst heq
          simp [r.counted]
        · simp [Function.update_of_ne heq, r.counted, Ne.symm heq]
      waited := congrArg (· + 1) r.waited }

def unregister (conn : κ) (r : ConnectionRegistry κ σ) : ConnectionRegistry κ σ :=
  match h : r.active.find? (·.1 = conn) with
  | none => r
  | some connection =>
    { r with
      active := r.active.erase connection
      bySource := Function.update r.bySource connection.2 (r.bySource connection.2 - 1)
      wait := r.wait - 1
      nodup := r.nodup.sublist ((List.erase_sublist).map Prod.fst)
      counted := by
        intro source
        have hperm := List.perm_cons_erase (List.mem_of_find?_eq_some h)
        by_cases heq : source = connection.2
        · subst heq
          rw [Function.update_self, r.counted, hperm.countP_eq]
          simp
        · rw [Function.update_of_ne heq, r.counted, hperm.countP_eq]
          simp [Ne.symm heq]
      waited := by
        rw [List.length_erase_of_mem (List.mem_of_find?_eq_some h), r.waited] }

theorem unregister_of_find?_none {conn : κ} {r : ConnectionRegistry κ σ}
    (h : r.active.find? (·.1 = conn) = none) :
  r.unregister conn = r
  := by
  unfold unregister
  split
  · rfl
  · next hsome =>
    rw [h] at hsome
    cases hsome

theorem unregister_of_find?_some {conn : κ} {connection : κ × σ} {r : ConnectionRegistry κ σ}
    (h : r.active.find? (·.1 = conn) = some connection) :
  (r.unregister conn).accepting = r.accepting ∧ (r.unregister conn).max = r.max ∧
  (r.unregister conn).maxSource = r.maxSource ∧
  (r.unregister conn).active = r.active.erase connection ∧
  (r.unregister conn).bySource =
    Function.update r.bySource connection.2 (r.bySource connection.2 - 1) ∧
  (r.unregister conn).wait = r.wait - 1
  := by
  unfold unregister
  split
  · next hnone =>
    rw [h] at hnone
    cases hnone
  · next connection' hsome =>
    rw [h] at hsome
    cases hsome
    exact ⟨rfl, rfl, rfl, rfl, rfl, rfl⟩

theorem unregister_register {conn : κ} {source : σ} {r r' : ConnectionRegistry κ σ}
    (h : r.register conn source = some r') :
  r'.unregister conn = r
  := by
  rw [register] at h
  split at h
  · cases h
  · split at h
    · cases h
    · cases h
      unfold unregister
      split
      · next hnone => simp at hnone
      · next connection hfind =>
        have hconnection : connection = (conn, source) := by simpa using hfind.symm
        subst hconnection
        simp

/-! ### Limits -/

/-- The limits of the registry are kept.  A maximum of zero is none. -/
structure Bounded (r : ConnectionRegistry κ σ) : Prop where
  total : 0 < r.max → r.active.length ≤ r.max
  sources : ∀ source, r.bySource source ≤ r.maxSource

theorem Bounded.new {maximum maximumPerSource : Nat} :
  (new maximum maximumPerSource : ConnectionRegistry κ σ).Bounded
  := ⟨fun _ => Nat.zero_le _, fun _ => Nat.zero_le _⟩

theorem Bounded.register {conn : κ} {source : σ} {r r' : ConnectionRegistry κ σ} (h : r.Bounded)
    (hr : r.register conn source = some r') :
  r'.Bounded ∧ r'.max = r.max ∧ r'.maxSource = r.maxSource
  := by
  rw [ConnectionRegistry.register] at hr
  split at hr
  · cases hr
  · next hfree =>
    obtain ⟨-, htotal, hsource⟩ : r.accepting = true ∧ (0 < r.max → r.active.length < r.max) ∧
      r.bySource source < r.maxSource := by simpa using hfree
    split at hr
    · cases hr
    · cases hr
      refine ⟨⟨htotal, fun source' => ?_⟩, rfl, rfl⟩
      by_cases heq : source' = source
      · subst heq
        simpa using Nat.succ_le_of_lt hsource
      · simpa [Function.update_of_ne heq] using h.sources source'

theorem Bounded.unregister {r : ConnectionRegistry κ σ} (h : r.Bounded) (conn : κ) :
  (r.unregister conn).Bounded ∧ (r.unregister conn).max = r.max ∧
    (r.unregister conn).maxSource = r.maxSource
  := by
  cases hfind : r.active.find? (·.1 = conn) with
  | none =>
    rw [unregister_of_find?_none hfind]
    exact ⟨h, rfl, rfl⟩
  | some connection =>
    obtain ⟨-, hmax, hmaxSource, hactive, hbySource, -⟩ := unregister_of_find?_some hfind
    refine ⟨⟨fun hpos => ?_, fun source => ?_⟩, hmax, hmaxSource⟩
    · rw [hmax] at hpos ⊢
      rw [hactive]
      exact Nat.le_trans List.length_erase_le (h.total hpos)
    · rw [hbySource, hmaxSource]
      by_cases heq : source = connection.2
      · subst heq
        rw [Function.update_self]
        exact Nat.le_trans (Nat.sub_le _ _) (h.sources _)
      · rw [Function.update_of_ne heq]
        exact h.sources source

end ConnectionRegistry

end GoSmtp.Server
