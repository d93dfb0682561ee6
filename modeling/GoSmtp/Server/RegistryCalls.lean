import GoSmtp.Server.Registry
import Mathlib.Data.List.Perm.Basic

/-!
# The calls of the registry

The registry of connections as its callers share it: `register`, `unregister` and `shutdown` run at
the same time, and only what they do under the mutex is one step.  `unregister` releases the mutex
before it tells the wait group, and `shutdown` releases it before it cancels the connections that
it has found.

Every state of such a run agrees with a `ConnectionRegistry`.
-/

namespace GoSmtp.Server

/-- `activeConnection`, with the cancel function as an arbitrary value. -/
structure ActiveConnection (κ σ χ : Type) where
  conn : κ
  cancel : χ
  source : σ
  deriving DecidableEq, Repr

/-- Where a call of `shutdown` is, after its critical section. -/
inductive ShutdownCall (κ χ : Type) where
  /-- The cancel functions that are still to be called. -/
  | canceling (rest : List χ)
  | waiting
  /-- The transports that `closeAll` is still to close. -/
  | closing (rest : List κ)
  /-- The call has returned, and whether its context had expired. -/
  | returned (expired : Bool)
  deriving DecidableEq, Repr

/-- The cancel functions that the call is still to call. -/
def ShutdownCall.remaining {κ χ : Type} : ShutdownCall κ χ → List χ
  | .canceling rest => rest
  | _ => []

/-- The registry, the calls that are under way, and what they have done. -/
structure RegistryCalls (κ σ χ : Type) where
  accepting : Bool
  max : Nat
  maxSource : Nat
  active : List (ActiveConnection κ σ χ)
  bySource : σ → Option Int
  /-- The count of the wait group. -/
  wait : Int
  /-- How many calls of `unregister` have released the mutex and not told the wait group. -/
  leaving : Nat
  shutdowns : List (ShutdownCall κ χ)
  canceled : List χ
  closed : List κ

/-- The steps of the calls. -/
inductive RegistryStep (κ σ χ : Type) where
  | register (conn : κ) (cancel : χ) (source : σ)
  /-- The critical section of `unregister`. -/
  | unregister (conn : κ)
  /-- `wait.Done` of a call of `unregister`. -/
  | done
  /-- The critical section of `shutdown`, with the order in which it finds the connections. -/
  | shutdown (connections : List (ActiveConnection κ σ χ))
  /-- The next step of a call of `shutdown`. -/
  | proceed (i : Nat)
  /-- The context of a call of `shutdown` expires, and `closeAll` finds the connections. -/
  | expire (i : Nat) (conns : List κ)
  deriving DecidableEq, Repr

namespace RegistryCalls

variable {κ σ χ : Type} [DecidableEq κ] [DecidableEq σ]

/-- `newConnectionRegistry`. -/
def new (maximum maximumPerSource : Nat) : RegistryCalls κ σ χ where
  accepting := true
  max := maximum
  maxSource := maximumPerSource
  active := []
  bySource _ := none
  wait := 0
  leaving := 0
  shutdowns := []
  canceled := []
  closed := []

/-- An entry of the map, which is zero if there is none. -/
def ofSource (s : RegistryCalls κ σ χ) (source : σ) : Int := (s.bySource source).getD 0

/-- `register`: `none` if the connection is refused. -/
def register (conn : κ) (cancel : χ) (source : σ) (s : RegistryCalls κ σ χ) :
    Option (RegistryCalls κ σ χ) :=
  if !s.accepting ∨ (0 < s.max ∧ s.max ≤ s.active.length) ∨ s.maxSource ≤ s.ofSource source then
    none
  else if conn ∈ s.active.map (·.conn) then none
  else
    some { s with
      active := ⟨conn, cancel, source⟩ :: s.active
      bySource := Function.update s.bySource source (some (s.ofSource source + 1))
      wait := s.wait + 1 }

/-- The critical section of `unregister`. -/
def unregister (conn : κ) (s : RegistryCalls κ σ χ) : RegistryCalls κ σ χ :=
  match s.active.find? (·.conn = conn) with
  | none => s
  | some connection =>
    let remaining := s.ofSource connection.source - 1
    { s with
      active := s.active.eraseP (·.conn = conn)
      bySource := Function.update s.bySource connection.source
        (if remaining = 0 then none else some remaining)
      leaving := s.leaving + 1 }

/-- The next step of a call of `shutdown`, if it has one. -/
def proceed (i : Nat) (s : RegistryCalls κ σ χ) : RegistryCalls κ σ χ :=
  match s.shutdowns[i]? with
  | some (.canceling (cancel :: rest)) =>
    { s with canceled := s.canceled ++ [cancel], shutdowns := s.shutdowns.set i (.canceling rest) }
  | some (.canceling []) => { s with shutdowns := s.shutdowns.set i .waiting }
  | some .waiting =>
    if s.wait = 0 then { s with shutdowns := s.shutdowns.set i (.returned false) } else s
  | some (.closing (conn :: rest)) =>
    { s with closed := s.closed ++ [conn], shutdowns := s.shutdowns.set i (.closing rest) }
  | some (.closing []) => { s with shutdowns := s.shutdowns.set i (.returned true) }
  | some (.returned _) | none => s

/-- A step that is not possible leaves all as it is. -/
def step [DecidableEq χ] (s : RegistryCalls κ σ χ) : RegistryStep κ σ χ → RegistryCalls κ σ χ
  | .register conn cancel source => (s.register conn cancel source).getD s
  | .unregister conn => s.unregister conn
  | .done => if s.leaving = 0 then s else { s with wait := s.wait - 1, leaving := s.leaving - 1 }
  | .shutdown connections =>
    -- A map is iterated in any order.
    if connections.isPerm s.active then
      { s with accepting := false,
               shutdowns := s.shutdowns ++ [.canceling (connections.map (·.cancel))] }
    else s
  | .proceed i => s.proceed i
  | .expire i conns =>
    if s.shutdowns[i]? = some .waiting ∧ conns.isPerm (s.active.map (·.conn)) then
      { s with shutdowns := s.shutdowns.set i (.closing conns) }
    else s

/-- The steps of all calls, as they interleave. -/
def run [DecidableEq χ] (s : RegistryCalls κ σ χ) (steps : List (RegistryStep κ σ χ)) :
    RegistryCalls κ σ χ :=
  steps.foldl step s

/-! ### Refinement -/

theorem erase_of_find? {α : Type} [BEq α] [LawfulBEq α] {p : α → Bool} {a : α} {l : List α}
    (h : l.find? p = some a) :
  l.erase a = l.eraseP p
  := by
  induction l with
  | nil => cases h
  | cons b l ih =>
    cases hb : p b with
    | true =>
      rw [List.find?_cons_of_pos hb] at h
      cases h
      rw [List.erase_cons_head, List.eraseP_cons_of_pos hb]
    | false =>
      have hneg : ¬ p b = true := by simp [hb]
      rw [List.find?_cons_of_neg hneg] at h
      have hne : b ≠ a := by
        rintro rfl
        exact hneg (List.find?_some h)
      rw [List.erase_cons_tail (by simpa using hne), List.eraseP_cons_of_neg hneg, ih h]

/-- The state agrees with a registry, save for the calls of `unregister` that have not told the
wait group.  There are no entries that are zero. -/
structure Refines (s : RegistryCalls κ σ χ) (r : ConnectionRegistry κ σ) : Prop where
  accepting : r.accepting = s.accepting
  max : r.max = s.max
  maxSource : r.maxSource = s.maxSource
  active : r.active = s.active.map fun c => (c.conn, c.source)
  bySource : ∀ source,
    s.bySource source = if r.bySource source = 0 then none else some (r.bySource source : Int)
  wait : s.wait = r.wait + s.leaving

variable {s : RegistryCalls κ σ χ} {r : ConnectionRegistry κ σ}

theorem refines_new (maximum maximumPerSource : Nat) :
  Refines (new maximum maximumPerSource : RegistryCalls κ σ χ) (.new maximum maximumPerSource)
  := ⟨rfl, rfl, rfl, rfl, fun _ => rfl, rfl⟩

namespace Refines

variable (h : Refines s r)
include h

theorem ofSource (source : σ) :
  s.ofSource source = r.bySource source
  := by
  rw [RegistryCalls.ofSource, h.bySource]
  split
  · next hzero => simp [hzero]
  · rfl

theorem conns :
  r.active.map Prod.fst = s.active.map (·.conn)
  := by rw [h.active, List.map_map]; rfl

theorem length :
  r.active.length = s.active.length
  := by rw [h.active, List.length_map]

theorem register (conn : κ) (cancel : χ) (source : σ) :
  s.register conn cancel source = none ∧ r.register conn source = none ∨
    ∃ s' r', s.register conn cancel source = some s' ∧ r.register conn source = some r' ∧
      Refines s' r'
  := by
  have hrefuses : (!r.accepting ∨ (0 < r.max ∧ r.max ≤ r.active.length) ∨
      r.maxSource ≤ r.bySource source) ↔
      (!s.accepting ∨ (0 < s.max ∧ s.max ≤ s.active.length) ∨ s.maxSource ≤ s.ofSource source) := by
    rw [h.ofSource, h.accepting, h.max, h.maxSource, h.length, Int.ofNat_le]
  rw [RegistryCalls.register, ConnectionRegistry.register]
  simp only [hrefuses]
  split
  · exact .inl ⟨rfl, rfl⟩
  · by_cases hconn : conn ∈ s.active.map (·.conn)
    · rw [if_pos hconn, dif_pos (h.conns ▸ hconn)]
      exact .inl ⟨rfl, rfl⟩
    · rw [if_neg hconn, dif_neg (h.conns ▸ hconn)]
      refine .inr ⟨_, _, rfl, rfl, h.accepting, h.max, h.maxSource, ?_, ?_, ?_⟩
      · simp [h.active]
      · intro source'
        by_cases heq : source' = source
        · subst heq
          simp [h.ofSource]
        · simp [Function.update_of_ne heq, h.bySource]
      · simp only [h.wait]
        omega

theorem unregister (conn : κ) :
  Refines (s.unregister conn) (r.unregister conn)
  := by
  have hfind : r.active.find? (·.1 = conn) =
      (s.active.find? (·.conn = conn)).map fun c => (c.conn, c.source) := by
    rw [h.active, List.find?_map]
    rfl
  rw [RegistryCalls.unregister]
  cases hs : s.active.find? (·.conn = conn) with
  | none =>
    rw [hs] at hfind
    rw [ConnectionRegistry.unregister_of_find?_none hfind]
    exact h
  | some c =>
    rw [hs] at hfind
    obtain ⟨haccepting, hmax, hmaxSource, hactive, hbySource, hwait⟩ :=
      ConnectionRegistry.unregister_of_find?_some hfind
    have hmem : (c.conn, c.source) ∈ r.active := List.mem_of_find?_eq_some hfind
    have hpos : 0 < r.bySource c.source := by
      rw [r.counted]
      exact List.countP_pos_iff.mpr ⟨_, hmem, by simp⟩
    have hwaits : 0 < r.wait := by
      rw [r.waited]
      exact List.length_pos_of_mem hmem
    refine ⟨haccepting.trans h.accepting, hmax.trans h.max, hmaxSource.trans h.maxSource, ?_, ?_, ?_⟩
    · rw [hactive, erase_of_find? hfind, h.active, List.eraseP_map]
      rfl
    · intro source
      rw [hbySource]
      by_cases heq : source = c.source
      · subst heq
        have hzero : (r.bySource c.source : Int) - 1 = 0 ↔ r.bySource c.source - 1 = 0 := by omega
        have hcast : ((r.bySource c.source - 1 : Nat) : Int) = r.bySource c.source - 1 := by omega
        simp only [Function.update_self, h.ofSource, hzero, hcast]
      · simp only [Function.update_of_ne heq, h.bySource]
    · simp only [hwait, h.wait]
      omega

end Refines

theorem unregister_unknown {conn : κ} (h : conn ∉ s.active.map (·.conn)) :
  s.unregister conn = s
  := by
  have hnone : s.active.find? (·.conn = conn) = none := by
    rw [List.find?_eq_none]
    intro c hc heq
    apply h
    rw [← of_decide_eq_true heq]
    exact List.mem_map_of_mem hc
  rw [unregister, hnone]

theorem Refines.not_mem_unregister (h : Refines s r) {conn : κ} :
  conn ∉ (s.unregister conn).active.map (·.conn)
  := by
  have hnodup : (s.active.map (·.conn)).Nodup := h.conns ▸ r.nodup
  rw [RegistryCalls.unregister]
  split
  · next hnone =>
    intro hmem
    obtain ⟨c, hc, heq⟩ := List.mem_map.mp hmem
    exact List.find?_eq_none.mp hnone c hc (decide_eq_true heq)
  · have herase : (s.active.eraseP (·.conn = conn)).map (·.conn) =
        (s.active.map (·.conn)).erase conn := by
      rw [List.erase_eq_eraseP, List.eraseP_map]
      congr 2
      funext c
      simp [eq_comm, Bool.beq_eq_decide_eq]
    rw [herase]
    exact hnodup.not_mem_erase

/-! ### Runs -/

/-- The state agrees with a registry that keeps its limits. -/
def Kept (maximum maximumPerSource : Nat) (s : RegistryCalls κ σ χ) : Prop :=
  ∃ r : ConnectionRegistry κ σ, s.Refines r ∧ r.Bounded ∧ r.max = maximum ∧
    r.maxSource = maximumPerSource

omit [DecidableEq κ] [DecidableEq σ] in
theorem proceed_eq (s : RegistryCalls κ σ χ) (i : Nat) :
  ∃ shutdowns canceled closed, s.proceed i =
    { s with shutdowns := shutdowns, canceled := canceled, closed := closed }
  := by
  rw [proceed]
  split
  · exact ⟨_, _, _, rfl⟩
  · exact ⟨_, _, _, rfl⟩
  · split <;> exact ⟨_, _, _, rfl⟩
  · exact ⟨_, _, _, rfl⟩
  · exact ⟨_, _, _, rfl⟩
  · exact ⟨_, _, _, rfl⟩
  · exact ⟨_, _, _, rfl⟩

variable [DecidableEq χ] {maximum maximumPerSource : Nat}

theorem kept_step (h : s.Kept maximum maximumPerSource) (a : RegistryStep κ σ χ) :
  (s.step a).Kept maximum maximumPerSource
  := by
  obtain ⟨r, hrefines, hbounded, rfl, rfl⟩ := h
  cases a with
  | register conn cancel source =>
    rw [step]
    rcases hrefines.register conn cancel source with ⟨hs, -⟩ | ⟨s', r', hs, hr, hrefines'⟩
    · rw [hs]
      exact ⟨r, hrefines, hbounded, rfl, rfl⟩
    · rw [hs]
      exact ⟨r', hrefines', hbounded.register hr⟩
  | unregister conn => exact ⟨_, hrefines.unregister conn, hbounded.unregister conn⟩
  | done =>
    rw [step]
    split
    · exact ⟨r, hrefines, hbounded, rfl, rfl⟩
    · refine ⟨r, { hrefines with wait := ?_ }, hbounded, rfl, rfl⟩
      have hwait := hrefines.wait
      simp only
      omega
  | shutdown connections =>
    rw [step]
    split
    · exact ⟨{ r with accepting := false }, { hrefines with accepting := rfl },
        ⟨hbounded.total, hbounded.sources⟩, rfl, rfl⟩
    · exact ⟨r, hrefines, hbounded, rfl, rfl⟩
  | proceed i =>
    obtain ⟨shutdowns, canceled, closed, heq⟩ := s.proceed_eq i
    rw [step, heq]
    exact ⟨r, { hrefines with }, hbounded, rfl, rfl⟩
  | expire i conns =>
    rw [step]
    split
    · exact ⟨r, { hrefines with }, hbounded, rfl, rfl⟩
    · exact ⟨r, hrefines, hbounded, rfl, rfl⟩

theorem kept_run (h : s.Kept maximum maximumPerSource) (steps : List (RegistryStep κ σ χ)) :
  (s.run steps).Kept maximum maximumPerSource
  := by
  induction steps generalizing s with
  | nil => exact h
  | cons a steps ih => exact ih (kept_step h a)

theorem accepting_step (h : s.accepting = false) (a : RegistryStep κ σ χ) :
  (s.step a).accepting = false
  := by
  cases a with
  | register conn cancel source => simp [step, register, h]
  | unregister conn =>
    rw [step, unregister]
    split <;> exact h
  | done =>
    rw [step]
    split <;> exact h
  | shutdown connections =>
    rw [step]
    split
    · rfl
    · exact h
  | proceed i =>
    obtain ⟨shutdowns, canceled, closed, heq⟩ := s.proceed_eq i
    rw [step, heq]
    exact h
  | expire i conns =>
    rw [step]
    split <;> exact h

theorem accepting_run (h : s.accepting = false) (steps : List (RegistryStep κ σ χ)) :
  (s.run steps).accepting = false
  := by
  induction steps generalizing s with
  | nil => exact h
  | cons a steps ih => exact ih (accepting_step h a)

/-! ### Cancellation -/

/-- The call `i` of `shutdown` has called all of these functions but at most `n`, which it will
call. -/
def Cancels (cancels : List χ) (i n : Nat) (s : RegistryCalls κ σ χ) : Prop :=
  ∃ call, s.shutdowns[i]? = some call ∧ call.remaining.length ≤ n ∧
    ∀ cancel ∈ cancels, cancel ∈ s.canceled ∨ cancel ∈ call.remaining

section Cancels

omit [DecidableEq κ] [DecidableEq σ] [DecidableEq χ]

variable {cancels : List χ} {i n : Nat}

theorem Cancels.mono (h : s.Cancels cancels i n) {m : Nat} (hle : n ≤ m) :
  s.Cancels cancels i m
  := by
  obtain ⟨call, hcall, hlength, hcancels⟩ := h
  exact ⟨call, hcall, Nat.le_trans hlength hle, hcancels⟩

theorem Cancels.frame (h : s.Cancels cancels i n) {s' : RegistryCalls κ σ χ}
    (hcall : s'.shutdowns[i]? = s.shutdowns[i]?) (hcanceled : s.canceled ⊆ s'.canceled) :
  s'.Cancels cancels i n
  := by
  obtain ⟨call, heq, hlength, hcancels⟩ := h
  use call, hcall.trans heq, hlength
  exact fun cancel hmem => (hcancels cancel hmem).imp_left fun hold => hcanceled hold

theorem Cancels.next (h : s.Cancels cancels i n) {s' : RegistryCalls κ σ χ}
    {call call' : ShutdownCall κ χ} (hcall : s.shutdowns[i]? = some call)
    (hset : s'.shutdowns = s.shutdowns.set i call') (hrest : call'.remaining = call.remaining.tail)
    (hcanceled : s'.canceled = s.canceled ++ call.remaining.take 1) :
  s'.Cancels cancels i (n - 1)
  := by
  obtain ⟨call₁, heq, hlength, hcancels⟩ := h
  cases hcall.symm.trans heq
  obtain ⟨hi, -⟩ := List.getElem?_eq_some_iff.mp hcall
  refine ⟨call', by simp [hset, hi], ?_, ?_⟩
  · rw [hrest, List.length_tail]
    exact Nat.sub_le_sub_right hlength 1
  · intro cancel hmem
    rw [hcanceled, hrest, List.mem_append, or_assoc]
    refine (hcancels cancel hmem).imp_right fun hrest => ?_
    cases hremaining : call.remaining with
    | nil => simp [hremaining] at hrest
    | cons c rest => simpa [hremaining] using hrest

theorem Cancels.idle (h : s.Cancels cancels i n) {call : ShutdownCall κ χ}
    (hcall : s.shutdowns[i]? = some call) (hrest : call.remaining = []) :
  s.Cancels cancels i (n - 1)
  := by
  obtain ⟨call₁, heq, -, hcancels⟩ := h
  cases hcall.symm.trans heq
  exact ⟨call, hcall, by simp [hrest], hcancels⟩

theorem Cancels.proceed (h : s.Cancels cancels i n) :
  (s.proceed i).Cancels cancels i (n - 1)
  := by
  rw [RegistryCalls.proceed]
  split
  · next hcall => exact h.next hcall rfl rfl rfl
  · next hcall => exact h.next hcall rfl rfl (List.append_nil _).symm
  · next hcall =>
    split
    · exact h.next hcall rfl rfl (List.append_nil _).symm
    · exact h.idle hcall rfl
  · next hcall => exact h.next hcall rfl rfl (List.append_nil _).symm
  · next hcall => exact h.next hcall rfl rfl (List.append_nil _).symm
  · next hcall => exact h.idle hcall rfl
  · next hnone =>
    obtain ⟨call, hcall, -⟩ := h
    rw [hnone] at hcall
    cases hcall

theorem Cancels.other (h : s.Cancels cancels i n) {j : Nat} (hne : j ≠ i) :
  (s.proceed j).Cancels cancels i n
  := by
  rw [RegistryCalls.proceed]
  split
  · exact h.frame (List.getElem?_set_ne hne) (List.subset_append_left _ _)
  · exact h.frame (List.getElem?_set_ne hne) (List.Subset.refl _)
  · split
    · exact h.frame (List.getElem?_set_ne hne) (List.Subset.refl _)
    · exact h
  · exact h.frame (List.getElem?_set_ne hne) (List.Subset.refl _)
  · exact h.frame (List.getElem?_set_ne hne) (List.Subset.refl _)
  · exact h
  · exact h

end Cancels

section Cancels

variable {cancels : List χ} {i n : Nat}

theorem cancels_step (h : s.Cancels cancels i n) (a : RegistryStep κ σ χ) :
  (s.step a).Cancels cancels i (if a = .proceed i then n - 1 else n)
  := by
  cases a with
  | register conn cancel source =>
    rw [step, register, if_neg (by simp)]
    split
    · exact h
    · split
      · exact h
      · exact h.frame rfl (List.Subset.refl _)
  | unregister conn =>
    rw [step, unregister, if_neg (by simp)]
    split
    · exact h
    · exact h.frame rfl (List.Subset.refl _)
  | done =>
    rw [step, if_neg (c := _ = _) (by simp)]
    split
    · exact h
    · exact h.frame rfl (List.Subset.refl _)
  | shutdown connections =>
    rw [step, if_neg (c := _ = _) (by simp)]
    split
    · obtain ⟨call, hcall, -⟩ := id h
      obtain ⟨hi, -⟩ := List.getElem?_eq_some_iff.mp hcall
      exact h.frame (List.getElem?_append_left hi) (List.Subset.refl _)
    · exact h
  | proceed j =>
    by_cases heq : j = i
    · subst heq
      rw [if_pos rfl]
      exact h.proceed
    · rw [if_neg (by simpa using heq)]
      exact h.other heq
  | expire j conns =>
    rw [step, if_neg (c := _ = _) (by simp)]
    split
    · next hwaits =>
      by_cases heq : j = i
      · subst heq
        apply Cancels.mono _ (Nat.sub_le n 1)
        exact h.next hwaits.1 rfl rfl (List.append_nil _).symm
      · exact h.frame (List.getElem?_set_ne heq) (List.Subset.refl _)
    · exact h

theorem cancels_run (h : s.Cancels cancels i n) (steps : List (RegistryStep κ σ χ)) :
  (s.run steps).Cancels cancels i (n - steps.count (.proceed i))
  := by
  induction steps generalizing s n with
  | nil => exact h
  | cons a steps ih =>
    have hrest := ih (cancels_step h a)
    by_cases heq : a = .proceed i
    · rw [if_pos heq] at hrest
      apply hrest.mono
      rw [heq, List.count_cons_self]
      omega
    · rw [if_neg heq] at hrest
      rw [List.count_cons_of_ne heq]
      exact hrest

end Cancels

/-! ### All runs -/

/-- Whatever the calls do and however they interleave: the registry counts the active connections of
every source, without entries that are zero, and keeps its limits; the wait group counts the active
connections, and those that have left without telling it; a connection that is not active cannot be
unregistered; and a shutdown refuses all further connections, and cancels all that it finds. -/
theorem registry_run (maximum maximumPerSource : Nat) (steps : List (RegistryStep κ σ χ)) :
  let s := (new maximum maximumPerSource : RegistryCalls κ σ χ).run steps
  let count source := s.active.countP (·.source = source)
  (∀ source, s.bySource source = if count source = 0 then none else some (count source : Int)) ∧
  (∀ source, count source ≤ maximumPerSource) ∧
  (0 < maximum → s.active.length ≤ maximum) ∧
  s.wait = s.active.length + s.leaving ∧
  (∀ conn, conn ∉ s.active.map (·.conn) → s.step (.unregister conn) = s) ∧
  (∀ conn, (s.step (.unregister conn)).step (.unregister conn) = s.step (.unregister conn)) ∧
  ∀ connections, connections.Perm s.active → ∀ later,
    let s' := (s.step (.shutdown connections)).run later
    (∀ conn cancel source, s'.register conn cancel source = none) ∧
    (s.active.length ≤ later.count (.proceed s.shutdowns.length) →
      ∀ c ∈ s.active, c.cancel ∈ s'.canceled)
  := by
  intro s count
  obtain ⟨r, hrefines, hbounded, hmax, hmaxSource⟩ : s.Kept maximum maximumPerSource :=
    kept_run ⟨_, refines_new maximum maximumPerSource, .new, rfl, rfl⟩ steps
  have hcount (source : σ) : r.bySource source = count source := by
    rw [r.counted, hrefines.active, List.countP_map]
    rfl
  refine ⟨fun source => ?_, fun source => ?_, fun hpos => ?_, ?_, fun conn => unregister_unknown,
    fun conn => unregister_unknown hrefines.not_mem_unregister, ?_⟩
  · rw [hrefines.bySource, hcount]
  · rw [← hcount, ← hmaxSource]
    exact hbounded.sources source
  · rw [← hrefines.length, ← hmax]
    rw [← hmax] at hpos
    exact hbounded.total hpos
  · rw [hrefines.wait, r.waited, hrefines.length]
  · intro connections hperm later s'
    have hperm' : connections.isPerm s.active = true := List.isPerm_iff.mpr hperm
    constructor
    · intro conn cancel source
      have haccepting : s'.accepting = false := by
        apply accepting_run
        rw [step, if_pos hperm']
      simp [register, haccepting]
    · intro hsteps c hc
      have hstarted : (s.step (.shutdown connections)).Cancels (connections.map (·.cancel))
          s.shutdowns.length connections.length := by
        rw [step, if_pos hperm']
        exact ⟨_, List.getElem?_concat_length, by simp [ShutdownCall.remaining],
          fun _ hmem => .inr hmem⟩
      obtain ⟨call, -, hlength, hcancels⟩ := cancels_run hstarted later
      have hnone : call.remaining = [] := by
        rw [hperm.length_eq, Nat.sub_eq_zero_of_le hsteps] at hlength
        exact List.eq_nil_of_length_eq_zero (Nat.le_zero.mp hlength)
      have hmem : c.cancel ∈ connections.map (·.cancel) :=
        List.mem_map_of_mem (hperm.mem_iff.mpr hc)
      simpa [hnone] using hcancels c.cancel hmem

/-- A connection has left, and the wait group has not been told.  It counts one connection, and
none is active. -/
theorem wait_ne_active :
  let s := (new 2 1 : RegistryCalls Nat Nat Nat).run [.register 0 0 0, .unregister 0]
  s.active.length = 0 ∧ s.wait = 1
  := by decide

end RegistryCalls

end GoSmtp.Server
