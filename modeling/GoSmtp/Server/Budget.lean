import GoSmtp.Lib.Shared
import GoSmtp.Server.Spool
import Mathlib.Algebra.Group.Int.Defs
import Mathlib.Algebra.Group.Prod
import Mathlib.Algebra.Order.BigOperators.Group.List
import Mathlib.Algebra.Order.Group.Int
import Mathlib.Algebra.Order.Group.Unbundled.Basic
import Mathlib.Algebra.Order.Monoid.Prod

/-!
# The budget of the spools

The manager keeps count of what the spools of a server hold together: octets, octets in memory,
and spools.  The spools are used concurrently.  A write holds the lock of its spool all the time,
but takes the lock of the manager only to reserve and to release; and a close gives the share of
the spool back after it has let go of the lock of the spool.  So the steps of this model are the
sections under the lock of the manager, and what they leave to do is a state of the spool.
-/

namespace GoSmtp.Server

/-- The octets, the octets in memory and the spools that a manager counts. -/
def SpoolManager.usage (m : SpoolManager) : Int × Int × Int := (m.total, m.totalMemory, m.concurrent)

/-- The share of a spool in them. -/
def Spool.share (spool : Spool) : Int × Int × Int :=
  if spool.closed then 0 else (spool.reserved, spool.reservedMemory, 1)

/-! ### The state of a spool in use -/

/-- What a write or a close has still to do. -/
inductive Progress where
  | idle
  /-- The spool is about to spill, since it would grow over its own bound of memory. -/
  | spillOwn (p : Bytes)
  | reserve (p : Bytes)
  /-- The spool is about to spill, since there is no memory left for all spools. -/
  | spillShared (p : Bytes)
  | reserveFile (p : Bytes)
  | store (p : Bytes) (memory : Bool)
  | giveBack (unused : Nat) (memory : Bool)
  | releaseSpool (total memory : Nat)
  deriving DecidableEq, Repr

structure Cell where
  spool : Spool
  progress : Progress
  deriving DecidableEq, Repr

def boolBytes (memory : Bool) (n : Nat) : Nat := if memory then n else 0

/-- Octets, some of them in memory. -/
def octets (total memory : Nat) : Int × Int × Int := (total, memory, 0)

/-- What is reserved, or not yet given back. -/
def Progress.pending : Progress → Int × Int × Int
  | .store p memory => octets p.length (boolBytes memory p.length)
  | .giveBack unused memory => octets unused (boolBytes memory unused)
  | .releaseSpool total memory => (total, memory, 1)
  | _ => 0

def Cell.holding (c : Cell) : Int × Int × Int := c.spool.share + c.progress.pending

/-- What the file system does in a step: whether a file is created, whether the memory is copied
to it, how many octets of a write get there, and what the file then holds. -/
structure Disk where
  created : Bool
  spilled : Bool
  stored : Nat
  file : Bytes
  deriving DecidableEq, Repr

/-! ### Sections under the lock of the manager -/

/-- `errSpoolTotalExhausted` and `errSpoolMemoryExhausted`. -/
inductive Exhausted where
  | total
  | memory
  deriving DecidableEq, Repr

/-- `reserve`, with the error that it returns. -/
def SpoolManager.reserve (m : SpoolManager) (total memory : Nat) : Except Exhausted SpoolManager :=
  if (total : Int) > m.opts.maxTotalBytes - m.total then .error .total
  else if (memory : Int) > m.opts.maxTotalMemoryBytes - m.totalMemory then .error .memory
  else .ok { m with total := m.total + total, totalMemory := m.totalMemory + memory }

def SpoolManager.release (m : SpoolManager) (total memory : Nat) : SpoolManager :=
  { m with total := m.total - total, totalMemory := m.totalMemory - memory }

def SpoolManager.releaseSpool (m : SpoolManager) (total memory : Nat) : SpoolManager :=
  { m with total := m.total - total, totalMemory := m.totalMemory - memory,
           concurrent := m.concurrent - 1 }

/-- `spillLocked`, `none` if it fails. -/
def Spool.spill (disk : Disk) (m : SpoolManager) (spool : Spool) : Option (SpoolManager × Spool) :=
  if spool.file.isSome then some (m, spool)
  else if !disk.created then none
  else if spool.memory.isEmpty then some (m, { spool with memory := [], file := some [] })
  else if !disk.spilled then none
  else
    some (m.release 0 spool.reservedMemory,
      { spool with reservedMemory := 0, memory := [], file := some disk.file })

/-- The octets of `p` that are stored, and the spool that then holds them. -/
def Spool.stored (disk : Disk) (spool : Spool) (p : Bytes) : Nat × Spool :=
  match spool.file with
  | none => (p.length, { spool with memory := spool.memory ++ p })
  | some _ => (min disk.stored p.length, { spool with file := some disk.file })

/-- The spool with `n` octets more. -/
def Spool.grow (spool : Spool) (n : Nat) (memory : Bool) : Spool :=
  { spool with size := spool.size + n, reserved := spool.reserved + n,
               reservedMemory := spool.reservedMemory + boolBytes memory n }

/-- The next section of the write or the close in progress. -/
def Cell.advance (disk : Disk) (m : SpoolManager) (c : Cell) : SpoolManager × Cell :=
  match c.progress with
  | .idle => (m, c)
  | .spillOwn p =>
    match c.spool.spill disk m with
    | none => (m, { c with progress := .idle })
    | some (m, spool) => (m, ⟨spool, .reserve p⟩)
  | .reserve p =>
    let memory := c.spool.file.isNone
    match m.reserve p.length (boolBytes memory p.length) with
    | .ok m => (m, { c with progress := .store p memory })
    | .error .memory => (m, { c with progress := if memory then .spillShared p else .idle })
    | .error .total => (m, { c with progress := .idle })
  | .spillShared p =>
    match c.spool.spill disk m with
    | none => (m, { c with progress := .idle })
    | some (m, spool) => (m, ⟨spool, .reserveFile p⟩)
  | .reserveFile p =>
    match m.reserve p.length 0 with
    | .ok m => (m, { c with progress := .store p false })
    | .error _ => (m, { c with progress := .idle })
  | .store p memory =>
    let (n, spool) := c.spool.stored disk p
    (m, ⟨spool.grow n memory,
      if p.length - n > 0 then .giveBack (p.length - n) memory else .idle⟩)
  | .giveBack unused memory =>
    (m.release unused (boolBytes memory unused), { c with progress := .idle })
  | .releaseSpool total memory => (m.releaseSpool total memory, { c with progress := .idle })

/-! ### Calls -/

/-- `Write` under the lock of the spool, up to the first section under the lock of the manager.
While another write is in progress, the call waits. -/
def Cell.write (p : Bytes) (m : SpoolManager) (c : Cell) : Cell :=
  if c.progress ≠ .idle ∨ c.spool.closed ∨ p.isEmpty then c
  else if (p.length : Int) > m.opts.maxBytes - c.spool.size then c
  else if c.spool.file.isNone ∧ c.spool.size + p.length > m.opts.maxMemoryBytes then
    { c with progress := .spillOwn p }
  else { c with progress := .reserve p }

/-- `Close` up to `releaseSpool`. -/
def Cell.close (c : Cell) : Cell :=
  if c.progress ≠ .idle ∨ c.spool.closed then c
  else
    { spool := { c.spool with closed := true, reserved := 0, reservedMemory := 0 }
      progress := .releaseSpool c.spool.reserved c.spool.reservedMemory }

/-- What may happen next to the spools of a manager. -/
inductive SpoolEvent where
  | newSpool
  | write (i : Nat) (p : Bytes)
  | reader (i : Nat)
  | close (i : Nat)
  | advance (i : Nat) (disk : Disk)
  deriving DecidableEq, Repr

/-- A manager and its spools. -/
abbrev Spools := Shared SpoolManager Cell

namespace Spools

def step (s : Spools) : SpoolEvent → Spools
  | .newSpool =>
    match s.resource.newSpool with
    | none => s
    | some (m, spool) => s.join m ⟨spool, .idle⟩
  | .write i p => s.act i fun m c => (m, c.write p m)
  -- `Reader` moves the offset of the file, of which this model knows nothing.
  | .reader _ => s
  | .close i => s.act i fun m c => (m, c.close)
  | .advance i disk => s.act i (Cell.advance disk)

def run (s : Spools) (events : List SpoolEvent) : Spools := events.foldl step s

/-- `newSpoolManager`. -/
def new (opts : SpoolOptions) : Spools := ⟨⟨opts, 0, 0, 0⟩, []⟩

end Spools

/-! ### What the sections do to the count -/

/-- The bounds of a manager. -/
def SpoolOptions.limits (opts : SpoolOptions) : Int × Int × Int :=
  (opts.maxTotalBytes, opts.maxTotalMemoryBytes, opts.maxConcurrent)

/-- The manager keeps to its bounds. -/
structure SpoolManager.Within (opts : SpoolOptions) (m : SpoolManager) : Prop where
  obeys : m.opts = opts
  usage_le : m.usage ≤ opts.limits

section Sections

variable {m m' : SpoolManager} {opts : SpoolOptions} {disk : Disk} {spool spool' : Spool} {c : Cell}

theorem octets_nonneg (total memory : Nat) :
  0 ≤ octets total memory
  := ⟨Int.natCast_nonneg total, Int.natCast_nonneg memory, Int.le_refl 0⟩

theorem SpoolManager.usage_reserve {total memory : Nat} (h : m.reserve total memory = .ok m') :
  m'.usage = m.usage + octets total memory
  := by
  rw [reserve] at h
  split at h
  · cases h
  · split at h
    · cases h
    · cases h
      simp [usage, octets]

theorem SpoolManager.Within.reserve {total memory : Nat} (h : m.Within opts)
    (hm : m.reserve total memory = .ok m') :
  m'.Within opts
  := by
  have hconcurrent : m.concurrent ≤ opts.maxConcurrent := h.usage_le.2.2
  rw [SpoolManager.reserve, h.obeys] at hm
  split at hm
  · cases hm
  · split at hm
    · cases hm
    · cases hm
      refine ⟨rfl, ?_, ?_, hconcurrent⟩
      · simp only [usage, SpoolOptions.limits]
        omega
      · simp only [usage, SpoolOptions.limits]
        omega

theorem SpoolManager.usage_release (total memory : Nat) :
  (m.release total memory).usage = m.usage - octets total memory
  := by
  simp [usage, release, octets]

theorem SpoolManager.Within.release (h : m.Within opts) (total memory : Nat) :
  (m.release total memory).Within opts
  := by
  refine ⟨h.obeys, ?_⟩
  rw [SpoolManager.usage_release]
  exact (sub_le_self _ (octets_nonneg total memory)).trans h.usage_le

theorem SpoolManager.usage_releaseSpool (total memory : Nat) :
  (m.releaseSpool total memory).usage = m.usage - (Progress.releaseSpool total memory).pending
  := by
  simp [usage, releaseSpool, Progress.pending]

theorem Progress.pending_nonneg (progress : Progress) :
  0 ≤ progress.pending
  := by
  cases progress with
  | store p memory => exact octets_nonneg _ _
  | giveBack unused memory => exact octets_nonneg _ _
  | releaseSpool total memory =>
    exact ⟨Int.natCast_nonneg total, Int.natCast_nonneg memory, by simp [pending]⟩
  | _ => exact le_rfl

theorem Spool.share_nonneg (spool : Spool) :
  0 ≤ spool.share
  := by
  rw [share]
  split
  · exact le_rfl
  · exact ⟨Int.natCast_nonneg _, Int.natCast_nonneg _, by simp⟩

theorem SpoolManager.Within.releaseSpool (h : m.Within opts) (total memory : Nat) :
  (m.releaseSpool total memory).Within opts
  := by
  refine ⟨h.obeys, ?_⟩
  rw [SpoolManager.usage_releaseSpool]
  exact (sub_le_self _ (Progress.pending_nonneg _)).trans h.usage_le

theorem Spool.spill_some (h : spool.spill disk m = some (m', spool')) :
  spool'.closed = spool.closed ∧ spool'.size = spool.size ∧
  (spool.closed = false → m'.usage + spool.share = m.usage + spool'.share) ∧
  (m.Within opts → m'.Within opts)
  := by
  rw [spill] at h
  split at h
  · cases h
    exact ⟨rfl, rfl, fun _ => rfl, id⟩
  split at h
  · cases h
  split at h
  · cases h
    exact ⟨rfl, rfl, fun _ => rfl, id⟩
  split at h
  · cases h
  · cases h
    refine ⟨rfl, rfl, fun hopen => ?_, fun hm => hm.release _ _⟩
    rw [SpoolManager.usage_release]
    simp [share, hopen, octets, SpoolManager.usage]

theorem Spool.stored_spec (disk : Disk) (spool : Spool) (p : Bytes) :
  (spool.stored disk p).1 ≤ p.length ∧ (spool.stored disk p).2.closed = spool.closed ∧
  (spool.stored disk p).2.size = spool.size ∧ (spool.stored disk p).2.share = spool.share
  := by
  rw [stored]
  split
  · exact ⟨Nat.le_refl _, rfl, rfl, rfl⟩
  · exact ⟨Nat.min_le_right _ _, rfl, rfl, rfl⟩

theorem Spool.share_grow (n : Nat) (memory : Bool) (h : spool.closed = false) :
  (spool.grow n memory).share = spool.share + octets n (boolBytes memory n)
  := by
  simp [share, grow, h, octets]

end Sections

/-! ### The invariant -/

/-- The octets of the write in progress, as long as they are not stored. -/
def Progress.input : Progress → Option Bytes
  | .spillOwn p | .reserve p | .spillShared p | .reserveFile p | .store p _ => some p
  | _ => none

/-- A spool keeps to its bound, and so it will when the write in progress is done. -/
structure Cell.Valid (opts : SpoolOptions) (c : Cell) : Prop where
  size_le : c.spool.size ≤ opts.maxBytes
  input : ∀ p, c.progress.input = some p →
    c.spool.closed = false ∧ c.spool.size + p.length ≤ opts.maxBytes

namespace Cell

variable {m : SpoolManager} {opts : SpoolOptions} {c : Cell}

theorem Valid.rest (h : c.Valid opts) {progress : Progress} (hinput : progress.input = none) :
  Valid opts { c with progress := progress }
  := ⟨h.size_le, fun p hp => by rw [hinput] at hp; cases hp⟩

theorem Valid.go_on (h : c.Valid opts) {spool : Spool} {progress : Progress}
    (hclosed : spool.closed = c.spool.closed) (hsize : spool.size = c.spool.size)
    (hinput : progress.input = c.progress.input) :
  Valid opts ⟨spool, progress⟩
  := by
  constructor
  · rw [hsize]
    exact h.size_le
  · intro p hp
    rw [hclosed, hsize]
    exact h.input p (hinput ▸ hp)

/-- What a section does: the count of the manager changes by as much as the holding, and the
bounds are kept. -/
structure Section (opts : SpoolOptions) (m : SpoolManager) (c : Cell) (x : SpoolManager × Cell) :
    Prop where
  balanced : x.1.usage + c.holding = m.usage + x.2.holding
  within : x.1.Within opts
  valid : x.2.Valid opts

theorem section_idle (hm : m.Within opts) (hc : c.Valid opts) (hpending : c.progress.pending = 0) :
  Section opts m c (m, { c with progress := .idle })
  := by
  refine ⟨?_, hm, hc.rest rfl⟩
  rw [holding, holding, hpending]
  rfl

theorem section_spill {disk : Disk} {next : Progress} {p : Bytes} (hm : m.Within opts)
    (hc : c.Valid opts) (hpending : c.progress.pending = 0) (hinput : c.progress.input = some p)
    (hnext : next.pending = 0) (hinput' : next.input = some p) :
  Section opts m c (match c.spool.spill disk m with
    | none => (m, { c with progress := .idle })
    | some (m, spool) => (m, ⟨spool, next⟩))
  := by
  split
  · exact section_idle hm hc hpending
  · next m' spool hspill =>
    obtain ⟨hclosed, hsize, hbalanced, hwithin⟩ := Spool.spill_some hspill
    refine ⟨?_, hwithin hm, hc.go_on hclosed hsize (hinput'.trans hinput.symm)⟩
    rw [holding, holding, hpending, hnext, add_zero, add_zero]
    exact hbalanced (hc.input p hinput).1

theorem section_reserve {m' : SpoolManager} {p : Bytes} {memory : Bool} (hm : m.Within opts)
    (hc : c.Valid opts) (hpending : c.progress.pending = 0) (hinput : c.progress.input = some p)
    (hreserve : m.reserve p.length (boolBytes memory p.length) = .ok m') :
  Section opts m c (m', { c with progress := .store p memory })
  := by
  refine ⟨?_, hm.reserve hreserve, hc.go_on rfl rfl hinput.symm⟩
  rw [holding, holding, hpending, SpoolManager.usage_reserve hreserve, Progress.pending]
  abel

theorem section_store {spool : Spool} {p : Bytes} {memory : Bool} (disk : Disk) (hm : m.Within opts)
    (hc : Valid opts ⟨spool, .store p memory⟩) :
  Section opts m ⟨spool, .store p memory⟩ (advance disk m ⟨spool, .store p memory⟩)
  := by
  obtain ⟨hle, hclosed, hsize, hshare⟩ := Spool.stored_spec disk spool p
  obtain ⟨hopen, hroom⟩ := hc.input p rfl
  simp only [advance]
  generalize spool.stored disk p = x at hle hclosed hsize hshare ⊢
  obtain ⟨n, spool'⟩ := x
  have hrest : (if p.length - n > 0 then Progress.giveBack (p.length - n) memory
      else .idle).pending = octets (p.length - n) (boolBytes memory (p.length - n)) := by
    split
    · rfl
    · next hzero =>
      obtain hzero : p.length - n = 0 := by omega
      simp only [hzero, octets, boolBytes, Progress.pending, ite_self]
      rfl
  have hinput : (if p.length - n > 0 then Progress.giveBack (p.length - n) memory
      else .idle).input = none := by
    split <;> rfl
  have hsplit : octets n (boolBytes memory n) + octets (p.length - n)
      (boolBytes memory (p.length - n)) = octets p.length (boolBytes memory p.length) := by
    cases memory <;> simp [octets, boolBytes, hle]
  refine ⟨?_, hm, ?_, fun q hq => absurd (hinput.symm.trans hq) (by simp)⟩
  · simp only [holding]
    rw [hrest, Spool.share_grow n memory (hclosed.trans hopen), hshare, Progress.pending, ← hsplit]
    abel
  · show spool'.size + n ≤ opts.maxBytes
    rw [hsize]
    exact Nat.le_trans (Nat.add_le_add_left hle _) hroom

theorem section_advance (disk : Disk) (hm : m.Within opts) (hc : c.Valid opts) :
  Section opts m c (c.advance disk m)
  := by
  obtain ⟨spool, progress⟩ := c
  cases progress with
  | idle => exact ⟨rfl, hm, hc⟩
  | spillOwn p => exact section_spill hm hc rfl rfl rfl rfl
  | reserve p =>
    simp only [advance]
    split
    · next hreserve => exact section_reserve hm hc rfl rfl hreserve
    · split
      · exact ⟨rfl, hm, hc.go_on rfl rfl rfl⟩
      · exact section_idle hm hc rfl
    · exact section_idle hm hc rfl
  | spillShared p => exact section_spill hm hc rfl rfl rfl rfl
  | reserveFile p =>
    simp only [advance]
    split
    · next hreserve => exact section_reserve hm hc rfl rfl hreserve
    · exact section_idle hm hc rfl
  | store p memory => exact section_store disk hm hc
  | giveBack unused memory =>
    refine ⟨?_, hm.release _ _, hc.rest rfl⟩
    simp only [advance]
    rw [SpoolManager.usage_release, holding, holding]
    simp only [Progress.pending]
    abel
  | releaseSpool total memory =>
    refine ⟨?_, hm.releaseSpool _ _, hc.rest rfl⟩
    simp only [advance]
    rw [SpoolManager.usage_releaseSpool, holding, holding]
    simp only [Progress.pending]
    abel

theorem section_write (p : Bytes) (hm : m.Within opts) (hc : c.Valid opts) :
  Section opts m c (m, c.write p m)
  := by
  rw [write]
  split
  · exact ⟨rfl, hm, hc⟩
  next hbusy =>
  obtain ⟨hidle, hopen, -⟩ : c.progress = .idle ∧ c.spool.closed = false ∧ p.isEmpty = false := by
    simpa using hbusy
  split
  · exact ⟨rfl, hm, hc⟩
  next hroom =>
  have hfits : c.spool.size + p.length ≤ opts.maxBytes := by
    rw [hm.obeys] at hroom
    omega
  have hstart {progress : Progress} (hpending : progress.pending = 0)
      (hinput : progress.input = some p) :
      Section opts m c (m, { c with progress := progress }) := by
    refine ⟨?_, hm, hc.size_le, fun q hq => ?_⟩
    · rw [holding, holding, hpending, hidle]
      rfl
    · obtain rfl : p = q := Option.some.inj (hinput.symm.trans hq)
      exact ⟨hopen, hfits⟩
  split
  · exact hstart rfl rfl
  · exact hstart rfl rfl

theorem section_close (hm : m.Within opts) (hc : c.Valid opts) :
  Section opts m c (m, c.close)
  := by
  rw [close]
  split
  · exact ⟨rfl, hm, hc⟩
  · next hbusy =>
    obtain ⟨hidle, hopen⟩ : c.progress = .idle ∧ c.spool.closed = false := by
      simpa using hbusy
    refine ⟨?_, hm, hc.size_le, by intros; contradiction⟩
    simp [holding, Spool.share, hidle, hopen, Progress.pending]

theorem close_close (c : Cell) :
  c.close.close = c.close
  := by
  have hdone : c.close.progress ≠ .idle ∨ c.close.spool.closed = true := by
    by_cases hbusy : c.progress ≠ .idle ∨ c.spool.closed = true
    · rwa [close, if_pos hbusy]
    · rw [close, if_neg hbusy]
      exact .inr rfl
  rw [close, if_pos hdone]

end Cell

/-! ### Runs -/

namespace Spools

variable {opts : SpoolOptions} {s : Spools}

/-- The invariant of a manager and its spools. -/
structure Accounted (opts : SpoolOptions) (s : Spools) : Prop where
  balanced : s.Balanced SpoolManager.usage Cell.holding
  every : s.Every (SpoolManager.Within opts) (Cell.Valid opts)

theorem accounted_new (opts : SpoolOptions) :
  Accounted opts (new opts)
  := by
  refine ⟨rfl, ⟨rfl, ?_⟩, List.forall_mem_nil _⟩
  exact ⟨Int.natCast_nonneg _, Int.natCast_nonneg _, Int.natCast_nonneg _⟩

theorem Accounted.act (h : Accounted opts s) (i : Nat)
    {f : SpoolManager → Cell → SpoolManager × Cell}
    (hf : ∀ m c, m.Within opts → c.Valid opts → Cell.Section opts m c (f m c)) :
  Accounted opts (s.act i f)
  := by
  constructor
  · refine h.balanced.act i fun c hc => ?_
    exact (hf _ c h.every.resource (h.every.parts c hc)).balanced
  · apply h.every.act i
    exact fun m c hm hc => ⟨(hf m c hm hc).within, (hf m c hm hc).valid⟩

theorem Accounted.newSpool (h : Accounted opts s) :
  Accounted opts (s.step .newSpool)
  := by
  rw [step]
  split
  · exact h
  · next m spool hnew =>
    obtain ⟨hroom, rfl, rfl⟩ := by simpa [SpoolManager.newSpool] using hnew
    have hlimits := h.every.resource.usage_le
    rw [h.every.resource.obeys] at hroom
    constructor
    · apply h.balanced.join
      simp [SpoolManager.usage, Cell.holding, Spool.share, Spool.empty, Progress.pending]
    · apply h.every.join
      · refine ⟨h.every.resource.obeys, hlimits.1, hlimits.2.1, ?_⟩
        simp only [SpoolManager.usage, SpoolOptions.limits]
        omega
      · exact ⟨Nat.zero_le _, by intros; contradiction⟩

theorem Accounted.step (h : Accounted opts s) (e : SpoolEvent) :
  Accounted opts (s.step e)
  := by
  cases e with
  | newSpool => exact h.newSpool
  | write i p => exact h.act i fun _ _ => Cell.section_write p
  | reader i => exact h
  | close i => exact h.act i fun _ _ => Cell.section_close
  | advance i disk => exact h.act i fun _ _ => Cell.section_advance disk

theorem Accounted.run (h : Accounted opts s) (events : List SpoolEvent) :
  Accounted opts (s.run events)
  := by
  induction events generalizing s with
  | nil => exact h
  | cons e events ih => exact ih (h.step e)

theorem Accounted.nonneg (h : Accounted opts s) :
  0 ≤ s.resource.usage
  := by
  rw [show s.resource.usage = _ from h.balanced]
  apply List.sum_nonneg
  intro x hx
  obtain ⟨c, -, rfl⟩ := List.mem_map.mp hx
  exact add_nonneg (Spool.share_nonneg c.spool) c.progress.pending_nonneg

theorem Accounted.zero (h : Accounted opts s)
    (hclosed : ∀ c ∈ s.parts, c.spool.closed = true ∧ c.progress = .idle) :
  s.resource.usage = 0
  := by
  rw [show s.resource.usage = _ from h.balanced]
  apply List.sum_eq_zero
  intro x hx
  obtain ⟨c, hc, rfl⟩ := List.mem_map.mp hx
  obtain ⟨hspool, hidle⟩ := hclosed c hc
  rw [Cell.holding, Spool.share, if_pos hspool, hidle]
  rfl

theorem step_close_close (s : Spools) (i : Nat) :
  (s.step (.close i)).step (.close i) = s.step (.close i)
  := by
  simp only [step, Shared.act_act, Cell.close_close]

/-- However the operations on the spools of a manager interleave, and whatever the file system
does, the count of the manager is the sum of what the spools hold, what writes have reserved and
what is still to be given back; it is within its bounds, as is every spool; and it is zero once
all spools are closed. -/
theorem accounted_run (opts : SpoolOptions) (events : List SpoolEvent) :
  let s := (new opts).run events
  s.resource.usage = (s.parts.map Cell.holding).sum ∧
  0 ≤ s.resource.usage ∧ s.resource.usage ≤ opts.limits ∧
  (∀ c ∈ s.parts, c.spool.size ≤ opts.maxBytes) ∧
  ((∀ c ∈ s.parts, c.spool.closed = true ∧ c.progress = .idle) → s.resource.usage = 0) ∧
  ∀ i, (s.step (.close i)).step (.close i) = s.step (.close i)
  := by
  intro s
  have h : Accounted opts s := (accounted_new opts).run events
  refine ⟨h.balanced, h.nonneg, h.every.resource.usage_le, ?_, h.zero, step_close_close s⟩
  exact fun c hc => (h.every.parts c hc).size_le

end Spools

/-! ### The operations of a session

A session runs the operations on its spool as a whole, and the other sessions act on the manager
in between.  What a write of a session does is made of the sections above.
-/

section Sessions

variable {ω φ : Type} {R : SpoolManager → SpoolManager → Prop} {io : Storage ω φ}
  {x : SpoolManager × Cell} {progress : Progress} {s : SpoolState ω}

/-- A section of the spool at hand, or what the others do to the manager. -/
inductive CellStep (R : SpoolManager → SpoolManager → Prop) :
    SpoolManager × Cell → SpoolManager × Cell → Prop
  | advance (disk : Disk) (m : SpoolManager) (c : Cell) : CellStep R (m, c) (c.advance disk m)
  | others {m m' : SpoolManager} (c : Cell) (h : R m m') : CellStep R (m, c) (m', c)

/-- Sections lead to the state `s` of an operation, with the given things to do. -/
def Reaches (R : SpoolManager → SpoolManager → Prop) (x : SpoolManager × Cell)
    (progress : Progress) (s : SpoolState ω) : Prop :=
  Relation.ReflTransGen (CellStep R) x (s.manager, ⟨s.spool, progress⟩)

theorem Reaches.advance (h : Reaches R x progress s) (disk : Disk) {progress' : Progress}
    {s' : SpoolState ω}
    (heq : Cell.advance disk s.manager ⟨s.spool, progress⟩ = (s'.manager, ⟨s'.spool, progress'⟩)) :
  Reaches R x progress' s'
  := by
  apply h.tail
  rw [← heq]
  apply CellStep.advance

theorem reaches_spill {next : Progress} (h : Reaches R x progress s)
    (hadvance : ∀ disk m spool, Cell.advance disk m ⟨spool, progress⟩ =
      match Spool.spill disk m spool with
      | none => (m, ⟨spool, .idle⟩)
      | some (m, spool) => (m, ⟨spool, next⟩)) :
  wp (Spool.spillLocked io) (fun _ => Reaches R x next)
    (fun e s' => e ≠ none ∧ Reaches R x .idle s') s
  := by
  have hstep (disk : Disk) := hadvance disk s.manager s.spool
  simp only [Spool.spillLocked, wp_bind, wp_read, wp_ite, wp_pure,
    Spool.wp_system]
  refine ⟨fun hfile => ?_, fun hfile => ?_⟩
  · apply h.advance ⟨true, true, 0, []⟩
    rw [hstep, Spool.spill, if_pos hfile]
  split
  · refine ⟨by simp, h.advance ⟨false, true, 0, []⟩ ?_⟩
    rw [hstep, Spool.spill, if_neg hfile]
    rfl
  rw [wp_ite]
  refine ⟨fun hempty => ?_, fun hempty => ?_⟩
  · apply h.advance ⟨true, true, 0, []⟩
    rw [hstep, Spool.spill, if_neg hfile, if_neg (by simp), if_pos hempty]
  rw [wp_bind, Spool.wp_system]
  split
  · refine ⟨by simp, h.advance ⟨true, false, 0, []⟩ ?_⟩
    rw [hstep, Spool.spill, if_neg hfile, if_neg (by simp), if_neg hempty]
    rfl
  · next n _ =>
    apply h.advance ⟨true, true, 0, s.spool.memory.take n⟩
    rw [hstep, Spool.spill, if_neg hfile, if_neg (by simp), if_neg hempty]
    rfl

theorem reaches_reserve (hio : ∀ m w, R m (io.others m w).1) (total memory : Nat)
    (h : Reaches R x progress s) :
  wp (Spool.reserve io total memory)
    (fun _ s' => s'.spool = s.spool ∧ ∃ m, Reaches R x progress { s' with manager := m } ∧
      m.reserve total memory = .ok s'.manager)
    (fun e s' => s'.spool = s.spool ∧ Reaches R x progress s' ∧
      (e = some .totalExhausted ∧ s'.manager.reserve total memory = .error .total ∨
        e = some .memoryExhausted ∧ s'.manager.reserve total memory = .error .memory)) s
  := by
  have hothers : Reaches R x progress
      { s with manager := (io.others s.manager s.world).1,
               world := (io.others s.manager s.world).2 } :=
    h.tail (.others _ (hio s.manager s.world))
  simp only [Spool.reserve, wp_bind, wp_update, wp_read, wp_ite, wp_fail]
  refine ⟨fun htotal => ⟨trivial, hothers, .inl ⟨trivial, if_pos htotal⟩⟩, fun htotal =>
    ⟨fun hmemory => ⟨trivial, hothers, .inr ⟨trivial, ?_⟩⟩,
      fun hmemory => ⟨trivial, _, hothers, ?_⟩⟩⟩
  · rw [SpoolManager.reserve, if_neg htotal, if_pos hmemory]
  · rw [SpoolManager.reserve, if_neg htotal, if_neg hmemory]

theorem reaches_reserveRoom (hio : ∀ m w, R m (io.others m w).1) {p : Bytes}
    (h : Reaches R x (.reserve p) s) :
  wp (Spool.reserveRoom io p.length) (fun memory => Reaches R x (.store p memory))
    (fun e s' => e ≠ none ∧ Reaches R x .idle s') s
  := by
  have hmemory : (if s.spool.file.isNone = true then p.length else 0)
      = boolBytes s.spool.file.isNone p.length := rfl
  rw [Spool.reserveRoom, wp_bind, wp_read, wp_bind, wp_attempt, hmemory]
  apply wp_mono (reaches_reserve hio p.length _ h)
  · rintro _ s₁ ⟨hspool, m, hm, hreserve⟩
    apply hm.advance ⟨true, true, 0, []⟩
    rw [← hspool] at hreserve ⊢
    simp [Cell.advance, hreserve]
  · rintro _ s₁ ⟨hspool, h₁, ⟨rfl, hreserve⟩ | ⟨rfl, hreserve⟩⟩
    · refine ⟨by simp, h₁.advance ⟨true, true, 0, []⟩ ?_⟩
      rw [← hspool] at hreserve
      simp [Cell.advance, hreserve]
    rw [← hspool] at hreserve ⊢
    simp only [wp_ite]
    refine ⟨fun hnone => ?_, fun hnone => ⟨by simp, h₁.advance ⟨true, true, 0, []⟩ ?_⟩⟩
    · have hspill : Reaches R x (.spillShared p) s₁ := by
        apply h₁.advance ⟨true, true, 0, []⟩
        simp only [Cell.advance, hreserve]
        rw [if_pos hnone]
      rw [wp_bind]
      apply wp_mono (reaches_spill hspill fun _ _ _ => rfl) _ fun _ _ => id
      intro _ s₂ h₂
      rw [wp_bind]
      apply wp_mono (reaches_reserve hio p.length 0 h₂)
      · rintro _ s₃ ⟨-, m, hm, hreserve⟩
        apply hm.advance ⟨true, true, 0, []⟩
        simp [Cell.advance, hreserve]
      · rintro _ s₃ ⟨-, h₃, ⟨rfl, hreserve⟩ | ⟨rfl, hreserve⟩⟩
        · refine ⟨by simp, h₃.advance ⟨true, true, 0, []⟩ ?_⟩
          simp [Cell.advance, hreserve]
        · refine ⟨by simp, h₃.advance ⟨true, true, 0, []⟩ ?_⟩
          simp [Cell.advance, hreserve]
    · simp only [Cell.advance, hreserve]
      rw [if_neg hnone]

theorem reaches_makeRoom (hio : ∀ m w, R m (io.others m w).1) {p : Bytes}
    (h : Reaches R x (if s.spool.file.isNone ∧ s.spool.size + p.length >
      s.manager.opts.maxMemoryBytes then .spillOwn p else .reserve p) s) :
  wp (Spool.makeRoom io p.length) (fun memory => Reaches R x (.store p memory))
    (fun e s' => e ≠ none ∧ Reaches R x .idle s') s
  := by
  rw [Spool.makeRoom, wp_bind, wp_read, wp_ite]
  refine ⟨fun hown => ?_, fun hown => ?_⟩
  · rw [if_pos hown] at h
    rw [wp_bind]
    apply wp_mono (reaches_spill h fun _ _ _ => rfl) _ fun _ _ => id
    exact fun _ s₁ h₁ => reaches_reserveRoom hio h₁
  · rw [if_neg hown] at h
    exact reaches_reserveRoom hio h

theorem reaches_store {p : Bytes} {memory : Bool} (h : Reaches R x (.store p memory) s) :
  wp (Spool.store io p)
    (fun r s' => Reaches R x .idle
      { s' with manager := s'.manager.release (p.length - r.1) (boolBytes memory (p.length - r.1)),
                spool := s'.spool.grow r.1 memory })
    (fun _ _ => False) s
  := by
  have hrest (disk : Disk) {n : Nat} {spool : Spool} (hstored : s.spool.stored disk p = (n, spool))
      (w : ω) :
      Reaches R x .idle
        ⟨s.manager.release (p.length - n) (boolBytes memory (p.length - n)),
          spool.grow n memory, w⟩ := by
    have hstep : Reaches R x
        (if p.length - n > 0 then .giveBack (p.length - n) memory else .idle)
        ⟨s.manager, spool.grow n memory, w⟩ := by
      apply h.advance disk
      simp only [Cell.advance, hstored]
    split at hstep
    · exact hstep.advance disk rfl
    · next hzero =>
      obtain hzero : p.length - n = 0 := by omega
      simpa [hzero, SpoolManager.release, boolBytes] using hstep
  simp only [Spool.store, wp_bind, wp_read]
  split
  · next hfile =>
    apply hrest ⟨true, true, 0, []⟩
    simp [Spool.stored, hfile]
  · next f hfile =>
    have hle := io.writeFile_le p s.world
    apply hrest ⟨true, true, (io.writeFile p s.world).1.1,
      f ++ p.take (io.writeFile p s.world).1.1⟩
    simp [Spool.stored, hfile, hle]

theorem reaches_writeCounted (hio : ∀ m w, R m (io.others m w).1) (p : Bytes) (s : SpoolState ω) :
  wp (Spool.writeCounted io p)
    (fun _ => Reaches R (s.manager, Cell.write p s.manager ⟨s.spool, .idle⟩) .idle)
    (fun _ _ => False) s
  := by
  have hstay (h : Cell.write p s.manager ⟨s.spool, .idle⟩ = ⟨s.spool, .idle⟩) :
      Reaches R (s.manager, Cell.write p s.manager ⟨s.spool, .idle⟩) .idle s := by
    rw [h]
    exact .refl
  simp only [Spool.writeCounted, wp_bind, wp_read, wp_ite, wp_pure]
  refine ⟨fun hclosed => hstay (by simp [Cell.write, hclosed]), fun hclosed =>
    ⟨fun hempty => hstay (by simp [Cell.write, hempty]), fun hempty => ⟨fun hlarge => hstay ?_,
      fun hlarge => ?_⟩⟩⟩
  · simp only [Cell.write, hclosed, hempty, hlarge]
    simp
  · have hstart : Reaches R (s.manager, Cell.write p s.manager ⟨s.spool, .idle⟩)
        (if s.spool.file.isNone ∧ s.spool.size + p.length > s.manager.opts.maxMemoryBytes then
          .spillOwn p else .reserve p) s := by
      have hwrite : Cell.write p s.manager ⟨s.spool, .idle⟩ = ⟨s.spool,
          if s.spool.file.isNone ∧ s.spool.size + p.length > s.manager.opts.maxMemoryBytes then
            .spillOwn p else .reserve p⟩ := by
        rw [Cell.write, if_neg (by simp [hclosed, hempty]), if_neg hlarge]
        split <;> rfl
      rw [hwrite]
      exact .refl
    rw [wp_attempt]
    apply wp_mono (reaches_makeRoom hio hstart)
    · intro memory s₁ h₁
      rw [wp_bind]
      apply wp_mono (reaches_store h₁) _ fun _ _ => id
      rintro ⟨n, e⟩ s₂ h₂
      cases e with
      | some e => exact h₂
      | none => exact h₂
    · rintro (_ | e) s₁ ⟨hsome, h₁⟩
      · exact absurd rfl hsome
      · exact h₁

theorem reaches_close (R : SpoolManager → SpoolManager → Prop) (s : SpoolState ω) :
  wp (Spool.close : Spool.Op ω φ Unit)
    (fun _ => Reaches R (s.manager, Cell.close ⟨s.spool, .idle⟩) .idle) (fun _ _ => False) s
  := by
  rw [Spool.close, wp_update]
  split
  · next hclosed =>
    rw [Cell.close, if_pos (.inr hclosed)]
    exact .refl
  · next hopen =>
    rw [Cell.close, if_neg (by simpa using hopen)]
    exact .single (.advance ⟨true, true, 0, []⟩ _ _)

/-- Changes of a count that the other sessions may make, one after the other. -/
structure Changes (D : Int × Int × Int → Prop) : Prop where
  zero : D 0
  add : ∀ a b, D a → D b → D (a + b)

/-- What holds of a manager and a spool since `x₀`: they keep to their bounds, and what the manager
counts beyond the spool has changed by what the others did. -/
structure Kept (opts : SpoolOptions) (D : Int × Int × Int → Prop) (x₀ x : SpoolManager × Cell) :
    Prop where
  within : x.1.Within opts
  valid : x.2.Valid opts
  others : ∃ δ, D δ ∧ x.1.usage + x₀.2.holding = x₀.1.usage + x.2.holding + δ

/-- The others keep the manager within its bounds, and change its count by something in `D`. -/
def Fair (opts : SpoolOptions) (D : Int × Int × Int → Prop) (m m' : SpoolManager) : Prop :=
  (m.Within opts → m'.Within opts) ∧ ∃ δ, D δ ∧ m'.usage = m.usage + δ

section Kept

variable {opts : SpoolOptions} {D : Int × Int × Int → Prop} {x₀ y : SpoolManager × Cell}

theorem Kept.section (h : Kept opts D x₀ x) (hs : Cell.Section opts x.1 x.2 y) :
  Kept opts D x₀ y
  := by
  obtain ⟨δ, hδ, hothers⟩ := h.others
  refine ⟨hs.within, hs.valid, δ, hδ, ?_⟩
  have hbalanced := hs.balanced
  simp only [Prod.ext_iff, Prod.fst_add, Prod.snd_add] at *
  omega

theorem Kept.reaches (hD : Changes D) (h : Kept opts D x₀ x)
    (hsteps : Relation.ReflTransGen (CellStep (Fair opts D)) x y) :
  Kept opts D x₀ y
  := by
  induction hsteps with
  | refl => exact h
  | tail _ hstep ih =>
    cases hstep with
    | advance disk m c => exact ih.section (Cell.section_advance disk ih.within ih.valid)
    | others c hfair =>
      obtain ⟨hwithin, δ', hδ', husage⟩ := hfair
      obtain ⟨δ, hδ, hothers⟩ := ih.others
      refine ⟨hwithin ih.within, ih.valid, _, hD.add _ _ hδ hδ', ?_⟩
      simp only [Prod.ext_iff, Prod.fst_add, Prod.snd_add] at *
      omega

/-- The operations of a session on its spool. -/
inductive SpoolOp where
  | write (p : Bytes)
  | close
  deriving DecidableEq, Repr

def SpoolOp.perform (io : Storage ω φ) : SpoolOp → Spool.Op ω φ Unit
  | .write p => do
    let _ ← Spool.writeCounted io p
  | .close => Spool.close

def performAll (io : Storage ω φ) : List SpoolOp → Spool.Op ω φ Unit
  | [] => pure ()
  | op :: ops => do
    op.perform io
    performAll io ops

theorem kept_perform (hD : Changes D) (hio : ∀ m w, Fair opts D m (io.others m w).1) (op : SpoolOp)
    (h : Kept opts D x₀ (s.manager, ⟨s.spool, .idle⟩)) :
  wp (op.perform io) (fun _ s' => Kept opts D x₀ (s'.manager, ⟨s'.spool, .idle⟩))
    (fun _ _ => False) s
  := by
  cases op with
  | write p =>
    have hwrite := h.section (Cell.section_write p h.within h.valid)
    rw [SpoolOp.perform, wp_bind]
    exact wp_mono (reaches_writeCounted hio p s) (fun _ _ => hwrite.reaches hD) fun _ _ => id
  | close =>
    have hclose := h.section (Cell.section_close h.within h.valid)
    exact wp_mono (reaches_close _ s) (fun _ _ => hclose.reaches hD) fun _ _ => id

theorem kept_performAll (hD : Changes D) (hio : ∀ m w, Fair opts D m (io.others m w).1)
    (ops : List SpoolOp) (h : Kept opts D x₀ (s.manager, ⟨s.spool, .idle⟩)) :
  wp (performAll io ops) (fun _ s' => Kept opts D x₀ (s'.manager, ⟨s'.spool, .idle⟩))
    (fun _ _ => False) s
  := by
  induction ops generalizing s with
  | nil => exact h
  | cons op ops ih =>
    rw [performAll, wp_bind]
    exact wp_mono (kept_perform hD hio op h) (fun _ _ => ih) fun _ _ => id

/-- However a session writes to its spool and closes it, with the other sessions at work in
between and whatever the file system does, the manager and the spool keep to their bounds, and
what the manager counts beyond the share of the spool changes only by what the others did. -/
theorem session_accounted (hD : Changes D) (hio : ∀ m w, Fair opts D m (io.others m w).1)
    (ops : List SpoolOp) (hm : s.manager.Within opts) (hsize : s.spool.size ≤ opts.maxBytes) :
  wp (performAll io ops)
    (fun _ s' => s'.manager.Within opts ∧ s'.spool.size ≤ opts.maxBytes ∧
      ∃ δ, D δ ∧ s'.manager.usage + s.spool.share = s.manager.usage + s'.spool.share + δ)
    (fun _ _ => False) s
  := by
  have hstart : Kept opts D (s.manager, ⟨s.spool, .idle⟩) (s.manager, ⟨s.spool, .idle⟩) :=
    ⟨hm, ⟨hsize, by simp [Progress.input]⟩, 0, hD.zero, by simp⟩
  apply wp_mono (kept_performAll hD hio ops hstart) _ fun _ _ => id
  intro _ s' h
  refine ⟨h.within, h.valid.size_le, ?_⟩
  simpa [Cell.holding, Progress.pending] using h.others

/-- A file system that never fails, and no other sessions. -/
def Storage.still : Storage Unit Empty where
  createFile w := (none, w)
  writeFile p w := ((p.length, none), w)
  rewind w := (none, w)
  reread f w := (Feed.items f, w)
  others m w := (m, w)
  writeFile_le _ _ := Nat.le_refl _
  writeFile_full _ _ _ := rfl
  reread_payload f _ := Feed.payload_items f
  others_opts _ _ := rfl

def alone : SpoolState Unit := ⟨⟨⟨4, 4, 4, 4, 4⟩, 0, 0, 1⟩, .empty, ()⟩

theorem session_accounted_alone :
  wp (performAll Storage.still [.write [1], .close])
    (fun _ s' => s'.manager.Within alone.manager.opts ∧
      s'.spool.size ≤ alone.manager.opts.maxBytes ∧
      ∃ δ, δ = 0 ∧ s'.manager.usage + alone.spool.share = alone.manager.usage + s'.spool.share + δ)
    (fun _ _ => False) alone
  := by
  have hlimits : alone.manager.usage ≤ alone.manager.opts.limits := by decide
  have hio : ∀ m w, Fair alone.manager.opts (· = 0) m (Storage.still.others m w).1 :=
    fun m _ => ⟨id, 0, rfl, (add_zero m.usage).symm⟩
  have hD : Changes fun δ => δ = 0 := ⟨rfl, by rintro _ _ rfl rfl; rfl⟩
  exact session_accounted hD hio _ ⟨rfl, hlimits⟩ (Nat.zero_le _)

end Kept

end Sessions

end GoSmtp.Server
