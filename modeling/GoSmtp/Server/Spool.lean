import GoSmtp.Lib.Exec
import GoSmtp.Wire.Command

/-!
# The spool

The storage of BDAT chunks in `smtpserver/spool.go`.  A spool starts in memory and moves
to a file when it grows, or when the server as a whole runs out of memory budget.  The
budget is kept by a manager that all sessions share, so it may change between any two
operations of one session.
-/

namespace GoSmtp.Server

open Exec

structure SpoolOptions where
  maxBytes : Nat
  maxMemoryBytes : Nat
  maxTotalBytes : Nat
  maxTotalMemoryBytes : Nat
  maxConcurrent : Nat
  deriving DecidableEq, Repr

structure SpoolManager where
  opts : SpoolOptions
  total : Int
  totalMemory : Int
  concurrent : Int
  deriving DecidableEq, Repr

structure Spool where
  memory : Bytes
  /-- The octets in the spill file, if there is one. -/
  file : Option Bytes
  size : Nat
  reserved : Nat
  reservedMemory : Nat
  closed : Bool
  deriving DecidableEq, Repr

inductive SpoolError (φ : Type) where
  | messageTooLarge
  | totalExhausted
  | memoryExhausted
  | concurrentExhausted
  | closed
  | createFile (e : φ)
  | spill (e : φ)
  | write (e : φ)
  | shortWrite
  | rewind (e : φ)
  deriving DecidableEq, Repr

/-- What the spool needs from the operating system and from the other sessions, as
operations on a world `ω`. -/
structure Storage (ω φ : Type) where
  /-- `createUnlinkedSpoolFile`. -/
  createFile : ω → Option φ × ω
  /-- `file.Write`: how many octets were written, and an error. -/
  writeFile : Bytes → ω → (Nat × Option φ) × ω
  /-- `file.Seek` to the start. -/
  rewind : ω → Option φ × ω
  /-- What reading the file back yields; a read may fail in between. -/
  reread : Bytes → ω → Feed UInt8 φ × ω
  /-- What the other sessions did to the manager. -/
  others : SpoolManager → ω → SpoolManager × ω
  /-- A write stores no more than it was given. -/
  writeFile_le : ∀ p w, (writeFile p w).1.1 ≤ p.length
  /-- A write that reports no error is complete. -/
  writeFile_full : ∀ p w, (writeFile p w).1.2 = none → (writeFile p w).1.1 = p.length
  /-- A file holds what was written to it. -/
  reread_payload : ∀ f w, (reread f w).1.payload = f
  /-- The sessions share the options of the manager. -/
  others_opts : ∀ m w, (others m w).1.opts = m.opts

/-- The state of the operations on a spool. -/
structure SpoolState (ω : Type) where
  manager : SpoolManager
  spool : Spool
  world : ω

namespace Spool

/-- The octets stored. -/
def content (s : Spool) : Bytes := s.file.getD s.memory

def empty : Spool where
  memory := []
  file := none
  size := 0
  reserved := 0
  reservedMemory := 0
  closed := false

variable {ω φ : Type}

/-- Operations on a spool. -/
abbrev Op (ω φ α : Type) := Exec (SpoolState ω) (SpoolError φ) α

def reserve (io : Storage ω φ) (total memory : Nat) : Op ω φ Unit := do
  Exec.update fun s =>
    { s with manager := (io.others s.manager s.world).1,
             world := (io.others s.manager s.world).2 }
  let s ← Exec.read
  if (total : Int) > s.manager.opts.maxTotalBytes - s.manager.total then
    Exec.fail .totalExhausted
  else if (memory : Int) > s.manager.opts.maxTotalMemoryBytes - s.manager.totalMemory then
    Exec.fail .memoryExhausted
  else
    Exec.update fun s =>
      { s with manager.total := s.manager.total + total,
               manager.totalMemory := s.manager.totalMemory + memory }

def release (total memory : Nat) : Op ω φ Unit :=
  Exec.update fun s =>
    { s with manager.total := s.manager.total - total,
             manager.totalMemory := s.manager.totalMemory - memory }

/-- A call of the storage. -/
def system {α : Type} (f : ω → α × ω) : Op ω φ α := fun s =>
  (.ok (f s.world).1, { s with world := (f s.world).2 })

def spillLocked (io : Storage ω φ) : Op ω φ Unit := do
  let s ← Exec.read
  if s.spool.file.isSome then pure ()
  else
    match ← system io.createFile with
    | some e => Exec.fail (.createFile e)
    | none =>
      if s.spool.memory.isEmpty then
        Exec.update fun s => { s with spool.memory := [], spool.file := some [] }
      else
        match ← system (io.writeFile s.spool.memory) with
        | (_, some e) => Exec.fail (.spill e)
        | (n, none) =>
          release 0 s.spool.reservedMemory
          Exec.update fun s =>
            { s with spool := { s.spool with reservedMemory := 0, memory := [],
                                             file := some (s.spool.memory.take n) } }

/-- The budget for a write of `n` octets, and whether it goes to memory.  A spool that gets
no memory spills. -/
def reserveRoom (io : Storage ω φ) (n : Nat) : Op ω φ Bool := do
  let memory := (← Exec.read).spool.file.isNone
  match ← Exec.attempt (reserve io n (if memory then n else 0)) with
  | .ok _ => pure memory
  | .error .memoryExhausted =>
    if memory then
      spillLocked io
      reserve io n 0
      pure false
    else Exec.fail .memoryExhausted
  | .error e => Exec.fail e

/-- A spool that would grow over its own memory bound spills first. -/
def makeRoom (io : Storage ω φ) (n : Nat) : Op ω φ Bool := do
  let s ← Exec.read
  if s.spool.file.isNone ∧ s.spool.size + n > s.manager.opts.maxMemoryBytes then
    spillLocked io
    reserveRoom io n
  else reserveRoom io n

/-- The octets of `p` that were stored, and the error that stopped the rest. -/
def store (io : Storage ω φ) (p : Bytes) : Op ω φ (Nat × Option φ) := do
  let s ← Exec.read
  match s.spool.file with
  | none =>
    Exec.update fun s => { s with spool.memory := s.spool.memory ++ p }
    pure (p.length, none)
  | some f =>
    let r ← system (io.writeFile p)
    Exec.update fun s => { s with spool.file := some (f ++ p.take r.1) }
    pure r

def write (io : Storage ω φ) (p : Bytes) : Op ω φ Unit := do
  let s ← Exec.read
  if s.spool.closed then Exec.fail .closed
  else if p.isEmpty then pure ()
  else if (p.length : Int) > s.manager.opts.maxBytes - s.spool.size then
    Exec.fail .messageTooLarge
  else
    let memory ← makeRoom io p.length
    let (n, e) ← store io p
    Exec.update fun s =>
      { s with spool := { s.spool with
          size := s.spool.size + n, reserved := s.spool.reserved + n,
          reservedMemory := s.spool.reservedMemory + (if memory then n else 0) } }
    release (p.length - n) (if memory then p.length - n else 0)
    match e with
    | some e => Exec.fail (.write e)
    | none => if n ≠ p.length then Exec.fail .shortWrite else pure ()

/-- `Write`, with the count that it returns next to its error. -/
def writeCounted (io : Storage ω φ) (p : Bytes) : Op ω φ (Nat × Option (SpoolError φ)) := do
  let s ← Exec.read
  if s.spool.closed then pure (0, some .closed)
  else if p.isEmpty then pure (0, none)
  else if (p.length : Int) > s.manager.opts.maxBytes - s.spool.size then
    pure (0, some .messageTooLarge)
  else
    match ← Exec.attempt (makeRoom io p.length) with
    | .error e => pure (0, some e)
    | .ok memory =>
      let (n, e) ← store io p
      Exec.update fun s =>
        { s with spool := { s.spool with
            size := s.spool.size + n, reserved := s.spool.reserved + n,
            reservedMemory := s.spool.reservedMemory + (if memory then n else 0) } }
      release (p.length - n) (if memory then p.length - n else 0)
      match e with
      | some e => pure (n, some (.write e))
      | none => pure (n, if n ≠ p.length then some .shortWrite else none)

/-- `Reader`: the feed that reading the spool from its start yields. -/
def reader (io : Storage ω φ) : Op ω φ (Feed UInt8 φ) := do
  let s ← Exec.read
  if s.spool.closed then Exec.fail .closed
  else
    match s.spool.file with
    | none => pure (Feed.items s.spool.memory)
    | some f =>
      match ← system io.rewind with
      | some e => Exec.fail (.rewind e)
      | none => system (io.reread f)

def close : Op ω φ Unit :=
  Exec.update fun s =>
    if s.spool.closed then s
    else
      { s with
        manager := { s.manager with total := s.manager.total - s.spool.reserved,
                                    totalMemory := s.manager.totalMemory - s.spool.reservedMemory,
                                    concurrent := s.manager.concurrent - 1 },
        spool := { s.spool with closed := true, reserved := 0, reservedMemory := 0 } }

/-- `spoolChunkWriter`: the pieces of a chunk, written until one fails.  The rest of the
pieces is discarded, and the first failure is kept. -/
def writeChunk (io : Storage ω φ) : List Bytes → Op ω φ Unit
  | [] => pure ()
  | p :: ps => do
      write io p
      writeChunk io ps

/-! ### Spools do not panic -/

theorem calm_system {α : Type} (f : ω → α × ω) :
  Calm (system f : Op ω φ α)
  := by intro _ h; cases h

variable (io : Storage ω φ)

theorem calm_reserve (total memory : Nat) :
  Calm (reserve io total memory)
  := (Calm.update _).bind fun _ => .read fun _ => .ite (.fail _) (.ite (.fail _) (.update _))

theorem calm_spillLocked :
  Calm (spillLocked io)
  := by
  apply Calm.read
  intro s
  apply Calm.ite (.pure _)
  apply (calm_system _).bind
  intro e
  split
  · exact .fail _
  · apply Calm.ite (.update _)
    apply (calm_system _).bind
    intro r
    split
    · exact .fail _
    · exact (Calm.update _).bind fun _ => .update _

theorem calm_reserveRoom (n : Nat) :
  Calm (reserveRoom io n)
  := by
  apply Calm.read
  intro s
  apply (calm_reserve io n _).attempt.bind
  intro r
  split
  · exact .pure _
  · apply Calm.ite _ (.fail _)
    exact (calm_spillLocked io).bind fun _ => (calm_reserve io n 0).bind fun _ => .pure _
  · exact .fail _

theorem calm_makeRoom (n : Nat) :
  Calm (makeRoom io n)
  := .read fun _ => .ite ((calm_spillLocked io).bind fun _ => calm_reserveRoom io n)
    (calm_reserveRoom io n)

theorem calm_write (p : Bytes) :
  Calm (write io p)
  := by
  apply Calm.read
  intro s
  apply Calm.ite (.fail _)
  apply Calm.ite (.pure _)
  apply Calm.ite (.fail _)
  have hstore : Calm (store io p) := by
    apply Calm.read
    intro s
    split
    · exact (Calm.update _).bind fun _ => .pure _
    · exact (calm_system _).bind fun _ => (Calm.update _).bind fun _ => .pure _
  apply (calm_makeRoom io p.length).bind
  intro memory
  apply hstore.bind
  rintro ⟨n, e⟩
  apply (Calm.update _).bind
  intro _
  apply (Calm.update _).bind
  intro _
  split
  · exact .fail _
  · exact .ite (.fail _) (.pure _)

theorem calm_writeChunk (ps : List Bytes) :
  Calm (writeChunk io ps)
  := by
  induction ps with
  | nil => exact .pure _
  | cons p ps ih => exact (calm_write io p).bind fun _ => ih

/-! ### What a spool holds -/

@[simp]
theorem wp_system {α : Type} (f : ω → α × ω) {Q : α → SpoolState ω → Prop}
    {E : Option (SpoolError φ) → SpoolState ω → Prop} {s : SpoolState ω} :
  wp (system f) Q E s ↔ Q (f s.world).1 { s with world := (f s.world).2 }
  := Iff.rfl

/-- What a session can tell of its spool, and the options that it has to obey. -/
def held (s : SpoolState ω) : Bytes × Bool × Nat × SpoolOptions :=
  (s.spool.content, s.spool.closed, s.spool.size, s.manager.opts)

theorem keeps_reserve (total memory : Nat) :
  Keeps held (reserve io total memory)
  := by
  apply Keeps.bind
  · intro s
    simp [held, Exec.update, io.others_opts]
  · intro _
    apply Keeps.bind Keeps.read
    intro s
    apply Keeps.ite (Keeps.fail _)
    apply Keeps.ite (Keeps.fail _)
    exact fun _ => rfl

theorem keeps_spillLocked :
  Keeps held (spillLocked io)
  := by
  rw [Exec.keeps_iff_wp]
  intro s
  simp only [spillLocked, wp_bind, wp_read, wp_ite, wp_pure, wp_system]
  refine ⟨fun _ => trivial, fun hfile => ?_⟩
  have hc : s.spool.content = s.spool.memory := by simp_all [content]
  split
  · rfl
  · simp only [wp_ite, wp_bind, wp_system, wp_update]
    constructor
    · intro hm
      simp_all [held, content]
    · intro _
      split
      · rfl
      · next n heq =>
        have hn := io.writeFile_full s.spool.memory (io.createFile s.world).2
        simp_all [held, content, release]

theorem keeps_reserveRoom (n : Nat) :
  Keeps held (reserveRoom io n)
  := by
  apply Keeps.bind Keeps.read
  intro s
  apply Keeps.bind (keeps_reserve io n _).attempt
  intro r
  split
  · exact Keeps.pure _
  · apply Keeps.ite _ (Keeps.fail _)
    apply (keeps_spillLocked io).bind
    intro _
    apply (keeps_reserve io n 0).bind
    exact fun _ => Keeps.pure _
  · exact Keeps.fail _

theorem keeps_makeRoom (n : Nat) :
  Keeps held (makeRoom io n)
  := by
  apply Keeps.bind Keeps.read
  intro s
  apply Keeps.ite _ (keeps_reserveRoom io n)
  exact (keeps_spillLocked io).bind fun _ => keeps_reserveRoom io n

/-- What a write of `p` has done that stored `n` octets of it. -/
structure Wrote (p : Bytes) (n : Nat) (s s' : SpoolState ω) : Prop where
  le : n ≤ p.length
  content : s'.spool.content = s.spool.content ++ p.take n
  size : s'.spool.size = s.spool.size + n
  closed : s'.spool.closed = s.spool.closed
  opts : s'.manager.opts = s.manager.opts
  room : 0 < n → s.spool.size + p.length ≤ s.manager.opts.maxBytes

theorem Wrote.zero {p : Bytes} {s s' : SpoolState ω} (h : held s' = held s) :
  Wrote p 0 s s'
  := by
  obtain ⟨hcontent, hclosed, hsize, hopts⟩ : s'.spool.content = s.spool.content ∧
      s'.spool.closed = s.spool.closed ∧ s'.spool.size = s.spool.size ∧
      s'.manager.opts = s.manager.opts := by
    simpa [held] using h
  constructor
  · exact Nat.zero_le _
  · simp [hcontent]
  · exact hsize
  · exact hclosed
  · exact hopts
  · exact fun hpos => absurd hpos (Nat.lt_irrefl 0)

theorem wp_store (p : Bytes) (s : SpoolState ω) :
  wp (store io p)
    (fun r s' => s' = { s with spool := s'.spool, world := s'.world } ∧ r.1 ≤ p.length ∧
      (r.2 = none → r.1 = p.length) ∧ s'.spool.content = s.spool.content ++ p.take r.1 ∧
      s'.spool.closed = s.spool.closed ∧ s'.spool.size = s.spool.size)
    (fun _ _ => False) s
  := by
  simp only [store, wp_bind, wp_read]
  split
  · next h => simp [content, h]
  · next f h =>
    have hle := io.writeFile_le p s.world
    have hfull := io.writeFile_full p s.world
    simpa [content, h, hle] using hfull

theorem wp_writeCounted (p : Bytes) (s : SpoolState ω) :
  wp (writeCounted io p)
    (fun r s' => Wrote p r.1 s s' ∧ (r.2 = none → r.1 = p.length)) (fun _ _ => False) s
  := by
  have hroom := Exec.keeps_iff_wp.mp (keeps_makeRoom io p.length) s
  simp only [writeCounted, wp_bind, wp_read, wp_ite, wp_pure]
  refine ⟨fun _ => ⟨.zero rfl, by simp⟩, fun _ => ⟨fun hempty => ⟨.zero rfl, ?_⟩, fun _ => ?_⟩⟩
  · simp [List.isEmpty_iff.mp hempty]
  refine ⟨fun _ => ⟨.zero rfl, by simp⟩, fun hlarge => ?_⟩
  rw [wp_attempt]
  apply (calm_makeRoom io p.length).wp
  apply wp_mono hroom
  · intro memory s₁ h₁
    rw [wp_bind]
    apply wp_mono (wp_store io p s₁) _ fun _ _ => id
    rintro ⟨n, e⟩ s₂ ⟨hs₂, hle, hfull, hcontent, hclosed, hsize⟩
    obtain ⟨hcontent₁, hclosed₁, hsize₁, hopts₁⟩ : s₁.spool.content = s.spool.content ∧
        s₁.spool.closed = s.spool.closed ∧ s₁.spool.size = s.spool.size ∧
        s₁.manager.opts = s.manager.opts := by
      simpa [held] using h₁
    have hopts : s₂.manager.opts = s.manager.opts := by rw [hs₂, ← hopts₁]
    have hwrote (s₃ : SpoolState ω) (hspool : s₃.spool = { s₂.spool with
        size := s₂.spool.size + n, reserved := s₃.spool.reserved,
        reservedMemory := s₃.spool.reservedMemory }) (hmanager : s₃.manager.opts = s₂.manager.opts) :
        Wrote p n s s₃ := by
      constructor
      · exact hle
      · rw [hspool, ← hcontent₁, ← hcontent]
        rfl
      · rw [hspool, hsize, hsize₁]
      · rw [hspool, hclosed, hclosed₁]
      · rw [hmanager, hopts]
      · intro _
        omega
    cases e with
    | some e => exact ⟨hwrote _ rfl rfl, by simp⟩
    | none =>
      simp only [wp_bind, wp_update, release, wp_pure]
      exact ⟨hwrote _ rfl rfl, fun _ => hfull rfl⟩
  · intro e s₁ h₁ hsome
    obtain ⟨e, rfl⟩ := Option.ne_none_iff_exists'.mp hsome
    exact ⟨.zero h₁, by simp⟩

theorem write_eq (p : Bytes) :
  write io p = (do
    let r ← writeCounted io p
    match r.2 with
    | some e => Exec.fail e
    | none => pure ())
  := by
  apply Exec.ext_wp
  intro Q E s
  simp only [write, writeCounted, wp_bind, wp_read, wp_ite, wp_pure,
    wp_fail, wp_attempt]
  refine and_congr Iff.rfl (imp_congr_right fun _ => and_congr Iff.rfl (imp_congr_right fun _ =>
    and_congr Iff.rfl (imp_congr_right fun _ => Exec.wp_congr (fun memory s₁ => ?_) fun e s₁ => ?_)))
  · rw [wp_bind, wp_bind]
    apply Exec.wp_congr _ fun _ _ => Iff.rfl
    rintro ⟨n, _ | e⟩ s₂
    · by_cases hn : n = p.length <;> simp [hn, release]
    · simp [release]
  · cases e <;> rfl

theorem wp_write (p : Bytes) (s : SpoolState ω) :
  wp (write io p) (fun _ => Wrote p p.length s) (fun _ s' => ∃ n, Wrote p n s s') s
  := by
  rw [write_eq, wp_bind]
  apply wp_mono (wp_writeCounted io p s) _ fun _ _ => False.elim
  rintro ⟨n, _ | e⟩ s' ⟨hwrote, hfull⟩
  · rw [hfull rfl] at hwrote
    exact hwrote
  · exact ⟨n, hwrote⟩

theorem writeChunk_content (ps : List Bytes) (s : SpoolState ω) :
  wp (writeChunk io ps)
    (fun _ s' => s'.spool.content = s.spool.content ++ ps.flatten ∧
      s'.spool.closed = s.spool.closed)
    (fun _ _ => True) s
  := by
  induction ps generalizing s with
  | nil => simp [writeChunk]
  | cons p ps ih =>
    simp only [writeChunk, wp_bind]
    apply wp_mono (wp_write io p s) _ fun _ _ _ => trivial
    intro _ s' hs'
    apply wp_mono (ih s') _ fun _ _ _ => trivial
    rintro _ s'' ⟨hc, hcl⟩
    simp [hc, hcl, hs'.content, hs'.closed]

/-- The size of a spool is the number of octets that it holds, and within its bound. -/
structure Sized (opts : SpoolOptions) (s : SpoolState ω) : Prop where
  obeys : s.manager.opts = opts
  size : s.spool.size = s.spool.content.length
  bounded : s.spool.size ≤ opts.maxBytes

theorem Wrote.sized {p : Bytes} {n : Nat} {opts : SpoolOptions} {s s' : SpoolState ω}
    (h : Wrote p n s s') (hs : Sized opts s) :
  Sized opts s'
  := by
  have hle := h.le
  have hsize := h.size
  constructor
  · rw [h.opts, hs.obeys]
  · rw [hsize, hs.size, h.content, List.length_append, List.length_take_of_le hle]
  · rcases Nat.eq_zero_or_pos n with rfl | hpos
    · have hbounded := hs.bounded
      omega
    · have hroom := h.room hpos
      rw [hs.obeys] at hroom
      omega

theorem sized_writeChunk (opts : SpoolOptions) (ps : List Bytes) :
  Maintains (Sized opts) (Sized opts) (writeChunk io ps)
  := by
  induction ps with
  | nil => exact .pure _
  | cons p ps ih =>
    apply Maintains.bind _ fun _ => ih
    intro s hs
    apply wp_mono (wp_write io p s)
    · exact fun _ s' h => h.sized hs
    · rintro _ s' ⟨n, h⟩
      exact h.sized hs

theorem Sized.of_held {opts : SpoolOptions} {s s' : SpoolState ω} (hs : Sized opts s)
    (h : held s' = held s) :
  Sized opts s'
  := (Wrote.zero (p := []) h).sized hs

theorem keeps_reader :
  Keeps held (reader io)
  := by
  apply Keeps.read.bind
  intro s
  apply Keeps.ite (.fail _)
  split
  · exact .pure _
  · apply Keeps.bind (fun _ => rfl)
    intro r
    split
    · exact .fail _
    · exact fun _ => rfl

theorem sized_reader (opts : SpoolOptions) :
  Maintains (Sized opts) (Sized opts) (reader io)
  := by
  intro s hs
  apply wp_mono (Exec.keeps_iff_wp.mp (keeps_reader io) s)
  · exact fun _ s' h => hs.of_held h
  · exact fun _ s' h => hs.of_held h

theorem reader_payload (s : SpoolState ω) :
  wp (reader io)
    (fun f s' => f.payload = s.spool.content ∧ s'.spool = s.spool) (fun _ s' => s'.spool = s.spool) s
  := by
  simp only [reader, wp_bind, wp_read, wp_ite, wp_fail]
  refine ⟨fun _ => trivial, fun _ => ?_⟩
  split
  · next h => simp [content, h]
  · next f h =>
    simp only [wp_bind, wp_system]
    split
    · simp
    · simp [content, h, io.reread_payload]

/-! ### Sequences of writes -/

/-- A sequence of writes, with the counts that they return; none of them is stopped by the failure
of another. -/
def writeAll (io : Storage ω φ) : List Bytes → Op ω φ (List Nat)
  | [] => pure []
  | p :: ps => do
      let (n, _) ← writeCounted io p
      let ns ← writeAll io ps
      pure (n :: ns)

/-- The octets that writes report as written. -/
def reported (ps : List Bytes) (ns : List Nat) : Bytes :=
  (ps.zipWith (fun p n => p.take n) ns).flatten

theorem wp_writeAll (ps : List Bytes) (s : SpoolState ω) :
  wp (writeAll io ps)
    (fun ns s' => ns.length = ps.length ∧ s'.spool.closed = s.spool.closed ∧
      s'.spool.content = s.spool.content ++ reported ps ns ∧
      s'.spool.size = s.spool.size + (reported ps ns).length)
    (fun _ _ => False) s
  := by
  induction ps generalizing s with
  | nil => simp [writeAll, reported]
  | cons p ps ih =>
    rw [writeAll, wp_bind]
    apply wp_mono (wp_writeCounted io p s) _ fun _ _ => id
    rintro ⟨n, e⟩ s₁ ⟨hwrote, -⟩
    rw [wp_bind]
    apply wp_mono (ih s₁) _ fun _ _ => id
    rintro ns s' ⟨hlength, hclosed, hcontent, hsize⟩
    have hcons : reported (p :: ps) (n :: ns) = p.take n ++ reported ps ns := rfl
    have hle := hwrote.le
    refine ⟨by simp [hlength], hclosed.trans hwrote.closed, ?_, ?_⟩
    · rw [hcontent, hwrote.content, hcons, List.append_assoc]
    · rw [hsize, hwrote.size, hcons, List.length_append, List.length_take_of_le hle,
        Nat.add_assoc]

theorem wp_reader_open {s : SpoolState ω} (hopen : s.spool.closed = false) :
  wp (reader io) (fun feed _ => feed.payload = s.spool.content)
    (fun e _ => ∃ cause, e = some (.rewind cause)) s
  := by
  simp only [reader, wp_bind, wp_read, hopen, Bool.false_eq_true, if_false]
  split
  · next h => simp [content, h]
  · next f h =>
    simp only [wp_bind, wp_system]
    split
    · simp
    · simp [content, h, io.reread_payload]

/-- A new spool yields what its writes reported as written, no matter whether and when it moved to
a file, and its size is the length of that. -/
theorem reader_writeAll (io : Storage ω φ) (ps : List Bytes) (m : SpoolManager) (w : ω) :
  let x := writeAll io ps ⟨m, .empty, w⟩
  ∃ ns, x.1 = .ok ns ∧ ns.length = ps.length ∧ x.2.spool.size = (reported ps ns).length ∧
    ((∃ feed, (reader io x.2).1 = .ok feed ∧ feed.payload = reported ps ns) ∨
      ∃ cause, (reader io x.2).1 = .err (.rewind cause))
  := by
  intro x
  have hx := wp_writeAll io ps ⟨m, .empty, w⟩
  rw [wp, show writeAll io ps ⟨m, .empty, w⟩ = x from rfl] at hx
  rcases x with ⟨ns | e | _, s⟩
  · obtain ⟨hlength, hclosed, hcontent, hsize⟩ := hx
    have hcontent : s.spool.content = reported ps ns := hcontent
    refine ⟨ns, rfl, hlength, hsize.trans (Nat.zero_add _), ?_⟩
    have hreader := wp_reader_open io hclosed
    rw [hcontent, wp] at hreader
    rcases hrun : reader io s with ⟨feed | e | _, s'⟩ <;> rw [hrun] at hreader
    · exact .inl ⟨feed, rfl, hreader⟩
    · obtain ⟨cause, ⟨⟩⟩ := hreader
      exact .inr ⟨cause, rfl⟩
    · obtain ⟨cause, ⟨⟩⟩ := hreader
  · exact hx.elim
  · exact hx.elim

end Spool

def SpoolManager.newSpool (m : SpoolManager) : Option (SpoolManager × Spool) :=
  if m.concurrent ≥ m.opts.maxConcurrent then none
  else some ({ m with concurrent := m.concurrent + 1 }, .empty)

end GoSmtp.Server
