import Bacula.Library.Calls
import Bacula.Library.Chain

/-! The memory pools of `lib/mem_pool.c`, in the builds with and without SMARTALLOC. A buffer is named
by the address of its header, and an allocation gets any address that is not in use. The calls come
one after the other, memory does not run out, and the counters are not bounded. -/
namespace Bacula.MemPool
open Function (update)

inductive Build where
  | smartalloc | plain
  deriving DecidableEq, Repr

/-- The pools from `PM_NOPOOL` to `PM_MAX`; with SMARTALLOC an index above that aborts. -/
abbrev Pool := Fin 6

def pmNopool : Pool := 0

/-- `s_pool_ctl` -/
structure PoolCtl where
  /-- default size -/
  size : ℤ
  maxAllocated : ℤ
  maxUsed : ℤ
  inUse : ℤ
  freeBuf : Option ℕ
  deriving DecidableEq, Repr

/-- `abufhead` -/
structure Abufhead where
  ablen : ℤ
  pool : Pool
  next : Option ℕ
  deriving DecidableEq, Repr

/-- A block of memory: its header, and how many bytes were allocated behind it. -/
structure Block where
  head : Abufhead
  length : ℤ
  deriving DecidableEq, Repr

structure Memory where
  poolCtl : Pool → PoolCtl
  heap : ℕ → Option Block

/-- What `malloc` returns: an address, and what is there before. -/
structure Fresh where
  address : ℕ
  junk : Abufhead
  deriving DecidableEq, Repr

def Memory.malloc (m : Memory) (address : ℕ) (block : Block) : Option Memory :=
  if m.heap address = none then some { m with heap := update m.heap address (some block) } else none

def Memory.modifyCtl (m : Memory) (pool : Pool) (f : PoolCtl → PoolCtl) : Memory :=
  { m with poolCtl := update m.poolCtl pool (f (m.poolCtl pool)) }

def PoolCtl.use (ctl : PoolCtl) : PoolCtl :=
  let inUse := ctl.inUse + 1
  { ctl with inUse := inUse, maxUsed := if inUse > ctl.maxUsed then inUse else ctl.maxUsed }

def PoolCtl.noteAllocated (ctl : PoolCtl) (size : ℤ) : PoolCtl :=
  { ctl with maxAllocated := if size > ctl.maxAllocated then size else ctl.maxAllocated }

/-- The header of a new buffer of a pool; with SMARTALLOC the link is not set. -/
def newHead (build : Build) (junk : Abufhead) (size : ℤ) (pool : Pool) : Abufhead :=
  match build with
  | .smartalloc => { junk with ablen := size, pool := pool }
  | .plain => { ablen := size, pool := pool, next := none }

/-- `sm_get_pool_memory` and `get_pool_memory` -/
def getPoolMemory (build : Build) (m : Memory) (pool : Pool) (fresh : Fresh) : Option (ℕ × Memory) :=
  match (m.poolCtl pool).freeBuf with
  | some buf => do
      let block ← m.heap buf
      let m := m.modifyCtl pool fun ctl => { ctl with freeBuf := block.head.next }
      match build with
      | .smartalloc => some (buf, m.modifyCtl pool PoolCtl.use)
      -- a buffer of the free list is not counted again
      | .plain => some (buf, m)
  | none => do
      let size := (m.poolCtl pool).size
      let m ← m.malloc fresh.address ⟨newHead build fresh.junk size pool, size⟩
      some (fresh.address, m.modifyCtl pool PoolCtl.use)

/-- `get_memory`: nonpool memory of size requested. -/
def getMemory (m : Memory) (size : ℕ) (fresh : Fresh) : Option (ℕ × Memory) := do
  let m ← m.malloc fresh.address ⟨{ ablen := size, pool := pmNopool, next := none }, size⟩
  some (fresh.address, m.modifyCtl pmNopool PoolCtl.use)

/-- `realloc_pool_memory`; `realloc` leaves the block where it is or moves it. -/
def reallocPoolMemory (m : Memory) (obuf : ℕ) (size : ℤ) (moved : ℕ) : Option (ℕ × Memory) := do
  let block ← m.heap obuf
  let block : Block := ⟨{ block.head with ablen := size }, size⟩
  let m ← { m with heap := update m.heap obuf none }.malloc moved block
  some (moved, m.modifyCtl block.head.pool (·.noteAllocated size))

/-- `check_pool_memory_size` -/
def checkPoolMemorySize (m : Memory) (obuf : ℕ) (size : ℤ) (moved : ℕ) : Option (ℕ × Memory) := do
  let block ← m.heap obuf
  if size ≤ block.head.ablen then some (obuf, m) else reallocPoolMemory m obuf size moved

/-- `free_pool_memory` -/
def freePoolMemory (m : Memory) (obuf : ℕ) : Option Memory := do
  let block ← m.heap obuf
  let pool := block.head.pool
  let m := m.modifyCtl pool fun ctl => { ctl with inUse := ctl.inUse - 1 }
  if pool = pmNopool then some { m with heap := update m.heap obuf none } -- free nonpooled memory
  else
    -- otherwise link it to the free pool chain
    let head := { block.head with next := (m.poolCtl pool).freeBuf }
    let m := { m with heap := update m.heap obuf (some { block with head := head }) }
    some (m.modifyCtl pool fun ctl => { ctl with freeBuf := some obuf })

/-- The buffers that are held, each with the pool it was requested from. -/
structure State where
  memory : Memory
  held : List (ℕ × Pool)

/-- The pool table before the first call; the sizes are another table for the stress test. -/
def init (size : Pool → ℤ) : State where
  memory := ⟨fun pool => ⟨size pool, size pool, 0, 0, none⟩, fun _ => none⟩
  held := []

def defaultSize : Pool → ℤ := ![256, 130, 256, 512, 1024, 4096]

inductive Action where
  | getPoolMemory (pool : Pool) (fresh : Fresh)
  | getMemory (size : ℕ) (fresh : Fresh)
  | reallocPoolMemory (obuf : ℕ) (size : ℕ) (moved : ℕ)
  | checkPoolMemorySize (obuf : ℕ) (size : ℤ) (moved : ℕ)
  | freePoolMemory (obuf : ℕ)
  deriving DecidableEq, Repr

def State.holder (s : State) (obuf : ℕ) : Option (ℕ × Pool) := s.held.find? fun h => h.1 = obuf

/-- A call and the buffer that it hands out. Buffers that are passed are held. -/
def step (build : Build) (s : State) : Action → Option (Option ℕ × State)
  | .getPoolMemory pool fresh => do
      let (buf, m) ← getPoolMemory build s.memory pool fresh
      some (some buf, ⟨m, (buf, pool) :: s.held⟩)
  | .getMemory size fresh => do
      let (buf, m) ← getMemory s.memory size fresh
      some (some buf, ⟨m, (buf, pmNopool) :: s.held⟩)
  | .reallocPoolMemory obuf size moved => do
      let h ← s.holder obuf
      let (buf, m) ← reallocPoolMemory s.memory obuf size moved
      some (some buf, ⟨m, (buf, h.2) :: s.held.erase h⟩)
  | .checkPoolMemorySize obuf size moved => do
      let h ← s.holder obuf
      let (buf, m) ← checkPoolMemorySize s.memory obuf size moved
      some (some buf, ⟨m, (buf, h.2) :: s.held.erase h⟩)
  | .freePoolMemory obuf => do
      let h ← s.holder obuf
      let m ← freePoolMemory s.memory obuf
      some (none, ⟨m, s.held.erase h⟩)

/-! ## What is claimed -/

/-- The least length of what a call hands out. -/
def least (s : State) : Action → ℤ
  | .getPoolMemory pool _ => (s.memory.poolCtl pool).size
  | .getMemory size _ => size
  | .reallocPoolMemory _ size _ => size
  | .checkPoolMemorySize _ size _ => size
  | .freePoolMemory _ => 0

/-- The buffers that a call is not about. -/
def others (s : State) : Action → List (ℕ × Pool)
  | .getPoolMemory _ _ => s.held
  | .getMemory _ _ => s.held
  | .reallocPoolMemory obuf _ _ => s.held.filter fun h => h.1 ≠ obuf
  | .checkPoolMemorySize obuf _ _ => s.held.filter fun h => h.1 ≠ obuf
  | .freePoolMemory obuf => s.held.filter fun h => h.1 ≠ obuf

structure HandedOut (s : State) (a : Action) (buf : ℕ) (s' : State) : Prop where
  alone : ∀ h ∈ others s a, h.1 ≠ buf
  recorded : ∃ block, s'.memory.heap buf = some block ∧ block.head.ablen = block.length ∧
    least s a ≤ block.length

/-- `in_use` is the number of buffers of the pool that are held. -/
def Counted (s : State) : Prop :=
  ∀ pool, (s.memory.poolCtl pool).inUse = s.held.countP fun h => h.2 = pool

structure StepLaw (s : State) (a : Action) (handed : Option ℕ) (s' : State) : Prop where
  handedOut : ∀ buf, handed = some buf → HandedOut s a buf s'
  counted : Counted s'

/-- A request that finds a buffer on the free list finds one that is long enough, and is in the build
with SMARTALLOC. -/
def Meets (build : Build) (s : State) : Action → Prop
  | .getPoolMemory pool _ => ∀ buf block, (s.memory.poolCtl pool).freeBuf = some buf →
      s.memory.heap buf = some block → build = .smartalloc ∧
        (s.memory.poolCtl pool).size ≤ block.head.ablen
  | _ => True

end Bacula.MemPool
