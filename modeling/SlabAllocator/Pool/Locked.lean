import SlabAllocator.Mutex.Basic
import SlabAllocator.Pool.Usage

namespace SlabAllocator

namespace Pool

/-- The lock of a pool. -/
def mutex (pool : Pool) (m : Memory) : Mutex := ⟨pool.region.lockWord m⟩

/-- The memory with the lock of a pool replaced. -/
def setMutex (pool : Pool) (x : Mutex) (m : Memory) : Memory := pool.region.setLockWord x.word m

/-- Whether somebody holds the lock of a pool. -/
def isLocked (pool : Pool) (m : Memory) : Bool := (pool.mutex m).isLocked

/-- Takes the lock of a pool, if it is free. -/
def lock? (pool : Pool) (m : Memory) : Option Memory :=
  (pool.mutex m).tryLock?.map fun x => pool.setMutex x m

/-- Releases the lock of a pool. -/
def unlock (pool : Pool) (m : Memory) : Memory := pool.setMutex (pool.mutex m).unlock m

/-- Releases the lock of a pool whoever holds it. -/
def forceUnlock (pool : Pool) (m : Memory) : Memory := pool.setMutex (pool.mutex m).forceUnlock m

/-- Takes the lock, does the work and releases the lock. Answers nothing, and
does nothing, when it would have to wait for the lock. -/
def withLock {α : Type} (pool : Pool) (work : Memory → Except Fault (α × Memory)) (m : Memory) :
    Except Fault (Option (α × Memory)) := do
  match pool.lock? m with
  | none => return none
  | some m =>
    let (answer, m) ← work m
    return some (answer, pool.unlock m)

end Pool

end SlabAllocator
