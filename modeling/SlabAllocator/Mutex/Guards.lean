import SlabAllocator.Mutex.Basic

namespace SlabAllocator

/-- One step of a caller that keeps the locks it took in a stack of guards. -/
inductive LockStep where
  | tryLock
  | lock
  | unlock
  | forceUnlock
  /-- Takes the lock and pushes a guard. -/
  | guardLock
  /-- Tries to take the lock and pushes a guard if that worked. -/
  | guardTry
  /-- Pops the newest guard, which releases the lock. -/
  | guardDrop
  /-- Overwrites the word. -/
  | setWord (word : UInt32)
  deriving DecidableEq, Repr

/-- What a step answers. -/
inductive LockReply where
  | done
  | flag (value : Bool)
  /-- The step would have to wait and did nothing. -/
  | wouldBlock
  deriving DecidableEq, Repr

/-- A mutex and the number of guards that a caller has on it. -/
structure LockState where
  mutex : Mutex := .fresh
  guards : Nat := 0
  deriving DecidableEq, Repr

/-- Takes one step. -/
def LockState.step (s : LockState) : LockStep → LockReply × LockState
  | .tryLock =>
    match s.mutex.tryLock? with
    | some mutex => (.flag true, { s with mutex })
    | none => (.flag false, s)
  | .lock =>
    match s.mutex.tryLock? with
    | some mutex => (.done, { s with mutex })
    | none => (.wouldBlock, s)
  | .unlock => (.done, { s with mutex := s.mutex.unlock })
  | .forceUnlock => (.done, { s with mutex := s.mutex.forceUnlock })
  | .guardLock =>
    match s.mutex.tryLock? with
    | some mutex => (.done, ⟨mutex, s.guards + 1⟩)
    | none => (.wouldBlock, s)
  | .guardTry =>
    match s.mutex.tryLock? with
    | some mutex => (.flag true, ⟨mutex, s.guards + 1⟩)
    | none => (.flag false, s)
  | .guardDrop =>
    match s.guards with
    | 0 => (.flag false, s)
    | guards + 1 => (.flag true, ⟨s.mutex.unlock, guards⟩)
  | .setWord word => (.done, { s with mutex := ⟨word⟩ })

end SlabAllocator
