namespace SlabAllocator

/-- A lock that is one shared word: 0 when it is free, 1 when it is held, 2 when
it is held and somebody may sleep until it is released. -/
structure Mutex where
  word : UInt32
  deriving DecidableEq, Repr

namespace Mutex

/-- A new lock is free. -/
def fresh : Mutex := ⟨0⟩

/-- Whether somebody holds the lock. -/
def isLocked (x : Mutex) : Bool := x.word != 0

/-- Takes a lock that is free. -/
def tryLock? (x : Mutex) : Option Mutex := if x.word = 0 then some ⟨1⟩ else none

/-- Releases the lock. The word goes down by one; if that does not leave it
free, there are sleepers, and the word is set to 0 before one is woken. -/
def unlock (x : Mutex) : Mutex := if x.word = 1 then ⟨x.word - 1⟩ else ⟨0⟩

/-- Releases the lock whoever holds it. -/
def forceUnlock (_ : Mutex) : Mutex := ⟨0⟩

/-- A released lock is free, whatever its word was. -/
@[simp] theorem unlock_eq (x : Mutex) : x.unlock = fresh := by
  unfold unlock
  split
  · rename_i held
    rw [held]
    rfl
  · rfl

end Mutex

end SlabAllocator
