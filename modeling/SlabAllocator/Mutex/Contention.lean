import Mathlib.Logic.Function.Basic
import SlabAllocator.Mutex.Basic

namespace SlabAllocator

/-- Where an executor is in the code of a lock. Every phase but the first and
`asleep` ends with one access to the word or one call to the system. -/
inductive LockPhase where
  /-- Outside of that code and without the lock. -/
  | away
  /-- Trying for the lock once: about to exchange 0 for 1. -/
  | trying
  /-- Taking the lock, with a bound on the backoff: about to exchange 0 for 1. -/
  | entering (spin : UInt32)
  /-- In the round of the backoff with this pause: about to look at the word. -/
  | watching (spin pause : UInt32)
  /-- In such a round, after a look that showed 0: about to exchange 0 for 1. -/
  | grabbing (spin pause : UInt32)
  /-- Through with the backoff: about to swap 2 in. -/
  | claiming
  /-- The lock was held: about to go to sleep if the word is still 2. -/
  | dozing
  | asleep
  /-- Has the lock. To release it, it will take 1 off the word. -/
  | holding
  /-- Releasing a lock with sleepers: about to store 0. -/
  | clearing
  /-- The lock is released: about to wake a sleeper. -/
  | rousing
  deriving DecidableEq, Repr

namespace LockPhase

/-- The phase from which the backoff goes on with a pause, if it is not over. -/
def backOff (spin pause : UInt32) : LockPhase :=
  if pause < spin then .watching spin pause else .claiming

/-- Exchanges 0 for 1 to get the lock; the phase after a failure is given. -/
def exchange (x : Mutex) (failed : LockPhase) : Mutex × LockPhase :=
  match x.tryLock? with
  | some held => (held, .holding)
  | none => (x, failed)

/-- One access of an executor to the word: the lock and the phase afterwards.
Nothing where the phase does not end in this way. The backoff is for machines
with more than one processor; the pause is doubled from round to round and has
32 bits. -/
def access? (cpus : Nat) (x : Mutex) : LockPhase → Option (Mutex × LockPhase)
  | .trying => some (exchange x .away)
  | .entering spin => some (exchange x (if 1 < cpus then backOff spin 1 else .claiming))
  | .watching spin pause =>
    some (x, if x.word = 0 then .grabbing spin pause else backOff spin (pause <<< 1))
  | .grabbing spin pause => some (exchange x (backOff spin (pause <<< 1)))
  | .claiming => some (⟨2⟩, if x.word = 0 then .holding else .dozing)
  | .dozing => some (x, if x.word = 2 then .asleep else .claiming)
  | .holding => some (⟨x.word - 1⟩, if x.word = 1 then .away else .clearing)
  | .clearing => some (⟨0⟩, .rousing)
  | .away | .asleep | .rousing => none

end LockPhase

/-- A lock and the executors that use it. -/
structure Contention (ι : Type) where
  mutex : Mutex
  phase : ι → LockPhase

namespace Contention

variable {ι : Type} [DecidableEq ι]

/-- The lock is free and everybody is away from it. -/
def calm : Contention ι := ⟨.fresh, fun _ => .away⟩

/-- Executor `i` goes on to another phase, and the lock changes along. -/
def move (s : Contention ι) (i : ι) (mutex : Mutex) (next : LockPhase) : Contention ι :=
  ⟨mutex, Function.update s.phase i next⟩

/-- One step of one executor. Nobody can tell which one comes next. -/
inductive Step (cpus : Nat) (s : Contention ι) : Contention ι → Prop
  /-- Somebody without the lock tries for it. -/
  | tryLock {i : ι} (away : s.phase i = .away) : Step cpus s (s.move i s.mutex .trying)
  /-- Somebody without the lock takes it, with any bound on the backoff. -/
  | lock {i : ι} (spin : UInt32) (away : s.phase i = .away) :
      Step cpus s (s.move i s.mutex (.entering spin))
  | access {i : ι} {mutex : Mutex} {next : LockPhase}
      (accessed : (s.phase i).access? cpus s.mutex = some (mutex, next)) :
      Step cpus s (s.move i mutex next)
  /-- A sleeper is woken by somebody who released the lock. -/
  | wake {i j : ι} (rousing : s.phase i = .rousing) (asleep : s.phase j = .asleep) :
      Step cpus s ((s.move i s.mutex .away).move j s.mutex .claiming)
  /-- There is nobody to wake. -/
  | wakeNobody {i : ι} (rousing : s.phase i = .rousing) (awake : ∀ j, s.phase j ≠ .asleep) :
      Step cpus s (s.move i s.mutex .away)
  /-- A sleeper wakes up by itself. -/
  | stir {i : ι} (asleep : s.phase i = .asleep) : Step cpus s (s.move i s.mutex .claiming)

/-- The situations that the executors can get into from a calm start. -/
inductive Reachable (cpus : Nat) : Contention ι → Prop
  | start : Reachable cpus calm
  | step {s after : Contention ι} (reached : Reachable cpus s) (next : Step cpus s after) :
      Reachable cpus after

end Contention

namespace LockPhase

/-- Whoever tries for the lock once does what `tryLock?` says. -/
theorem access?_trying (cpus : Nat) (x : Mutex) : trying.access? cpus x =
    some (match x.tryLock? with
      | some held => (held, .holding)
      | none => (x, .away)) := rfl

/-- The accesses of a release, one after the other, do what `unlock` does. -/
theorem access?_holding (cpus : Nat) (x : Mutex) :
    holding.access? cpus x = some (x.unlock, .away) ∨
      ∃ between, holding.access? cpus x = some (between, .clearing) ∧
        clearing.access? cpus between = some (x.unlock, .rousing) := by
  rw [access?, Mutex.unlock]
  by_cases alone : x.word = 1
  · rw [if_pos alone, if_pos alone]
    exact Or.inl rfl
  · rw [if_neg alone, if_neg alone]
    exact Or.inr ⟨_, rfl, rfl⟩

end LockPhase

end SlabAllocator
