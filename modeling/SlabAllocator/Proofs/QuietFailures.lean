import SlabAllocator.Proofs.History

namespace SlabAllocator

namespace Pool

variable {pool : Pool} {m after : Memory} {ε α : Type}
  {work : Memory → Except Fault (Except ε α × Memory)}

/-- When the work fails, no byte is different afterwards; when it fails under
the lock, which was free before, the lock is free again and no byte is
different either. -/
def FailsQuietly (pool : Pool) (work : Memory → Except Fault (Except ε α × Memory)) : Prop :=
  ∀ m after e,
    (work m = .ok (.error e, after) → ∀ x, after.byte x = m.byte x) ∧
    (pool.region.lockWord m = 0 → pool.withLock work m = .ok (some (.error e, after)) →
      (∀ x, after.byte x = m.byte x) ∧ pool.region.lockWord after = 0)

@[simp] theorem lockWord_setLockWord (word : UInt32) :
    pool.region.lockWord (pool.region.setLockWord word m) = word := by
  have value : word.toNat % 256 ^ 4 = word.toNat := Nat.mod_eq_of_lt word.toNat_lt
  rw [Region.lockWord, Region.setLockWord, Memory.read_write, value, UInt32.ofNat_toNat]

/-- Releasing a lock that was just taken leaves every byte as it was. -/
theorem byte_unlock_lock {locked : Memory} (free : pool.region.lockWord m = 0)
    (lock : pool.lock? m = some locked) (x : Nat) :
    (pool.unlock locked).byte x = m.byte x := by
  obtain ⟨held, _, rfl⟩ := Option.map_eq_some_iff.mp lock
  have small : m.read (pool.region.base + Header.lockAt) 4 < 2 ^ 32 := m.read_lt _ 4
  have zero : m.read (pool.region.base + Header.lockAt) 4 = 0 := by
    have value := congrArg UInt32.toNat free
    rw [Region.lockWord, UInt32.toNat_ofNat', Nat.mod_eq_of_lt small] at value
    exact value
  rw [unlock, Mutex.unlock_eq, setMutex, setMutex, Region.setLockWord, Region.setLockWord]
  -- Releasing writes back the zero that was there.
  by_cases inside : pool.region.base + Header.lockAt ≤ x ∧ x < pool.region.base + Header.lockAt + 4
  · rw [Memory.byte_write_of_inside _ m _ inside.1 inside.2]
    have same := m.byte_write_read (pool.region.base + Header.lockAt) 4 x
    rwa [zero] at same
  · rw [Memory.byte_write_of_outside _ _ (by omega), Memory.byte_write_of_outside _ _ (by omega)]

/-- Work that leaves the memory alone when it fails fails quietly. -/
theorem failsQuietly_of_unchanged
    (unchanged : ∀ m after e, work m = .ok (.error e, after) → after = m) :
    pool.FailsQuietly work := by
  intro m after e
  constructor
  · intro run x
    rw [unchanged m after e run]
  · intro free run
    unfold withLock at run
    cases lock : pool.lock? m with
    | none =>
      rw [lock] at run
      cases run
    | some locked =>
      rw [lock] at run
      obtain ⟨⟨answer, between⟩, worked, run⟩ := answer_of_bind run
      cases run
      obtain rfl := unchanged locked between e worked
      refine ⟨byte_unlock_lock free lock, ?_⟩
      rw [unlock, Mutex.unlock_eq, setMutex, lockWord_setLockWord]
      rfl

/-- Whatever the memory holds, a call that is refused or finds no room changes
no byte, and its locking form leaves the lock free. -/
theorem failed_calls_quiet (pool : Pool) (p size : Nat) :
    pool.FailsQuietly (pool.release p) ∧ pool.FailsQuietly (pool.allocate size) ∧
      pool.FailsQuietly (pool.allocateZeroed size) :=
  ⟨failsQuietly_of_unchanged fun _ _ _ => release_refused,
    failsQuietly_of_unchanged fun _ _ _ run => (allocate_failed run).1,
    failsQuietly_of_unchanged fun _ _ _ run => (allocateZeroed_failed run).1⟩

/-- In a pool in use a chunk that was taken back is refused under the lock, and so
are two pages where none is free. -/
theorem failed_calls_quiet_in_use : ∃ (pool : Pool) (s : PoolState) (back more : Memory),
    s.live = [⟨5144, 5⟩, ⟨6144, 1500⟩] ∧
      pool.withLock (pool.release 5136) s.memory =
        .ok (some (.error .chunkAlreadyFree, back)) ∧
      pool.withLock (pool.allocate 1500) s.memory =
        .ok (some (.error (.exhausted 1500), more)) ∧
      (∀ x, back.byte x = s.memory.byte x) ∧ pool.region.lockWord back = 0 ∧
      (∀ x, more.byte x = s.memory.byte x) ∧ pool.region.lockWord more = 0 := by
  obtain ⟨pool, m, s, created, ran, seen⟩ := of_trial 4096 4096
    [.allocate 5, .allocate 1500, .allocate 5, .release 5136]
    (fun pool s => .ok (s.live, pool.region.lockWord s.memory)) ([⟨5144, 5⟩, ⟨6144, 1500⟩], 0)
    (by decide +kernel)
  obtain ⟨live, free⟩ := Prod.mk.inj (Except.ok.inj seen)
  have refused := trial_eq (fun pool s => do
    let back ← pool.withLock (pool.release 5136) s.memory
    return back.map Prod.fst) (some (.error .chunkAlreadyFree)) created ran (by decide +kernel)
  have spent := trial_eq (fun pool s => do
    let more ← pool.withLock (pool.allocate 1500) s.memory
    return more.map Prod.fst) (some (.error (.exhausted 1500))) created ran (by decide +kernel)
  obtain ⟨_, released, refused⟩ := answer_of_bind refused
  obtain ⟨_, allocated, spent⟩ := answer_of_bind spent
  obtain ⟨⟨_, back⟩, rfl, rfl⟩ := Option.map_eq_some_iff.mp (Except.ok.inj refused)
  obtain ⟨⟨_, more⟩, rfl, rfl⟩ := Option.map_eq_some_iff.mp (Except.ok.inj spent)
  obtain ⟨quiet, also, _⟩ := failed_calls_quiet pool 5136 1500
  obtain ⟨same, unlocked⟩ := (quiet s.memory back _).2 free released
  obtain ⟨alike, freed⟩ := (also s.memory more _).2 free allocated
  exact ⟨pool, s, back, more, live, released, allocated, same, unlocked, alike, freed⟩

end Pool

end SlabAllocator
