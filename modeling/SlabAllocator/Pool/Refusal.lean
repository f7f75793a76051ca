import SlabAllocator.Pool.Locked

namespace SlabAllocator

namespace Region

variable {r : Region} {m after : Memory}

/-- A chunk is refused before anything is written. -/
theorem returnChunk_refused {c : Carving} {i offset : Nat} {e : ReleaseError}
    (run : r.returnChunk c i offset m = .ok (.error e, after)) : after = m := by
  unfold returnChunk at run
  split at run
  · cases run
    rfl
  · obtain ⟨taken, _, run⟩ := answer_of_bind run
    split at run
    · cases run
      rfl
    · obtain ⟨_, _, run⟩ := answer_of_bind run
      split at run
      · cases run
        rfl
      · obtain ⟨_, _, run⟩ := answer_of_bind run
        cases run

theorem takeRun_none {n : Nat} (run : r.takeRun n m = .ok (none, after)) : after = m := by
  unfold takeRun at run
  obtain ⟨found, _, run⟩ := answer_of_bind run
  split at run
  · cases run
    rfl
  · obtain ⟨_, _, run⟩ := answer_of_bind run
    obtain ⟨_, _, run⟩ := answer_of_bind run
    cases run

theorem takeChunk_none {size : Nat} (run : r.takeChunk size m = .ok (none, after)) : after = m := by
  unfold takeChunk at run
  obtain ⟨slot, _, run⟩ := answer_of_bind run
  obtain ⟨found, _, run⟩ := answer_of_bind run
  split at run
  · obtain ⟨_, _, run⟩ := answer_of_bind run
    cases run
  · obtain ⟨result, taken, run⟩ := answer_of_bind run
    split at run
    · cases run
      exact takeRun_none taken
    · obtain ⟨_, _, run⟩ := answer_of_bind run
      cases run

end Region

namespace Pool

variable {pool : Pool} {m after : Memory}

theorem releaseIn_refused {i p : Nat} {e : ReleaseError}
    (run : pool.releaseIn i p m = .ok (.error e, after)) : after = m := by
  unfold releaseIn at run
  obtain ⟨d, _, run⟩ := answer_of_bind run
  split at run
  · cases run
    rfl
  · cases run
    rfl
  · split at run
    · cases run
      rfl
    · obtain ⟨_, _, run⟩ := answer_of_bind run
      cases run
  · split at run
    · cases run
      rfl
    · obtain ⟨result, chunk, run⟩ := answer_of_bind run
      split at run
      · cases run
      · cases run
        exact Region.returnChunk_refused chunk

/-- A pool that cannot be laid out leaves the memory as it is. -/
theorem create_failed {base length : Nat} {s : Settings} {e : SetupError}
    (run : create base length s m = (.error e, after)) : after = m ∧ plan base length s = .error e := by
  unfold create at run
  split at run
  · rename_i planned
    cases run
    exact ⟨rfl, planned⟩
  · cases run

/-- A refused release leaves the memory as it is, whatever the memory holds. -/
theorem release_refused {p : Nat} {e : ReleaseError}
    (run : pool.release p m = .ok (.error e, after)) : after = m := by
  unfold release at run
  dsimp only at run
  split at run
  · cases run
    rfl
  · exact releaseIn_refused run

theorem place_none {size : Nat} (run : pool.place size m = .ok (none, after)) : after = m := by
  unfold place at run
  split at run
  · obtain ⟨⟨found, between⟩, taken, run⟩ := answer_of_bind run
    cases found with
    | none =>
      cases run
      exact Region.takeRun_none taken
    | some i => cases run
  · exact Region.takeChunk_none run

/-- An allocation that fails leaves the memory as it is. -/
theorem allocate_failed {size : Nat} {e : PoolError}
    (run : pool.allocate size m = .ok (.error e, after)) : after = m ∧ e = .exhausted size := by
  unfold allocate at run
  obtain ⟨result, placed, run⟩ := answer_of_bind run
  split at run
  · cases run
  · cases run
    exact ⟨place_none placed, rfl⟩

theorem allocateZeroed_failed {size : Nat} {e : PoolError}
    (run : pool.allocateZeroed size m = .ok (.error e, after)) :
    after = m ∧ e = .exhausted size := by
  unfold allocateZeroed at run
  obtain ⟨result, allocated, run⟩ := answer_of_bind run
  split at run
  · cases run
  · cases run
    exact allocate_failed allocated

end Pool

end SlabAllocator
