import SlabAllocator.Error
import SlabAllocator.Geometry

namespace SlabAllocator

/-- What a caller chooses about a pool. Every handle on one region has to use
the same page size and the same least chunk. -/
structure Settings where
  /-- The binary logarithm of the smallest chunk. -/
  minShift : Nat := 3
  pageSize : Nat := 4096
  /-- How far a waiter backs off before it blocks. -/
  spin : UInt32 := 2048
  /-- Whether released memory is overwritten. -/
  junk : Bool := false
  /-- Added to the end of each diagnostic. -/
  label : String := ""
  deriving DecidableEq, Repr

namespace Settings

/-- The geometry that the settings ask for, if a pool may have it. The page
size is checked before the least chunk. -/
def geometry (s : Settings) : Except SetupError Geometry :=
  if 256 ≤ s.pageSize ∧ s.pageSize ≤ 65536 ∧ 2 ^ s.pageSize.log2 = s.pageSize then
    let pageShift := s.pageSize.log2
    if 1 ≤ s.minShift ∧ s.minShift < pageShift then
      .ok ⟨pageShift, s.minShift⟩
    else
      .error (.minShift s.minShift pageShift)
  else
    .error (.pageSize s.pageSize)

/-- A geometry that the settings yield is one that a pool may have. -/
theorem geometry_valid {s : Settings} {g : Geometry} (chosen : s.geometry = .ok g) :
    g.Valid := by
  unfold geometry at chosen
  split at chosen
  · rename_i size
    dsimp only at chosen
    split at chosen
    · rename_i least
      cases chosen
      have positive : s.pageSize ≠ 0 := by omega
      have lower : 8 ≤ s.pageSize.log2 := (Nat.le_log2 positive).mpr (by omega)
      have upper : s.pageSize.log2 < 17 := (Nat.log2_lt positive).mpr (by omega)
      exact ⟨lower, Nat.le_of_lt_succ upper, least.1, least.2⟩
    · simp at chosen
  · simp at chosen

end Settings

end SlabAllocator
