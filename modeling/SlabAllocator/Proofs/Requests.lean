import SlabAllocator.Proofs.Classes

namespace SlabAllocator

namespace Geometry

/-- The bytes that a request receives: below half a page the least power of two
that is not below the request, but a smallest chunk at least; else whole
pages. -/
def blockSize (g : Geometry) (size : Nat) : Nat :=
  if size < g.maxSize then max g.minSize (2 ^ Nat.clog 2 size)
  else (size + g.pageSize - 1) / g.pageSize * g.pageSize

/-- The carving of the pages that serve a request below half a page. -/
def classFor (g : Geometry) (size : Nat) : Carving := g.carving (g.shiftFor size)

variable {g : Geometry} {size : Nat}

theorem isClass_classFor {c : Carving} (valid : g.Valid) (small : size < g.maxSize)
    (form : c = g.classFor size) : g.IsClass c := by
  rw [form]
  exact isClass_shiftFor valid small

theorem clog_eq_ceilLog2 (size : Nat) : Nat.clog 2 size = ceilLog2 size := by
  apply Nat.le_antisymm
  · exact Nat.clog_le_of_le_pow (le_two_pow_ceilLog2 size)
  · rw [ceilLog2_le_iff]
    exact Nat.le_pow_clog (by decide) size

theorem blockSize_chunk (below : size < g.maxSize) : g.blockSize size = 2 ^ g.shiftFor size := by
  rw [blockSize, if_pos below, clog_eq_ceilLog2, minSize, shiftFor]
  rcases Nat.le_total (ceilLog2 size) g.minShift with less | less
  · rw [Nat.max_eq_right less, Nat.max_eq_left (Nat.pow_le_pow_right (by decide) less)]
  · rw [Nat.max_eq_left less, Nat.max_eq_right (Nat.pow_le_pow_right (by decide) less)]

theorem blockSize_classFor (below : size < g.maxSize) :
    g.blockSize size = 2 ^ (g.classFor size).shift := blockSize_chunk below

/-- The quotient of size and page size, rounded up. -/
theorem pagesFor_eq (g : Geometry) (size : Nat) :
    g.pagesFor size = (size + g.pageSize - 1) / g.pageSize := by
  have positive : 0 < g.pageSize := Nat.two_pow_pos _
  have split := Nat.div_add_mod size g.pageSize
  have rest := Nat.mod_lt size positive
  unfold pagesFor
  split
  · have sum : size + g.pageSize - 1 = g.pageSize * (size / g.pageSize) + (g.pageSize - 1) := by
      omega
    rw [sum, Nat.mul_add_div positive, Nat.div_eq_of_lt (show g.pageSize - 1 < g.pageSize by omega)]
  · have sum : size + g.pageSize - 1 =
        g.pageSize * (size / g.pageSize + 1) + (size % g.pageSize - 1) := by
      rw [Nat.mul_add]
      omega
    rw [sum, Nat.mul_add_div positive,
      Nat.div_eq_of_lt (show size % g.pageSize - 1 < g.pageSize by omega), Nat.add_zero]

theorem blockSize_pages (large : g.maxSize ≤ size) :
    g.blockSize size = g.pagesFor size * g.pageSize := by
  rw [blockSize, if_neg (by omega), pagesFor_eq]

theorem le_blockSize (g : Geometry) (size : Nat) : size ≤ g.blockSize size := by
  unfold blockSize
  split
  · exact Nat.le_trans (Nat.le_pow_clog (by decide) size) (Nat.le_max_right _ _)
  · exact le_alignUp size (Nat.two_pow_pos _)

theorem pagesFor_pos (valid : g.Valid) (large : g.maxSize ≤ size) : 0 < g.pagesFor size := by
  have page : 2 ^ 8 ≤ g.pageSize := Nat.pow_le_pow_right (by decide) valid.1
  have split := Nat.div_add_mod size g.pageSize
  unfold maxSize at large
  unfold pagesFor
  rcases Nat.eq_zero_or_pos (size / g.pageSize) with quotient | some
  · rw [quotient] at split
    rw [if_neg (by omega)]
    exact Nat.add_pos_right _ Nat.one_pos
  · exact Nat.add_pos_left some _

theorem blockSize_lt (valid : g.Valid) (small : size < g.maxSize) : g.blockSize size < g.pageSize := by
  rw [blockSize_chunk small]
  exact Nat.pow_lt_pow_right (by decide) (isClass_shiftFor valid small).2.2

theorem pageSize_le_blockSize (valid : g.Valid) (large : g.maxSize ≤ size) :
    g.pageSize ≤ g.blockSize size := by
  rw [blockSize_pages large]
  exact Nat.le_mul_of_pos_left _ (pagesFor_pos valid large)

/-- The size of a block tells which class serves it. -/
theorem blockSize_eq_iff (valid : g.Valid) {slot : Nat} (known : slot < g.slotCount) :
    g.blockSize size = 2 ^ (g.minShift + slot) ↔
      size < g.maxSize ∧ g.slotOf (g.shiftFor size) = slot := by
  unfold slotCount at known
  by_cases small : size < g.maxSize
  · have least : g.minShift ≤ g.shiftFor size := Nat.le_max_right _ _
    rw [blockSize_chunk small, Nat.pow_right_inj (by decide), and_iff_right small]
    unfold slotOf
    omega
  · have long := pageSize_le_blockSize valid (Nat.le_of_not_lt small)
    have less : 2 ^ (g.minShift + slot) < g.pageSize :=
      Nat.pow_lt_pow_right (by decide) (by omega)
    exact iff_of_false (by omega) fun both => small both.1

end Geometry

end SlabAllocator
