-- A power of natural numbers is the same term whether or not algebra is imported.
attribute [instance (1100), default_instance 10100] instPowNat

namespace SlabAllocator

/-- The least multiple of `align` that is not below `value`. -/
def alignUp (value align : Nat) : Nat := (value + align - 1) / align * align

theorem dvd_alignUp (value align : Nat) : align ∣ alignUp value align := Nat.dvd_mul_left ..

theorem le_alignUp (value : Nat) {align : Nat} (positive : 0 < align) :
    value ≤ alignUp value align := by
  have split := Nat.div_add_mod (value + align - 1) align
  have rest := Nat.mod_lt (value + align - 1) positive
  rw [Nat.mul_comm] at split
  unfold alignUp
  omega

theorem alignUp_lt (value : Nat) {align : Nat} (positive : 0 < align) :
    alignUp value align < value + align := by
  have below := Nat.div_mul_le_self (value + align - 1) align
  unfold alignUp
  omega

/-- No multiple of `align` that reaches `value` lies below `alignUp`. -/
theorem alignUp_le {value align bound : Nat} (positive : 0 < align) (reaches : value ≤ bound)
    (multiple : align ∣ bound) : alignUp value align ≤ bound := by
  obtain ⟨k, rfl⟩ := multiple
  have steps : (value + align - 1) / align < k + 1 := by
    rw [Nat.div_lt_iff_lt_mul positive, Nat.add_mul, Nat.mul_comm k]
    omega
  unfold alignUp
  rw [Nat.mul_comm align]
  exact Nat.mul_le_mul_right _ (Nat.le_of_lt_succ steps)

theorem alignUp_mono {lower upper align : Nat} (positive : 0 < align) (bound : lower ≤ upper) :
    alignUp lower align ≤ alignUp upper align :=
  alignUp_le positive (Nat.le_trans bound (le_alignUp upper positive)) (dvd_alignUp upper align)

theorem alignUp_of_dvd {value align : Nat} (positive : 0 < align) (multiple : align ∣ value) :
    alignUp value align = value :=
  Nat.le_antisymm (alignUp_le positive (Nat.le_refl _) multiple) (le_alignUp value positive)

/-- Whether `value` has no bit in common with `align - 1`. For a power of two
this says that `align` divides `value`. -/
def isAligned (value align : Nat) : Bool := value &&& (align - 1) == 0

theorem isAligned_two_pow (value k : Nat) : isAligned value (2 ^ k) = true ↔ 2 ^ k ∣ value := by
  simp [isAligned, Nat.and_two_pow_sub_one_eq_mod, Nat.dvd_iff_mod_eq_zero]

/-- The least exponent whose power of two is not below `value`. -/
def ceilLog2 (value : Nat) : Nat := if value ≤ 1 then 0 else (value - 1).log2 + 1

theorem ceilLog2_le_iff (value k : Nat) : ceilLog2 value ≤ k ↔ value ≤ 2 ^ k := by
  unfold ceilLog2
  split
  · have := Nat.two_pow_pos k
    omega
  · have nonzero : value - 1 ≠ 0 := by omega
    rw [Nat.add_one_le_iff, Nat.log2_lt nonzero]
    omega

theorem le_two_pow_ceilLog2 (value : Nat) : value ≤ 2 ^ ceilLog2 value :=
  (ceilLog2_le_iff value _).mp (Nat.le_refl _)

end SlabAllocator
