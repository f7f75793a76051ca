import SlabAllocator.PowerOfTwo

namespace SlabAllocator

/-- The last `width` base-256 digits of a number, least digit first. -/
def littleEndian : Nat → Nat → List UInt8
  | 0, _ => []
  | width + 1, value => UInt8.ofNat value :: littleEndian width (value / 256)

/-- The number that a list of base-256 digits stands for, least digit first. -/
def ofLittleEndian : List UInt8 → Nat
  | [] => 0
  | digit :: rest => digit.toNat + 256 * ofLittleEndian rest

@[simp] theorem length_littleEndian (width value : Nat) : (littleEndian width value).length = width := by
  induction width generalizing value with
  | zero => rfl
  | succ width ih => simp [littleEndian, ih]

/-- Writing a number in `width` digits and reading it back keeps what fits. -/
@[simp] theorem ofLittleEndian_littleEndian (width value : Nat) :
    ofLittleEndian (littleEndian width value) = value % 256 ^ width := by
  induction width generalizing value with
  | zero => simp [littleEndian, ofLittleEndian, Nat.mod_one]
  | succ width ih =>
    have digits : value % 256 ^ (width + 1) = value % 256 + 256 * (value / 256 % 256 ^ width) := by
      rw [Nat.pow_succ', Nat.mod_mul]
    simp only [littleEndian, ofLittleEndian, ih, UInt8.toNat_ofNat', digits]

/-- Every list of digits is the one that its own number is written in. -/
@[simp] theorem littleEndian_ofLittleEndian (digits : List UInt8) :
    littleEndian digits.length (ofLittleEndian digits) = digits := by
  induction digits with
  | nil => rfl
  | cons digit rest ih =>
    have least : UInt8.ofNat (digit.toNat + 256 * ofLittleEndian rest) = digit := by
      apply UInt8.toNat_inj.mp
      have := digit.toNat_lt
      rw [UInt8.toNat_ofNat']
      omega
    have others : (digit.toNat + 256 * ofLittleEndian rest) / 256 = ofLittleEndian rest := by
      have := digit.toNat_lt
      omega
    simp [littleEndian, ofLittleEndian, least, others, ih]

theorem ofLittleEndian_lt (digits : List UInt8) : ofLittleEndian digits < 256 ^ digits.length := by
  have same := ofLittleEndian_littleEndian digits.length (ofLittleEndian digits)
  rw [littleEndian_ofLittleEndian] at same
  rw [same]
  exact Nat.mod_lt _ (Nat.pow_pos (by decide))

end SlabAllocator
