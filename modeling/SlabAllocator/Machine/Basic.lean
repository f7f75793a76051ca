import SlabAllocator.Fault
import SlabAllocator.PowerOfTwo

namespace SlabAllocator

namespace Machine

/-- The number itself, where it has no more than so many bits. -/
def fit (bits n : Nat) : Except Fault Nat := do
  require (n < 2 ^ bits) .overflow
  return n

def add (a b : Nat) : Except Fault Nat := fit 64 (a + b)

def mul (a b : Nat) : Except Fault Nat := fit 64 (a * b)

def sub (a b : Nat) : Except Fault Nat := do
  require (b ≤ a) .overflow
  return a - b

/-- A shift by less than the width, that loses no bit. -/
def shiftLeft (a places : Nat) : Except Fault Nat := do
  require (places < 64) .overflow
  fit 64 (a * 2 ^ places)

def shiftRight (a places : Nat) : Except Fault Nat := do
  require (places < 64) .overflow
  return a >>> places

/-- The sum of some numbers; none of the sums on the way is too long either. -/
def sum (bits : Nat) (numbers : List Nat) : Except Fault Nat :=
  numbers.foldlM (fun total n => fit bits (total + n)) 0

variable {a b bits places : Nat}

theorem fit_of (small : a < 2 ^ bits) : fit bits a = .ok a := by
  rw [fit, require_of small]
  rfl

theorem add_of (small : a + b < 2 ^ 64) : add a b = .ok (a + b) := fit_of small

theorem mul_of (small : a * b < 2 ^ 64) : mul a b = .ok (a * b) := fit_of small

theorem sub_of (order : b ≤ a) : sub a b = .ok (a - b) := by
  rw [sub, require_of order]
  rfl

theorem shiftLeft_of (inside : places < 64) (small : a * 2 ^ places < 2 ^ 64) :
    shiftLeft a places = .ok (a * 2 ^ places) := by
  rw [shiftLeft, require_of inside]
  exact fit_of small

theorem shiftLeft_one (inside : places < 64) : shiftLeft 1 places = .ok (2 ^ places) := by
  have power : 2 ^ places < 2 ^ 64 := Nat.pow_lt_pow_right (by decide) inside
  rw [shiftLeft_of inside (by omega), Nat.one_mul]

theorem shiftRight_of (inside : places < 64) : shiftRight a places = .ok (a / 2 ^ places) := by
  rw [shiftRight, require_of inside, ← Nat.shiftRight_eq_div_pow]
  rfl

theorem fit_of_large (large : 2 ^ bits ≤ a) : fit bits a = .error .overflow := by
  rw [fit, require, if_neg (Nat.not_lt.mpr large)]
  rfl

theorem foldlM_fit {numbers : List Nat} {total : Nat} (small : total < 2 ^ bits) :
    numbers.foldlM (fun total n => fit bits (total + n)) total =
      fit bits (total + numbers.foldr (· + ·) 0) := by
  induction numbers generalizing total with
  | nil => exact (fit_of small).symm
  | cons n rest ih =>
    rw [List.foldlM_cons, List.foldr_cons, ← Nat.add_assoc]
    rcases Nat.lt_or_ge (total + n) (2 ^ bits) with here | large
    · simp [fit_of here, ih here]
    · rw [fit_of_large large, fit_of_large (Nat.le_add_right_of_le large)]
      rfl

/-- Only the sum in all decides whether the bits are enough. -/
theorem sum_eq (bits : Nat) (numbers : List Nat) :
    sum bits numbers = fit bits (numbers.foldr (· + ·) 0) := by
  rw [sum, foldlM_fit (Nat.two_pow_pos bits), Nat.zero_add]

theorem sum_of {numbers : List Nat} (small : numbers.foldr (· + ·) 0 < 2 ^ bits) :
    sum bits numbers = .ok (numbers.foldr (· + ·) 0) := by
  rw [sum_eq, fit_of small]

end Machine

end SlabAllocator
