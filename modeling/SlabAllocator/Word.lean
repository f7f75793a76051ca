import SlabAllocator.PowerOfTwo

namespace SlabAllocator

/-- A 64-bit word, read as the set of the positions of its one bits. -/
abbrev Word := UInt64

namespace Word

def width : Nat := 64

def has (w : Word) (i : Nat) : Bool := (w >>> UInt64.ofNat i) &&& 1 == 1

def full : Word := 0xFFFFFFFFFFFFFFFF

/-- The word with the first `n` positions; every position when `n` reaches the
width. -/
def initial (n : Nat) : Word := if n < width then (1 <<< UInt64.ofNat n) - 1 else full

def insert (w : Word) (i : Nat) : Word := w ||| (1 <<< UInt64.ofNat i)

def erase (w : Word) (i : Nat) : Word := w &&& ~~~(1 <<< UInt64.ofNat i)

def firstMissing? (w : Word) : Option Nat := (List.range width).find? fun i => !has w i

def card (w : Word) : Nat := (List.range width).countP (has w)

theorem toNat_shift {i : Nat} (within : i < width) : (UInt64.ofNat i).toNat % 64 = i := by
  unfold width at within
  rw [UInt64.toNat_ofNat']
  omega

theorem has_eq_testBit (w : Word) {i : Nat} (within : i < width) :
    has w i = w.toNat.testBit i := by
  have value : ((w >>> UInt64.ofNat i) &&& 1).toNat = w.toNat >>> i % 2 := by
    rw [UInt64.toNat_and, UInt64.toNat_shiftRight, toNat_shift within]
    exact Nat.and_one_is_mod _
  rw [Nat.testBit_eq_decide_div_mod_eq, ← Nat.shiftRight_eq_div_pow, ← value, has]
  rw [Bool.eq_iff_iff, beq_iff_eq, decide_eq_true_iff]
  exact ⟨fun same => by rw [same]; rfl, fun same => UInt64.toNat_inj.mp same⟩

/-- Words with the same positions are the same word. -/
theorem ext {v w : Word} (same : ∀ i < width, has v i = has w i) : v = w := by
  apply UInt64.toNat_inj.mp
  apply Nat.eq_of_testBit_eq
  intro i
  rcases Nat.lt_or_ge i width with within | beyond
  · rw [← has_eq_testBit v within, ← has_eq_testBit w within, same i within]
  · have power : 2 ^ 64 ≤ 2 ^ i := Nat.pow_le_pow_right (by decide) beyond
    rw [Nat.testBit_lt_two_pow (Nat.lt_of_lt_of_le v.toNat_lt power),
      Nat.testBit_lt_two_pow (Nat.lt_of_lt_of_le w.toNat_lt power)]

theorem toNat_single {i : Nat} (within : i < width) :
    ((1 : Word) <<< UInt64.ofNat i).toNat = 2 ^ i := by
  have power : 2 ^ i < 2 ^ 64 := Nat.pow_lt_pow_right (by decide) within
  rw [UInt64.toNat_shiftLeft, toNat_shift within, UInt64.toNat_one, Nat.shiftLeft_eq, Nat.one_mul,
    Nat.mod_eq_of_lt power]

theorem has_single {i j : Nat} (within : i < width) (inside : j < width) :
    has ((1 : Word) <<< UInt64.ofNat i) j = decide (i = j) := by
  rw [has_eq_testBit _ inside, toNat_single within, Nat.testBit_two_pow]

theorem has_full {i : Nat} (within : i < width) : has full i = true := by
  rw [has_eq_testBit _ within]
  show (2 ^ 64 - 1).testBit i = true
  rw [Nat.testBit_two_pow_sub_one]
  exact decide_eq_true within

theorem has_zero {i : Nat} (within : i < width) : has 0 i = false := by
  rw [has_eq_testBit _ within]
  exact Nat.zero_testBit i

theorem has_or (v w : Word) {i : Nat} (within : i < width) :
    has (v ||| w) i = (has v i || has w i) := by
  rw [has_eq_testBit _ within, UInt64.toNat_or, Nat.testBit_or, ← has_eq_testBit _ within,
    ← has_eq_testBit _ within]

theorem has_and (v w : Word) {i : Nat} (within : i < width) :
    has (v &&& w) i = (has v i && has w i) := by
  rw [has_eq_testBit _ within, UInt64.toNat_and, Nat.testBit_and, ← has_eq_testBit _ within,
    ← has_eq_testBit _ within]

theorem has_insert (w : Word) {i j : Nat} (within : i < width) (inside : j < width) :
    has (insert w i) j = (has w j || decide (i = j)) := by
  rw [insert, has_or _ _ inside, has_single within inside]

theorem has_not (w : Word) {i : Nat} (within : i < width) : has (~~~w) i = !has w i := by
  rw [has_eq_testBit _ within, has_eq_testBit _ within]
  show (~~~w).toBitVec.getLsbD i = !w.toBitVec.getLsbD i
  have inside : i < 64 := within
  rw [UInt64.toBitVec_not, BitVec.getLsbD_not, decide_eq_true inside, Bool.true_and]

theorem has_erase (w : Word) {i j : Nat} (within : i < width) (inside : j < width) :
    has (erase w i) j = (has w j && !decide (i = j)) := by
  rw [erase, has_and _ _ inside, has_not _ inside, has_single within inside]

theorem has_ofNat (n : Nat) {i : Nat} (within : i < width) :
    has (UInt64.ofNat n) i = n.testBit i := by
  have inside : i < 64 := within
  rw [has_eq_testBit _ within, UInt64.toNat_ofNat', Nat.testBit_mod_two_pow, decide_eq_true inside,
    Bool.true_and]

theorem has_initial (n : Nat) {i : Nat} (within : i < width) :
    has (initial n) i = decide (i < n) := by
  unfold initial
  split
  · rename_i small
    have value : ((1 <<< UInt64.ofNat n : Word) - 1).toNat = 2 ^ n - 1 := by
      rw [UInt64.toNat_sub_of_le, toNat_single small, UInt64.toNat_one]
      rw [UInt64.le_iff_toNat_le, toNat_single small]
      exact Nat.two_pow_pos n
    rw [has_eq_testBit _ within, value, Nat.testBit_two_pow_sub_one]
  · rename_i large
    rw [has_full within]
    exact (decide_eq_true (by omega)).symm

theorem firstMissing?_eq_some_iff (w : Word) (i : Nat) :
    firstMissing? w = some i ↔ i < width ∧ has w i = false ∧ ∀ j < i, has w j = true := by
  unfold firstMissing?
  simp only [List.find?_range_eq_some, List.mem_range, Bool.not_eq_true', Bool.not_not]
  exact and_left_comm

theorem firstMissing?_eq_none_iff (w : Word) : firstMissing? w = none ↔ w = full := by
  unfold firstMissing?
  rw [List.find?_range_eq_none]
  constructor
  · intro every
    apply ext
    intro i within
    have := every i within
    rw [has_full within]
    simpa using this
  · rintro rfl i within
    simp [has_full within]

end Word

end SlabAllocator
