import SlabAllocator.Descriptor.Basic

namespace SlabAllocator

@[simp] theorem PageKind.ofCode_code (kind : PageKind) : ofCode kind.code = kind := by
  rcases kind with _ | kind
  · rfl
  · cases kind <;> rfl

namespace Descriptor

theorem toNat_ofNat {n : Nat} (small : n < 2 ^ 64) : (UInt64.ofNat n).toNat = n := by
  rw [UInt64.toNat_ofNat']
  exact Nat.mod_eq_of_lt small

theorem has_runMark {i : Nat} (within : i < Word.width) :
    Word.has runMark i = decide (63 = i) :=
  Word.has_single (i := 63) (by decide) within

/-- A number below the mark is what is left of the marked word. -/
theorem unmarked {n : Nat} (small : n < 2 ^ 63) :
    (UInt64.ofNat n ||| runMark) &&& ~~~runMark = UInt64.ofNat n := by
  apply Word.ext
  intro i within
  rw [Word.has_and _ _ within, Word.has_or _ _ within, Word.has_not _ within, has_runMark within,
    Word.has_ofNat n within]
  by_cases top : 63 = i
  · subst top
    rw [Nat.testBit_lt_two_pow small]
    rfl
  · simp [top]

theorem marked_ne_zero (w : Word) : (w ||| runMark) &&& runMark ≠ 0 := by
  intro same
  have bit := congrArg (fun v => Word.has v 63) same
  simp only [Word.has_and _ _ (show 63 < Word.width by decide),
    Word.has_or _ _ (show 63 < Word.width by decide),
    has_runMark (show 63 < Word.width by decide),
    Word.has_zero (show 63 < Word.width by decide)] at bit
  simp at bit

theorem unmarked_eq_zero {n : Nat} (small : n < 2 ^ 63) : UInt64.ofNat n &&& runMark = 0 := by
  apply Word.ext
  intro i within
  rw [Word.has_and _ _ within, has_runMark within, Word.has_ofNat n within, Word.has_zero within]
  by_cases top : 63 = i
  · subst top
    rw [Nat.testBit_lt_two_pow small]
    rfl
  · simp [top]

theorem ofNat_ne_full {n : Nat} (small : n < 2 ^ 64 - 1) : UInt64.ofNat n ≠ Word.full := by
  intro same
  have value := congrArg UInt64.toNat same
  rw [toNat_ofNat (by omega)] at value
  have : Word.full.toNat = 2 ^ 64 - 1 := rfl
  omega

theorem marked_ne_full {n : Nat} (small : n < 2 ^ 63 - 1) :
    UInt64.ofNat n ||| runMark ≠ Word.full := by
  intro same
  have value := unmarked (show n < 2 ^ 63 by omega)
  rw [same] at value
  have number := congrArg UInt64.toNat value
  rw [toNat_ofNat (by omega)] at number
  have : (Word.full &&& ~~~runMark).toNat = 2 ^ 63 - 1 := rfl
  omega

/-- The number in a status word of big chunks: the record above the chunk
size. -/
theorem toNat_packed {shift : Nat} {map : Word} (small : shift < 16) (half : map.toNat < 2 ^ 32) :
    (map <<< 32 ||| UInt64.ofNat shift).toNat = 2 ^ 32 * map.toNat + shift := by
  have above : (map <<< 32).toNat = 2 ^ 32 * map.toNat := by
    rw [UInt64.toNat_shiftLeft]
    show map.toNat <<< 32 % 2 ^ 64 = _
    rw [Nat.shiftLeft_eq, Nat.mod_eq_of_lt (by omega), Nat.mul_comm]
  rw [UInt64.toNat_or, above, toNat_ofNat (by omega)]
  exact (Nat.two_pow_add_eq_or_of_lt (show shift < 2 ^ 32 by omega) map.toNat).symm

/-- A free run of fewer than `2 ^ 63` pages is read back. -/
@[simp] theorem role_asFreeRun (d : Descriptor) {n : Nat} (small : n < 2 ^ 63) :
    (d.asFreeRun n).role = .free n := by
  have kind : (d.asFreeRun n).pageKind = .whole := rfl
  have value : (UInt64.ofNat n).toNat = n := toNat_ofNat (by omega)
  rw [role, kind]
  simp [asFreeRun, ofNat_ne_full (show n < 2 ^ 64 - 1 by omega), unmarked_eq_zero small, value]

/-- An allocated run of fewer than `2 ^ 63 - 1` pages is read back. One more
page would spell the word of a later page. -/
@[simp] theorem role_asRun (d : Descriptor) {n : Nat} (small : n < 2 ^ 63 - 1) :
    (d.asRun n).role = .run n := by
  have kind : (d.asRun n).pageKind = .whole := rfl
  have word : (d.asRun n).word = UInt64.ofNat n ||| runMark := rfl
  have value : (UInt64.ofNat n).toNat = n := toNat_ofNat (by omega)
  rw [role, kind]
  simp only [word, marked_ne_full small, marked_ne_zero, unmarked (show n < 2 ^ 63 by omega), value,
    if_false, ne_eq, not_false_eq_true, if_true]

example : (blank.asRun (2 ^ 63 - 1)).role = .interior := by decide

/-- The length of an allocated run is stored in 63 bits. -/
theorem lt_of_role_run {d : Descriptor} {n : Nat} (role : d.role = .run n) : n < 2 ^ 63 := by
  have mask : (~~~runMark).toNat = 2 ^ 63 - 1 := rfl
  unfold Descriptor.role at role
  split at role
  · split at role
    · cases role
    · split at role
      · obtain rfl := Role.run.inj role
        rw [UInt64.toNat_and, mask]
        exact Nat.and_lt_two_pow _ (by decide)
      · cases role
  · cases role
  · cases role
  · cases role

@[simp] theorem role_asInterior (d : Descriptor) : d.asInterior.role = .interior := rfl

@[simp] theorem role_asExact (d : Descriptor) (map : Word) : (d.asExact map).role = .exact map := rfl

@[simp] theorem role_asSmall (d : Descriptor) {shift : Nat} (small : shift < 16) :
    (d.asSmall shift).role = .small shift := by
  have value : (d.asSmall shift).storedShift = shift := by
    show (UInt64.ofNat shift &&& 0xF).toNat = shift
    rw [UInt64.toNat_and, toNat_ofNat (by omega)]
    show shift &&& (2 ^ 4 - 1) = shift
    rw [Nat.and_two_pow_sub_one_eq_mod]
    exact Nat.mod_eq_of_lt small
  show Role.small (d.asSmall shift).storedShift = _
  rw [value]

/-- A record of fewer than 33 chunks is read back with its chunk size. -/
@[simp] theorem role_asBig (d : Descriptor) {shift : Nat} {map : Word} (small : shift < 16)
    (half : map.toNat < 2 ^ 32) : (d.asBig shift map).role = .big shift map := by
  have packed := toNat_packed small half
  have low : (d.asBig shift map).storedShift = shift := by
    show ((map <<< 32 ||| UInt64.ofNat shift) &&& 0xF).toNat = shift
    rw [UInt64.toNat_and, packed]
    show (2 ^ 32 * map.toNat + shift) &&& (2 ^ 4 - 1) = shift
    rw [Nat.and_two_pow_sub_one_eq_mod]
    omega
  have high : (d.asBig shift map).upperMap = map := by
    apply UInt64.toNat_inj.mp
    show ((map <<< 32 ||| UInt64.ofNat shift) >>> 32).toNat = map.toNat
    rw [UInt64.toNat_shiftRight, packed]
    show (2 ^ 32 * map.toNat + shift) >>> 32 = map.toNat
    rw [Nat.shiftRight_eq_div_pow]
    omega
  show Role.big (d.asBig shift map).storedShift (d.asBig shift map).upperMap = _
  rw [low, high]

end Descriptor

end SlabAllocator
