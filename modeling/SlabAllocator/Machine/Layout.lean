import SlabAllocator.Layout
import SlabAllocator.Machine.Basic

namespace SlabAllocator

namespace Machine

/-- The least multiple of a power of two that is not below `value`: the bits
below the power are masked out of a sum that reaches it. -/
def alignUp (value align : Nat) : Except Fault Nat := do
  require (2 ^ align.log2 = align) .brokenPromise
  let sum ← add value align
  let top ← sub sum 1
  let low ← sub align 1
  return (UInt64.ofNat top &&& ~~~UInt64.ofNat low).toNat

/-- Lays a region out over a span. -/
def plan (base length : Nat) (g : Geometry) : Except Fault (Except SetupError Layout) := do
  if base % Layout.tableAlign ≠ 0 then
    return .error (.misalignedSpan base Layout.tableAlign)
  else
    let page ← shiftLeft 1 g.pageShift
    let slotCount ← sub g.pageShift g.minShift
    let heads ← mul slotCount Layout.headSize
    let tables ← add Layout.headerSize heads
    let descriptorsAt ← alignUp tables Layout.tableAlign
    if length < descriptorsAt then
      return .error (.spanTooSmall length descriptorsAt)
    else
      let rest ← sub length descriptorsAt
      let each ← add page Layout.descriptorSize
      let wanted := min (rest / each) Layout.maxPages
      let tableStart ← add base descriptorsAt
      let tableSize ← mul wanted Layout.descriptorSize
      let tableEnd ← add tableStart tableSize
      let start ← alignUp tableEnd page
      let finish ← add base length
      let fitting ← shiftRight (finish - start) g.pageShift
      let dataAt ← sub start base
      return .ok {
        slotsAt := Layout.headerSize
        slotCount
        descriptorsAt
        pageCount := min wanted fitting
        dataAt
        length }

/-- Masking out the low bits leaves the multiple of the power below. -/
theorem and_not_low_bits {n : Nat} (k : Nat) (small : n < 2 ^ 64) :
    (UInt64.ofNat n &&& ~~~UInt64.ofNat (2 ^ k - 1)).toNat = n / 2 ^ k * 2 ^ k := by
  have whole : n / 2 ^ k * 2 ^ k < 2 ^ 64 := Nat.lt_of_le_of_lt (Nat.div_mul_le_self ..) small
  have same : UInt64.ofNat n &&& ~~~UInt64.ofNat (2 ^ k - 1) =
      UInt64.ofNat (n / 2 ^ k * 2 ^ k) := by
    apply Word.ext
    intro i within
    rw [Word.has_and _ _ within, Word.has_not _ within, Word.has_ofNat _ within,
      Word.has_ofNat _ within, Word.has_ofNat _ within, Nat.testBit_two_pow_sub_one,
      Nat.testBit_mul_two_pow]
    by_cases high : k ≤ i
    · rw [Nat.testBit_div_two_pow, Nat.sub_add_cancel high]
      simp [high]
    · have low : i < k := by omega
      simp [high, low]
  rw [same, UInt64.toNat_ofNat', Nat.mod_eq_of_lt whole]

theorem alignUp_of {value k : Nat} (small : value + 2 ^ k < 2 ^ 64) :
    alignUp value (2 ^ k) = .ok (SlabAllocator.alignUp value (2 ^ k)) := by
  have positive := Nat.two_pow_pos k
  rw [alignUp, require_of (by rw [Nat.log2_two_pow]), ok_bind, add_of small, ok_bind,
    sub_of (by omega), ok_bind, sub_of positive, ok_bind]
  exact congrArg Except.ok (and_not_low_bits k (by omega))

section

variable {base length : Nat} {g : Geometry}

/-- The list heads are few, so the descriptors start close to the base. -/
theorem descriptorsOffset_of (valid : g.Valid) :
    g.slotCount * Layout.headSize ≤ 64 ∧
      alignUp (Layout.headerSize + g.slotCount * Layout.headSize) Layout.tableAlign =
        .ok (Layout.descriptorsOffset g) := by
  obtain ⟨_, upper, _, order⟩ := valid
  have heads : g.slotCount * Layout.headSize ≤ 64 := by
    unfold Geometry.slotCount Layout.headSize
    omega
  refine ⟨heads, alignUp_of (k := 3) ?_⟩
  unfold Layout.headerSize
  omega

/-- Up to the end of the span and a page beyond, no number of a layout is too
long, and masking aligns as it should. -/
theorem plan_of (valid : g.Valid) (room : base + length + g.pageSize < 2 ^ 64) :
    plan base length g = .ok (Layout.plan base length g) := by
  obtain ⟨heads, tables⟩ := descriptorsOffset_of valid
  obtain ⟨_, upper, _, order⟩ := valid
  have wide : g.pageShift < Word.width := Nat.lt_of_le_of_lt upper (by decide)
  have page : shiftLeft 1 g.pageShift = .ok g.pageSize := shiftLeft_one wide
  have small : g.pageSize ≤ 2 ^ 16 := Nat.pow_le_pow_right (by decide) upper
  have slots : sub g.pageShift g.minShift = .ok g.slotCount := sub_of (Nat.le_of_lt order)
  unfold plan Layout.plan
  split
  · rfl
  · rw [page, ok_bind, slots, ok_bind, mul_of (Nat.lt_of_le_of_lt heads (by decide)), ok_bind,
      add_of (by unfold Layout.headerSize; omega), ok_bind, tables, ok_bind]
    split
    · rfl
    · have wanted := Layout.wantedPages_mul_le length g
      rw [Nat.mul_add] at wanted
      have each : g.pageSize + Layout.descriptorSize < 2 ^ 64 := by
        unfold Layout.descriptorSize
        omega
      have tableEnd : base + Layout.descriptorsOffset g +
          Layout.wantedPages length g * Layout.descriptorSize ≤ base + length := by omega
      have start : alignUp (base + Layout.descriptorsOffset g +
          Layout.wantedPages length g * Layout.descriptorSize) g.pageSize =
            .ok (Layout.dataStart base length g) :=
        alignUp_of (show _ + g.pageSize < 2 ^ 64 by omega)
      have fitting : shiftRight (base + length - Layout.dataStart base length g) g.pageShift =
          .ok (Layout.fittingPages base length g) := shiftRight_of wide
      rw [sub_of (by omega), ok_bind, add_of each, ok_bind, add_of (by omega), ok_bind]
      change mul (Layout.wantedPages length g) Layout.descriptorSize >>= _ = _
      rw [mul_of (by omega), ok_bind, add_of (by omega), ok_bind, start, ok_bind,
        add_of (by omega), ok_bind, fitting, ok_bind,
        sub_of (Layout.base_le_dataStart base length g)]
      rfl

end

end Machine

end SlabAllocator
