import Mathlib.Order.Bounds.Defs
import SlabAllocator.Machine.Layout

namespace SlabAllocator

namespace Layout

/-- The span has room for `k` pages: with their descriptors before them and the
first of them at a page boundary, the last one ends in the span. -/
def HasRoom (base length : Nat) (g : Geometry) (k : Nat) : Prop :=
  alignUp (base + descriptorsOffset g + descriptorSize * k) g.pageSize + k * g.pageSize ≤
    base + length

instance (base length : Nat) (g : Geometry) (k : Nat) : Decidable (HasRoom base length g k) :=
  inferInstanceAs (Decidable (_ ≤ _))

variable {base length : Nat} {g : Geometry} {k : Nat}

theorem pageSize_pos (g : Geometry) : 0 < g.pageSize := Nat.two_pow_pos g.pageShift

/-- Aligning the first page costs less than a page, so all the wanted pages but
one fit for sure. -/
theorem wantedPages_le (holds : descriptorsOffset g ≤ length) :
    wantedPages length g ≤ fittingPages base length g + 1 := by
  have wanted := wantedPages_mul_le length g
  have start := alignUp_lt (base + descriptorsOffset g + wantedPages length g * descriptorSize)
    (pageSize_pos g)
  rw [← dataStart] at start
  rw [Nat.mul_add] at wanted
  have reach : wantedPages length g * g.pageSize ≤
      base + length - dataStart base length g + g.pageSize := by omega
  rw [fittingPages, ← Nat.add_div_right _ (pageSize_pos g), Nat.le_div_iff_mul_le (pageSize_pos g)]
  exact reach

/-- Where there is room for some pages, they are no more than the wanted ones. -/
theorem HasRoom.le_wantedPages (room : HasRoom base length g k) (most : k ≤ maxPages) :
    k ≤ wantedPages length g := by
  have start := le_alignUp (base + descriptorsOffset g + descriptorSize * k) (pageSize_pos g)
  have bytes : k * (g.pageSize + descriptorSize) ≤ length - descriptorsOffset g := by
    unfold HasRoom at room
    rw [Nat.mul_add, Nat.mul_comm k descriptorSize]
    omega
  have positive : 0 < g.pageSize + descriptorSize := Nat.add_pos_left (pageSize_pos g) _
  exact Nat.le_min.mpr ⟨(Nat.le_div_iff_mul_le positive).mpr bytes, most⟩

/-- There is room for all the wanted pages exactly when they fit behind the page
boundary that follows their descriptors. -/
theorem hasRoom_wantedPages (positive : 0 < wantedPages length g) :
    HasRoom base length g (wantedPages length g) ↔
      wantedPages length g ≤ fittingPages base length g := by
  have some : 1 * g.pageSize ≤ wantedPages length g * g.pageSize := Nat.mul_le_mul_right _ positive
  have page := pageSize_pos g
  rw [HasRoom, Nat.mul_comm descriptorSize, ← dataStart, fittingPages,
    Nat.le_div_iff_mul_le (pageSize_pos g)]
  omega

/-- The pages of a layout have room. Their descriptors may end earlier than those
of the wanted pages, which only moves the page boundary forward. -/
theorem hasRoom_of_le (positive : 0 < k) (wanted : k ≤ wantedPages length g)
    (fitting : k ≤ fittingPages base length g) : HasRoom base length g k := by
  have start : alignUp (base + descriptorsOffset g + descriptorSize * k) g.pageSize ≤
      dataStart base length g := by
    rw [Nat.mul_comm descriptorSize]
    exact alignUp_mono (pageSize_pos g) (Nat.add_le_add_left (Nat.mul_le_mul_right _ wanted) _)
  have bytes := (Nat.le_div_iff_mul_le (pageSize_pos g)).mp fitting
  have some : 1 * g.pageSize ≤ k * g.pageSize := Nat.mul_le_mul_right _ positive
  have page := pageSize_pos g
  unfold HasRoom
  omega

/-- More pages than a layout has do not fit: only the wanted ones could, and
they fail to when one of them is given up. -/
theorem HasRoom.le_pageCount (room : HasRoom base length g k) (most : k ≤ maxPages)
    (holds : descriptorsOffset g ≤ length) :
    k ≤ min (wantedPages length g) (fittingPages base length g) := by
  have wanted := room.le_wantedPages most
  have spare : wantedPages length g ≤ fittingPages base length g + 1 := wantedPages_le holds
  refine Nat.le_min.mpr ⟨wanted, ?_⟩
  rcases Nat.lt_or_ge k (wantedPages length g) with fewer | all
  · omega
  · obtain rfl : k = wantedPages length g := Nat.le_antisymm wanted all
    rcases Nat.eq_zero_or_pos (wantedPages length g) with none | positive
    · omega
    · exact (hasRoom_wantedPages positive).mp room

/-- The number of pages is the greatest one for which the span has room. -/
theorem isGreatest_pageCount {layout : Layout} (planned : plan base length g = .ok layout)
    (some : ∃ k, 1 ≤ k ∧ k ≤ maxPages ∧ HasRoom base length g k) :
    IsGreatest {k | k ≤ maxPages ∧ HasRoom base length g k} layout.pageCount := by
  have most := pageCount_le planned
  obtain ⟨_, holds, rfl⟩ := plan_eq_ok_iff.mp planned
  obtain ⟨k, positive, few, room⟩ := some
  have count := Nat.lt_of_lt_of_le positive (room.le_pageCount few holds)
  refine ⟨⟨most, hasRoom_of_le count (Nat.min_le_left ..) (Nat.min_le_right ..)⟩, ?_⟩
  exact fun n fits => fits.2.le_pageCount fits.1 holds

theorem pageCount_eq_zero {layout : Layout} (planned : plan base length g = .ok layout)
    (none : ∀ k, 1 ≤ k → k ≤ maxPages → ¬HasRoom base length g k) : layout.pageCount = 0 := by
  have most := pageCount_le planned
  obtain ⟨_, _, rfl⟩ := plan_eq_ok_iff.mp planned
  refine Nat.eq_zero_of_not_pos fun positive => none _ positive most ?_
  exact hasRoom_of_le positive (Nat.min_le_left ..) (Nat.min_le_right ..)

/-- A span that can hold the tables is laid out without any number leaving the
width of the machine, and no layout of it could have more pages: their number is
the greatest one, of those that a link can name, for which the descriptors and,
from the next page boundary on, the pages end in the span. The parts lie one
behind the other, and of the pages that the bytes alone would allow the alignment
costs one at most. -/
theorem plan_uses_span (valid : g.Valid) (aligned : 8 ∣ base) (holds : descriptorsOffset g ≤ length)
    (room : base + length + g.pageSize < 2 ^ 64) :
    ∃ layout, Machine.plan base length g = .ok (.ok layout) ∧ plan base length g = .ok layout ∧
      layout.descriptorsAt = descriptorsOffset g ∧
      ((∃ k, 1 ≤ k ∧ k ≤ maxPages ∧ HasRoom base length g k) →
        IsGreatest {k | k ≤ maxPages ∧ HasRoom base length g k} layout.pageCount) ∧
      ((∀ k, 1 ≤ k → k ≤ maxPages → ¬HasRoom base length g k) → layout.pageCount = 0) ∧
      g.pageSize ∣ base + layout.dataAt ∧
      layout.descriptorsAt + descriptorSize * layout.pageCount ≤ layout.dataAt ∧
      (0 < layout.pageCount → layout.dataAt + layout.pageCount * g.pageSize ≤ length) ∧
      min maxPages ((length - layout.descriptorsAt) / (g.pageSize + descriptorSize)) ≤
        layout.pageCount + 1 := by
  obtain ⟨layout, planned⟩ : ∃ layout, plan base length g = .ok layout :=
    ⟨_, plan_eq_ok_iff.mpr ⟨Nat.mod_eq_zero_of_dvd aligned, holds, rfl⟩⟩
  have machine : Machine.plan base length g = .ok (plan base length g) := Machine.plan_of valid room
  have tables := descriptors_fit planned
  have spare : wantedPages length g ≤ fittingPages base length g + 1 := wantedPages_le holds
  refine ⟨layout, by rw [machine, planned], planned, ?_, isGreatest_pageCount planned,
    pageCount_eq_zero planned, data_aligned planned, ?_, pages_fit planned, ?_⟩
  · obtain ⟨_, _, rfl⟩ := plan_eq_ok_iff.mp planned
    rfl
  · rwa [Nat.mul_comm]
  · obtain ⟨_, _, rfl⟩ := plan_eq_ok_iff.mp planned
    rw [Nat.min_comm]
    dsimp only
    rw [← wantedPages]
    omega

/-- The bytes would do for 15 pages, but the step to the page boundary leaves room
for 14. -/
theorem plan_uses_span_given_up : ∃ layout, Machine.plan 8 61904 ⟨12, 3⟩ = .ok (.ok layout) ∧
    wantedPages 61904 ⟨12, 3⟩ = 15 ∧ layout.pageCount = 14 ∧
    IsGreatest {k | k ≤ maxPages ∧ HasRoom 8 61904 ⟨12, 3⟩ k} layout.pageCount := by
  obtain ⟨layout, machine, planned, _, greatest, _⟩ :=
    @plan_uses_span 8 61904 ⟨12, 3⟩ (by decide) (by decide) (by decide) (by decide)
  refine ⟨layout, machine, by decide, ?_, greatest ⟨14, by decide, by decide, by decide⟩⟩
  obtain ⟨_, _, rfl⟩ := plan_eq_ok_iff.mp planned
  decide

end Layout

end SlabAllocator
