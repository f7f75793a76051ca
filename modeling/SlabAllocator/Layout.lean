import SlabAllocator.Error
import SlabAllocator.Geometry

namespace SlabAllocator

/-- Where the parts of a region lie, as offsets from its base. The header
comes first, then one list head for each size class, one descriptor for each
page, and at a page boundary the pages. -/
structure Layout where
  slotsAt : Nat
  slotCount : Nat
  descriptorsAt : Nat
  pageCount : Nat
  dataAt : Nat
  length : Nat
  deriving DecidableEq, Repr

namespace Layout

def headerSize : Nat := 64

/-- The alignment of the header and of the descriptors. -/
def tableAlign : Nat := 8

/-- The bytes of a list head: one link. -/
def headSize : Nat := 4

/-- The bytes from one descriptor to the next; a descriptor uses the first 20. -/
def descriptorSize : Nat := 24

/-- The number of pages that page links can tell apart. -/
def maxPages : Nat := 2 ^ 32 - 2

/-- The offset of the descriptors: behind the header and the list heads. -/
def descriptorsOffset (g : Geometry) : Nat :=
  alignUp (headerSize + g.slotCount * headSize) tableAlign

/-- The pages that the rest of the span can hold together with their
descriptors, before the first page is moved to a page boundary. -/
def wantedPages (length : Nat) (g : Geometry) : Nat :=
  min ((length - descriptorsOffset g) / (g.pageSize + descriptorSize)) maxPages

/-- The address of the first page boundary behind the descriptors of the wanted
pages. -/
def dataStart (base length : Nat) (g : Geometry) : Nat :=
  alignUp (base + descriptorsOffset g + wantedPages length g * descriptorSize) g.pageSize

/-- The whole pages between the start of the data and the end of the span. -/
def fittingPages (base length : Nat) (g : Geometry) : Nat :=
  (base + length - dataStart base length g) / g.pageSize

/-- Lays a region out over a span. When the step to the page boundary pushes
the last of the wanted pages past the end, they are given up. -/
def plan (base length : Nat) (g : Geometry) : Except SetupError Layout :=
  if base % tableAlign ≠ 0 then
    .error (.misalignedSpan base tableAlign)
  else if length < descriptorsOffset g then
    .error (.spanTooSmall length (descriptorsOffset g))
  else
    .ok {
      slotsAt := headerSize
      slotCount := g.slotCount
      descriptorsAt := descriptorsOffset g
      pageCount := min (wantedPages length g) (fittingPages base length g)
      dataAt := dataStart base length g - base
      length }

theorem heads_le_descriptorsOffset (g : Geometry) :
    headerSize + g.slotCount * headSize ≤ descriptorsOffset g :=
  le_alignUp _ (by decide)

/-- A span is laid out exactly when its base is aligned and it holds the header
and the list heads; the layout is then fixed. -/
theorem plan_eq_ok_iff {base length : Nat} {g : Geometry} {layout : Layout} :
    plan base length g = .ok layout ↔
      base % tableAlign = 0 ∧ descriptorsOffset g ≤ length ∧
        layout = {
          slotsAt := headerSize
          slotCount := g.slotCount
          descriptorsAt := descriptorsOffset g
          pageCount := min (wantedPages length g) (fittingPages base length g)
          dataAt := dataStart base length g - base
          length } := by
  unfold plan
  split
  · rename_i misaligned
    simp [misaligned]
  · rename_i aligned
    split
    · rename_i short
      simp only [reduceCtorEq, false_iff, not_and]
      omega
    · rename_i long
      simp only [Except.ok.injEq]
      constructor
      · rintro rfl
        exact ⟨by omega, by omega, rfl⟩
      · rintro ⟨_, _, rfl⟩
        rfl

/-- The wanted pages and their descriptors fit the span when no byte is lost
between them. -/
theorem wantedPages_mul_le (length : Nat) (g : Geometry) :
    wantedPages length g * (g.pageSize + descriptorSize) ≤ length - descriptorsOffset g :=
  Nat.le_trans (Nat.mul_le_mul_right _ (Nat.min_le_left ..)) (Nat.div_mul_le_self ..)

theorem base_le_dataStart (base length : Nat) (g : Geometry) : base ≤ dataStart base length g := by
  have := le_alignUp (base + descriptorsOffset g + wantedPages length g * descriptorSize)
    (Nat.two_pow_pos g.pageShift)
  unfold dataStart Geometry.pageSize
  omega

section

variable {base length : Nat} {g : Geometry} {layout : Layout}

theorem heads_fit (planned : plan base length g = .ok layout) :
    layout.slotsAt + layout.slotCount * headSize ≤ layout.descriptorsAt := by
  obtain ⟨_, _, rfl⟩ := plan_eq_ok_iff.mp planned
  exact heads_le_descriptorsOffset g

theorem descriptors_fit (planned : plan base length g = .ok layout) :
    layout.descriptorsAt + layout.pageCount * descriptorSize ≤ layout.dataAt := by
  obtain ⟨_, _, rfl⟩ := plan_eq_ok_iff.mp planned
  have reach := le_alignUp (base + descriptorsOffset g + wantedPages length g * descriptorSize)
    (Nat.two_pow_pos g.pageShift)
  have fewer : min (wantedPages length g) (fittingPages base length g) * descriptorSize ≤
      wantedPages length g * descriptorSize := Nat.mul_le_mul_right _ (Nat.min_le_left ..)
  dsimp only
  unfold dataStart Geometry.pageSize
  omega

theorem base_add_dataAt (planned : plan base length g = .ok layout) :
    base + layout.dataAt = dataStart base length g := by
  obtain ⟨_, _, rfl⟩ := plan_eq_ok_iff.mp planned
  have := base_le_dataStart base length g
  dsimp only
  omega

theorem data_aligned (planned : plan base length g = .ok layout) :
    g.pageSize ∣ base + layout.dataAt := by
  rw [base_add_dataAt planned]
  exact dvd_alignUp _ _

theorem pages_fit (planned : plan base length g = .ok layout) (nonempty : 0 < layout.pageCount) :
    layout.dataAt + layout.pageCount * g.pageSize ≤ length := by
  have start := base_add_dataAt planned
  obtain ⟨_, _, rfl⟩ := plan_eq_ok_iff.mp planned
  dsimp only at start nonempty ⊢
  have fewer : min (wantedPages length g) (fittingPages base length g) * g.pageSize ≤
      fittingPages base length g * g.pageSize := Nat.mul_le_mul_right _ (Nat.min_le_right ..)
  have room : fittingPages base length g * g.pageSize ≤
      base + length - dataStart base length g := Nat.div_mul_le_self ..
  have positive : 0 < min (wantedPages length g) (fittingPages base length g) * g.pageSize :=
    Nat.mul_pos nonempty (Nat.two_pow_pos _)
  omega

theorem pageCount_le (planned : plan base length g = .ok layout) :
    layout.pageCount ≤ maxPages := by
  obtain ⟨_, _, rfl⟩ := plan_eq_ok_iff.mp planned
  exact Nat.le_trans (Nat.min_le_left ..) (Nat.min_le_right ..)

end

end Layout

end SlabAllocator
