import SlabAllocator.Proofs.WellFormed

namespace SlabAllocator

/-- The block does not share a byte with the `length` bytes from `a` on. -/
def Block.Clear (g : Geometry) (b : Block) (a length : Nat) : Prop :=
  b.address + g.blockSize b.size ≤ a ∨ a + length ≤ b.address

namespace Region

variable {r : Region}

theorem pageSize_dvd_pageAddress (r : Region) (i : Nat) : r.pageSize ∣ r.pageAddress i :=
  Nat.dvd_add (Layout.data_aligned r.planned) (Nat.dvd_mul_left _ _)

theorem two_pow_dvd_chunkAddress {c : Carving} (cls : r.geometry.IsClass c) (i k : Nat) :
    2 ^ c.shift ∣ r.chunkAddress c.shift i k := by
  have page : 2 ^ c.shift ∣ r.pageSize := Nat.pow_dvd_pow 2 (Nat.le_of_lt cls.2.2)
  exact Nat.dvd_add (Nat.dvd_trans page (r.pageSize_dvd_pageAddress i)) (Nat.dvd_mul_left _ _)

end Region

namespace PageMap.Matches

variable {r : Region} {t : PageMap} {live : List Block} {b : Block}

theorem lends (fits : t.Matches r live) (listed : b ∈ live) :
    t.Holds r b.address (r.geometry.blockSize b.size) :=
  (fits.holds _ _).mpr ⟨b, listed, rfl, rfl⟩

/-- A block of less than half a page is a chunk. -/
theorem chunk (fits : t.Matches r live) (listed : b ∈ live) (small : b.size < r.geometry.maxSize) :
    ∃ i < r.pageCount, ∃ c taken k, t.use i = .slab c taken ∧
      r.geometry.recordReserved c ≤ k ∧ taken.has k = true ∧
      b.address = r.chunkAddress c.shift i k ∧ r.geometry.blockSize b.size = 2 ^ c.shift := by
  obtain ⟨i, within, offset, address, lends⟩ := fits.lends listed
  have short := Geometry.blockSize_lt r.valid small
  cases use : t.use i with
  | free n =>
    rw [use] at lends
    cases lends
  | run n =>
    rw [use] at lends
    obtain ⟨some, _, size⟩ := lends
    have := Nat.le_mul_of_pos_left r.geometry.pageSize some
    omega
  | interior =>
    rw [use] at lends
    cases lends
  | slab c taken =>
    rw [use] at lends
    obtain ⟨k, caller, has, rfl, size⟩ := lends
    exact ⟨i, within, c, taken, k, use, caller, has, address, size⟩

/-- A block of half a page or more is a run of pages. -/
theorem run (fits : t.Matches r live) (sound : t.Sound r) (listed : b ∈ live)
    (large : r.geometry.maxSize ≤ b.size) :
    ∃ i < r.pageCount, ∃ n, t.use i = .run n ∧ b.address = r.pageAddress i ∧
      r.geometry.blockSize b.size = n * r.pageSize := by
  obtain ⟨i, within, offset, address, lends⟩ := fits.lends listed
  have long := Geometry.pageSize_le_blockSize r.valid large
  cases use : t.use i with
  | free n =>
    rw [use] at lends
    cases lends
  | run n =>
    rw [use] at lends
    obtain ⟨_, rfl, size⟩ := lends
    exact ⟨i, within, n, use, address, size⟩
  | interior =>
    rw [use] at lends
    cases lends
  | slab c taken =>
    rw [use] at lends
    obtain ⟨_, _, _, _, size⟩ := lends
    obtain ⟨cls, _⟩ := sound.slab i within c taken use
    have := Nat.pow_lt_pow_right (show 1 < 2 by decide) cls.2.2
    rw [size] at long
    exact absurd long (Nat.not_le.mpr this)

theorem disjoint (fits : t.Matches r live) (sound : t.Sound r) :
    live.Pairwise fun a b => a.Clear r.geometry b.address (r.geometry.blockSize b.size) := by
  have distinct : live.Pairwise fun a b => a.address ≠ b.address :=
    List.pairwise_map.mp fits.distinct
  refine distinct.imp_of_mem fun one two different => ?_
  exact sound.apart (fits.lends one) (fits.lends two) different

/-- No block in use overlaps the record that a page of small chunks holds. -/
theorem clear_of_small {m : Memory} {i shift : Nat} (fits : t.Matches r live) (sound : t.Sound r)
    (shows_ : r.Shows m t) (listed : b ∈ live) (within : i < r.pageCount)
    (small : (r.descriptor i m).role = .small shift) :
    b.Clear r.geometry (r.pageAddress i) (8 * r.geometry.bitmapWords shift) := by
  have carved : r.carvingOf? (r.descriptor i m).role = some ⟨.small, shift⟩ := by
    rw [small]
    rfl
  obtain ⟨taken, slab⟩ := (shows_.carvingOf?_iff sound within).mp carved
  obtain ⟨cls, kept⟩ := sound.slab i within _ taken slab
  have length : taken.words.length = r.geometry.bitmapWords shift := kept.length
  have holds := fits.lends listed
  -- The later of the two starts would be a byte of the block in the record.
  by_contra overlap
  simp only [Block.Clear, not_or, Nat.not_le] at overlap
  refine sound.not_inRow holds (Nat.le_max_right (r.pageAddress i) b.address) ?_
    ⟨i, within, Nat.le_max_left _ _, ?_⟩
  · have size : 0 < r.geometry.blockSize b.size := by
      obtain ⟨_, _, _, _, lends⟩ := holds
      exact lends.positive
    exact max_lt overlap.1 (by omega)
  · have room : _ + 2 ≤ r.geometry.chunks shift := cls.reserved_add_two_le r.valid
    have chunks : Word.width * r.geometry.bitmapWords shift = r.geometry.chunks shift :=
      cls.recordChunks_eq r.valid
    unfold Word.width at chunks
    rw [slab, Use.row_small taken rfl, length]
    exact max_lt (by omega) overlap.2

end PageMap.Matches

/-- In every state that can be reached, the blocks in use are large enough, lie
at multiples of their size or of the page size and within the pages, and overlap
neither each other nor a record that a page holds. -/
theorem Reachable.blocks_apart {r : Region} {s : PoolState} (reached : Reachable r s) :
    (∀ b ∈ s.live, b.size ≤ r.geometry.blockSize b.size ∧
      (if b.size < r.geometry.maxSize then r.geometry.blockSize b.size ∣ b.address
        else r.pageSize ∣ b.address) ∧
      r.start ≤ b.address ∧
      b.address + r.geometry.blockSize b.size ≤ r.start + r.pageCount * r.pageSize ∧
      ∀ i < r.pageCount, ∀ shift, (r.descriptor i s.memory).role = .small shift →
        b.Clear r.geometry (r.pageAddress i) (8 * r.geometry.bitmapWords shift)) ∧
    s.live.Pairwise fun a b => a.Clear r.geometry b.address (r.geometry.blockSize b.size) := by
  obtain ⟨t, shows_, sound, fits⟩ := reached.invariant
  refine ⟨fun b listed => ?_, fits.disjoint sound⟩
  have bounds := sound.bounds (fits.lends listed)
  refine ⟨Geometry.le_blockSize _ _, ?_, bounds.1, bounds.2, fun i within shift small =>
    fits.clear_of_small sound shows_ listed within small⟩
  split
  · rename_i small
    obtain ⟨i, within, c, taken, k, slab, _, _, address, size⟩ := fits.chunk listed small
    rw [address, size]
    exact Region.two_pow_dvd_chunkAddress (sound.slab i within c taken slab).1 i k
  · rename_i large
    obtain ⟨i, _, _, _, address, _⟩ := fits.run sound listed (Nat.le_of_not_lt large)
    rw [address]
    exact r.pageSize_dvd_pageAddress i

/-- A chunk of 8 bytes behind the record of its page, and a run of two pages. -/
theorem blocks_apart_two_blocks : ∃ (r : Region) (s : PoolState),
    s.live = [⟨6144, 1500⟩, ⟨5136, 5⟩] ∧
      (5 ≤ r.geometry.blockSize 5 ∧ r.geometry.blockSize 5 ∣ 5136 ∧ r.start ≤ 5136 ∧
        5136 + r.geometry.blockSize 5 ≤ r.start + r.pageCount * r.pageSize) ∧
      (1500 ≤ r.geometry.blockSize 1500 ∧ r.pageSize ∣ 6144 ∧ r.start ≤ 6144 ∧
        6144 + r.geometry.blockSize 1500 ≤ r.start + r.pageCount * r.pageSize) ∧
      (r.descriptor 0 s.memory).role = .small 3 ∧
      (∀ b ∈ s.live, b.Clear r.geometry (r.pageAddress 0) (8 * r.geometry.bitmapWords 3)) ∧
      s.live.Pairwise fun a b => a.Clear r.geometry b.address (r.geometry.blockSize b.size) := by
  obtain ⟨pool, m, s, created, ran, geometry, live, reached⟩ := reachable_two_blocks
  have first := twoBlocks_eq created ran
    (fun pool m => .ok (pool.region.pageCount, (pool.region.descriptor 0 m).role)) (3, .small 3)
    (by decide +kernel)
  obtain ⟨pages, small⟩ := Prod.mk.inj (Except.ok.inj first)
  obtain ⟨each, apart⟩ := reached.blocks_apart
  obtain ⟨chunkSize, chunkAligned, chunkLower, chunkUpper, _⟩ := each ⟨5136, 5⟩ (by simp [live])
  obtain ⟨runSize, runAligned, runLower, runUpper, _⟩ := each ⟨6144, 1500⟩ (by simp [live])
  rw [if_pos (by rw [geometry]; decide)] at chunkAligned
  rw [if_neg (by rw [geometry]; decide)] at runAligned
  exact ⟨pool.region, s, live, ⟨chunkSize, chunkAligned, chunkLower, chunkUpper⟩,
    ⟨runSize, runAligned, runLower, runUpper⟩, small,
    fun b listed => (each b listed).2.2.2.2 0 (by omega) 3 small, apart⟩

end SlabAllocator
