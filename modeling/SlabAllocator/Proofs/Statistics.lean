import Mathlib.Data.List.Dedup
import SlabAllocator.Proofs.Counting
import SlabAllocator.Proofs.Releases

namespace SlabAllocator

/-- The page that an address lies in. -/
def Region.pageOf (r : Region) (p : Nat) : Nat := (p - r.start) / r.pageSize

namespace PoolState

variable (r : Region) (s : PoolState)

/-- The pages of the large blocks in use. -/
def runPages : Nat :=
  ((s.live.filter fun b => r.geometry.maxSize ≤ b.size).map fun b =>
    (b.size + r.pageSize - 1) / r.pageSize).sum

/-- The blocks in use that the size class in a slot serves. -/
def blocksOf (slot : Nat) : List Block :=
  s.live.filter fun b => b.size < r.geometry.maxSize ∧
    r.geometry.slotOf (r.geometry.shiftFor b.size) = slot

/-- The pages that these blocks lie in. -/
def pagesOf (slot : Nat) : List Nat :=
  ((s.blocksOf r slot).map fun b => r.pageOf b.address).dedup

/-- A page of the class has a chunk that some caller could still receive. -/
def HasFreeChunk (slot i : Nat) : Prop :=
  ∃ k < r.geometry.chunks (r.geometry.minShift + slot),
    r.geometry.reservedChunks (r.geometry.minShift + slot) ≤ k ∧
      r.chunkAddress (r.geometry.minShift + slot) i k ∉ s.live.map Block.address

instance (slot i : Nat) : Decidable (s.HasFreeChunk r slot i) :=
  inferInstanceAs (Decidable (∃ k < _, _ ∧ _))

/-- What the blocks in use make of the size class in a slot. -/
def slotAccount (slot : Nat) : SlotUsage where
  chunkSize := 2 ^ (r.geometry.minShift + slot)
  pages := (s.pagesOf r slot).length
  candidates := ((s.pagesOf r slot).filter fun i => s.HasFreeChunk r slot i).length
  used := (s.blocksOf r slot).length
  capacity := (s.pagesOf r slot).length * r.geometry.usableChunks (r.geometry.minShift + slot)

/-- What the blocks in use and the free runs between them come to. -/
def account (segments : List Segment) : Usage where
  pageSize := r.pageSize
  pages := r.pageCount
  freePages := (freeLengths segments).sum
  freeRuns := (freeLengths segments).length
  largestFreeRun := (freeLengths segments).foldl max 0
  runPages := s.runPages r
  slots := (List.range r.slotCount).map (s.slotAccount r)

end PoolState

namespace PageMap

variable {r : Region} {t : PageMap} {live : List Block} {i : Nat}

/-- What the blocks in use sum up to, the pages do. -/
theorem Matches.sum_eq {F : Nat × Nat → Nat} {f : Use → Nat} (fits : t.Matches r live)
    (sound : t.Sound r)
    (same : ∀ i < r.pageCount, (((t.use i).blocks r i).map F).sum = f (t.use i)) :
    (live.map fun b => F (b.address, r.geometry.blockSize b.size)).sum = t.total r.pageCount f := by
  have perm := ((fits.perm sound).map F).sum_nat
  rw [List.map_map] at perm
  refine perm.trans ?_
  rw [blocks, List.map_flatMap, List.flatMap_def, List.sum_flatten, List.map_map, total]
  exact congrArg List.sum (List.map_congr_left fun i member => same i (List.mem_range.mp member))

end PageMap

theorem Region.pageOf_eq (r : Region) {i offset : Nat} (inside : offset < r.pageSize) :
    r.pageOf (r.pageAddress i + offset) = i := by
  have place : r.pageAddress i + offset - r.start = offset + i * r.pageSize := by
    rw [pageAddress]
    omega
  have positive : 0 < r.pageSize := Nat.two_pow_pos _
  rw [pageOf, place, Nat.add_mul_div_right _ _ positive, Nat.div_eq_of_lt inside, Nat.zero_add]

namespace PoolState

variable {r : Region} {s : PoolState} {t : PageMap} {slot : Nat}

theorem runPages_eq (fits : t.Matches r s.live) (sound : t.Sound r) :
    s.runPages r = t.total r.pageCount Use.runPages := by
  have positive : 0 < r.pageSize := Nat.two_pow_pos _
  let F : Nat × Nat → Nat := fun b => if r.pageSize ≤ b.2 then b.2 / r.pageSize else 0
  rw [runPages, sum_map_filter, ← fits.sum_eq (F := F) sound]
  · refine congrArg List.sum (List.map_congr_left fun b _ => ?_)
    by_cases large : r.geometry.maxSize ≤ b.size
    · have long : r.pageSize ≤ r.geometry.blockSize b.size :=
        Geometry.pageSize_le_blockSize r.valid large
      simp only [F, if_pos large, if_pos long]
      rw [Geometry.blockSize_pages large, Geometry.pagesFor_eq]
      exact (Nat.mul_div_cancel _ positive).symm
    · have short : r.geometry.blockSize b.size < r.pageSize :=
        Geometry.blockSize_lt r.valid (by omega)
      simp only [F, if_neg large, if_neg (Nat.not_le.mpr short)]
  · intro i within
    cases use : t.use i with
    | free n => rfl
    | interior => rfl
    | run n =>
      have some := sound.run_positive within use
      have long : r.pageSize ≤ n * r.pageSize := Nat.le_mul_of_pos_left _ some
      simp only [Use.blocks, List.map_singleton, List.sum_singleton, F, if_pos long, Use.runPages]
      exact Nat.mul_div_cancel _ positive
    | slab c taken =>
      obtain ⟨cls, _⟩ := sound.slab i within c taken use
      have short : 2 ^ c.shift < r.pageSize := Nat.pow_lt_pow_right (by decide) cls.2.2
      simp only [Use.blocks, List.map_map, F, Function.comp_def, if_neg (Nat.not_le.mpr short),
        List.sum_map_zero, Use.runPages]

theorem length_blocksOf (fits : t.Matches r s.live) (sound : t.Sound r) (known : slot < r.slotCount) :
    (s.blocksOf r slot).length = t.total r.pageCount (Use.held r.geometry slot) := by
  rw [Region.slotCount_eq] at known
  let F : Nat × Nat → Nat := fun b => if b.2 = 2 ^ (r.geometry.minShift + slot) then 1 else 0
  rw [blocksOf, length_filter, ← fits.sum_eq (F := F) sound]
  · refine congrArg List.sum (List.map_congr_left fun b _ => ?_)
    simp only [F, Geometry.blockSize_eq_iff r.valid known]
  · intro i within
    cases use : t.use i with
    | free n => rfl
    | interior => rfl
    | run n =>
      have some := sound.run_positive within use
      have long : r.pageSize ≤ n * r.pageSize := Nat.le_mul_of_pos_left _ some
      have less : 2 ^ (r.geometry.minShift + slot) < r.pageSize := by
        unfold Geometry.slotCount at known
        exact Nat.pow_lt_pow_right (by decide) (by omega)
      simp only [Use.blocks, List.map_singleton, List.sum_singleton, F, Use.held]
      exact if_neg (by omega)
    | slab c taken =>
      obtain ⟨⟨_, least, _⟩, _⟩ := sound.slab i within c taken use
      have same : 2 ^ c.shift = 2 ^ (r.geometry.minShift + slot) ↔
          r.geometry.slotOf c.shift = slot := by
        rw [Nat.pow_right_inj (by decide), Geometry.slotOf]
        omega
      simp only [Use.blocks, List.map_map, F, Function.comp_def, same, Use.held, List.map_const',
        List.sum_const_nat]
      split
      · exact Nat.mul_one _
      · exact Nat.mul_zero _

/-- The pages that blocks of a class lie in are those that are cut for it. -/
theorem mem_pagesOf (fits : t.Matches r s.live) (sound : t.Sound r) (known : slot < r.slotCount)
    {i : Nat} : i ∈ s.pagesOf r slot ↔ i < r.pageCount ∧
      ∃ c taken, t.use i = .slab c taken ∧ r.geometry.slotOf c.shift = slot := by
  rw [Region.slotCount_eq] at known
  simp only [pagesOf, blocksOf, List.mem_dedup, List.mem_map, List.mem_filter, decide_eq_true_eq,
    ← Geometry.blockSize_eq_iff r.valid known]
  constructor
  · rintro ⟨b, ⟨listed, size⟩, rfl⟩
    obtain ⟨small, _⟩ := (Geometry.blockSize_eq_iff r.valid known).mp size
    obtain ⟨i, within, c, taken, k, slab, _, has, address, bytes⟩ := fits.chunk listed small
    obtain ⟨cls, kept⟩ := sound.slab i within c taken slab
    have shift := Nat.pow_right_injective (Nat.le_refl 2) (bytes.symm.trans size)
    rw [address, Region.chunkAddress, r.pageOf_eq (cls.chunk_lt (kept.within k has))]
    exact ⟨within, c, taken, slab, by rw [Geometry.slotOf]; omega⟩
  -- Some caller holds a chunk of the page.
  · rintro ⟨within, c, taken, slab, place⟩
    obtain ⟨cls, kept⟩ := sound.slab i within c taken slab
    obtain ⟨k, caller, has⟩ := kept.used
    have lends : (t.use i).Lends r.geometry (k * 2 ^ c.shift) (2 ^ c.shift) := by
      rw [slab]
      exact ⟨k, caller, has, rfl, rfl⟩
    obtain ⟨b, listed, address, size⟩ := (fits.holds _ _).mp ⟨i, within, _, rfl, lends⟩
    have shift : r.geometry.minShift + slot = c.shift := by
      rw [← place]
      exact Nat.add_sub_cancel' cls.2.1
    refine ⟨b, ⟨listed, by rw [size, shift]⟩, ?_⟩
    rw [address, r.pageOf_eq (cls.chunk_lt (kept.within k has))]

theorem nodup_pagesOf (r : Region) (s : PoolState) (slot : Nat) : (s.pagesOf r slot).Nodup :=
  List.nodup_dedup _

theorem length_pagesOf (fits : t.Matches r s.live) (sound : t.Sound r) (known : slot < r.slotCount) :
    (s.pagesOf r slot).length = t.total r.pageCount (Use.slabs r.geometry slot) := by
  have perm : (s.pagesOf r slot).Perm
      ((List.range r.pageCount).filter fun i => (t.use i).slabs r.geometry slot = 1) := by
    refine (List.perm_ext_iff_of_nodup (nodup_pagesOf r s slot) (List.nodup_range.filter _)).mpr
      fun i => ?_
    rw [mem_pagesOf fits sound known, List.mem_filter, List.mem_range, decide_eq_true_eq,
      Use.slabs_eq_one_iff]
  rw [perm.length_eq, length_filter, PageMap.total]
  refine congrArg List.sum (List.map_congr_left fun i _ => ?_)
  have most := Use.slabs_le_one r.geometry slot (t.use i)
  split <;> omega

theorem hasFreeChunk_iff (fits : t.Matches r s.live) (sound : t.Sound r) {i : Nat} {c : Carving}
    {taken : ChunkSet} (within : i < r.pageCount) (slab : t.use i = .slab c taken)
    (place : r.geometry.slotOf c.shift = slot) :
    s.HasFreeChunk r slot i ↔ taken ≠ r.geometry.fullRecord c := by
  obtain ⟨cls, kept⟩ := sound.slab i within c taken slab
  have shift : r.geometry.minShift + slot = c.shift := by
    rw [← place]
    exact Nat.add_sub_cancel' cls.2.1
  have idle : ∀ k < r.geometry.chunks c.shift, r.geometry.recordReserved c ≤ k →
      (r.chunkAddress c.shift i k ∈ s.live.map Block.address ↔ taken.has k = true) := by
    intro k chunk caller
    rw [List.mem_map]
    refine (isLive_iff fits sound within (cls.chunk_lt chunk)).trans ?_
    rw [slab]
    constructor
    · rintro ⟨_, l, _, has, same, _⟩
      rwa [Nat.eq_of_mul_eq_mul_right (Nat.two_pow_pos _) same]
    · exact fun has => ⟨_, k, caller, has, rfl, rfl⟩
  rw [HasFreeChunk, shift, ← cls.recordReserved_eq r.valid, Ne, kept.eq_full_iff cls r.valid]
  constructor
  · rintro ⟨k, chunk, caller, free⟩ every
    exact free ((idle k chunk caller).mpr (every k chunk))
  · intro room
    push Not at room
    obtain ⟨k, chunk, missing⟩ := room
    have caller : r.geometry.recordReserved c ≤ k := by
      by_contra below
      exact missing (kept.reserved k (by omega))
    exact ⟨k, chunk, caller, fun live => missing ((idle k chunk caller).mp live)⟩

/-- The pages of a class that can serve another request are those on its list. -/
theorem length_candidates (fits : t.Matches r s.live) (sound : t.Sound r) (known : slot < r.slotCount)
    (distinct : (t.lists (.slot slot)).Nodup) :
    ((s.pagesOf r slot).filter fun i => s.HasFreeChunk r slot i).length =
      (t.lists (.slot slot)).length := by
  refine List.Perm.length_eq ?_
  refine (List.perm_ext_iff_of_nodup ((nodup_pagesOf r s slot).filter _) distinct).mpr fun i => ?_
  rw [List.mem_filter, mem_pagesOf fits sound known, decide_eq_true_eq, sound.slot slot known]
  constructor
  · rintro ⟨⟨within, c, taken, slab, place⟩, room⟩
    exact ⟨within, c, taken, slab, place, (hasFreeChunk_iff fits sound within slab place).mp room⟩
  · rintro ⟨within, c, taken, slab, place, room⟩
    exact ⟨⟨within, c, taken, slab, place⟩, (hasFreeChunk_iff fits sound within slab place).mpr room⟩

/-- The count of the pool is the account of the blocks in use. -/
theorem usage_eq_account {segments : List Segment} (fits : t.Matches r s.live)
    (shows_ : r.Shows s.memory t) (sound : t.Sound r) (split : r.Split s.memory 0 segments) :
    r.usage s.memory = .ok (s.account r segments) := by
  have perm := shows_.freeLengths_perm sound split
  rw [shows_.usage_eq sound rfl]
  refine congrArg Except.ok ?_
  rw [account, runPages_eq fits sound, ← perm.sum_nat, ← perm.length_eq, ← perm.foldl_eq 0]
  congr 1
  refine List.map_congr_left fun slot member => ?_
  have known := List.mem_range.mp member
  rw [Region.slotUsageOf, slotAccount, length_pagesOf fits sound known,
    length_blocksOf fits sound known,
    length_candidates fits sound known (shows_.linked.distinct (.slot slot) known)]

end PoolState

namespace PoolState

variable {r : Region} {s : PoolState}

/-- The account is the count, and every page is in it once. -/
theorem Invariant.account_exact (inv : s.Invariant r) : ∃ segments, r.Split s.memory 0 segments ∧
    r.usage s.memory = .ok (s.account r segments) ∧
    (s.account r segments).freePages + (s.account r segments).runPages +
      ((s.account r segments).slots.map SlotUsage.pages).sum = r.pageCount := by
  obtain ⟨t, shows_, sound, fits⟩ := inv
  obtain ⟨segments, split⟩ := shows_.split sound (Nat.zero_add _) nofun
  refine ⟨segments, split, usage_eq_account fits shows_ sound split, ?_⟩
  have slots : (s.account r segments).slots.map SlotUsage.pages =
      (List.range r.slotCount).map fun k => t.total r.pageCount (Use.slabs r.geometry k) := by
    rw [account, List.map_map]
    exact List.map_congr_left fun k member =>
      length_pagesOf fits sound (List.mem_range.mp member)
  rw [slots, account, runPages_eq fits sound]
  exact sound.total_eq shows_ split

/-- Where no block is in use, no page is cut for a class. -/
theorem account_nil (r : Region) (m : Memory) (segments : List Segment) :
    ∀ slot ∈ (account r ⟨m, []⟩ segments).slots,
      slot.pages = 0 ∧ slot.used = 0 ∧ slot.candidates = 0 := by
  intro slot member
  obtain ⟨k, _, rfl⟩ := List.mem_map.mp member
  exact ⟨rfl, rfl, rfl⟩

theorem Invariant.members_nil {m : Memory} (inv : Invariant r ⟨m, []⟩) {slot : Nat}
    (known : slot < r.slotCount) : r.members (.slot slot) m = .ok [] := by
  obtain ⟨t, shows_, sound, fits⟩ := inv
  have none := length_candidates fits sound known (shows_.linked.distinct (.slot slot) known)
  have listed : r.HasList (.slot slot) := known
  rw [shows_.linked.members_eq listed, List.length_eq_zero_iff.mp none.symm]

end PoolState

/-- The address of a block in use is accepted, and that block is no longer in
use. -/
theorem Reachable.release_live {pool : Pool} {s : PoolState} {p : Nat}
    (reached : Reachable pool.region s) (live : s.IsLive p) :
    ∃ after, pool.perform s (.release p) = .ok ⟨after, s.live.filter fun b => b.address ≠ p⟩ := by
  obtain ⟨t, shows_, sound, fits⟩ := reached.invariant
  have inside := PoolState.contains_of_place shows_ sound fits (Or.inl live)
  obtain ⟨i, within, offset, small, rfl, run⟩ := Pool.release_inside (m := s.memory) inside
  obtain ⟨after, ran, _⟩ := Pool.releaseIn_cases shows_ sound within small
  have taken := (Use.verdict_ok_iff fun n => sound.run_positive within).mpr
    ((PoolState.isLive_iff fits sound within small).mp live)
  refine ⟨after, ?_⟩
  rw [Pool.perform, run, ran, taken]
  rfl

/-- The blocks in use may be handed back in any order. -/
theorem Reachable.release_all {pool : Pool} {s : PoolState} {order : List Nat}
    (reached : Reachable pool.region s) (all : order.Perm (s.live.map Block.address)) :
    ∃ m, order.foldlM (fun s p => pool.perform s (.release p)) s = .ok ⟨m, []⟩ ∧
      Reachable pool.region ⟨m, []⟩ := by
  induction order generalizing s with
  | nil =>
    obtain ⟨m, live⟩ := s
    obtain rfl := List.map_eq_nil_iff.mp all.nil_eq.symm
    exact ⟨m, rfl, reached⟩
  | cons p rest ih =>
    have live : s.IsLive p := List.mem_map.mp (all.mem_iff.mp List.mem_cons_self)
    obtain ⟨between, run⟩ := reached.release_live live
    obtain ⟨t, _, _, fits⟩ := reached.invariant
    have left : rest.Perm ((s.live.filter fun b => b.address ≠ p).map Block.address) := by
      have less := all.erase p
      rw [List.erase_cons_head, fits.distinct.erase_eq_filter, List.filter_map] at less
      refine less.trans (List.Perm.of_eq (congrArg _ (List.filter_congr fun b _ => ?_)))
      simp [bne, BEq.beq]
    obtain ⟨m, ran, there⟩ := ih (reached.call rfl (c := .release p) trivial run) left
    exact ⟨m, by rw [List.foldlM_cons, run, ok_bind, ran], there⟩

/-- In every state that can be reached, the count of a pool is the account of
the blocks in use, and every page is counted once. Once all blocks were handed
back, in any order, all pages are free and no page is left on the lists of the
classes. -/
theorem Reachable.usage_exact {pool : Pool} {s : PoolState} (reached : Reachable pool.region s) :
    (∃ segments, pool.region.Split s.memory 0 segments ∧
      pool.region.usage s.memory = .ok (s.account pool.region segments) ∧
      (s.account pool.region segments).freePages + (s.account pool.region segments).runPages +
        ((s.account pool.region segments).slots.map SlotUsage.pages).sum =
          pool.region.pageCount) ∧
    ∀ order : List Nat, order.Perm (s.live.map Block.address) →
      ∃ after u, order.foldlM (fun s p => pool.perform s (.release p)) s = .ok after ∧
        after.live = [] ∧ pool.region.usage after.memory = .ok u ∧
        u.freePages = pool.region.pageCount ∧
        (∀ slot < pool.region.slotCount, pool.region.members (.slot slot) after.memory = .ok []) ∧
        ∀ slot ∈ u.slots, slot.used = 0 ∧ slot.candidates = 0 := by
  refine ⟨reached.invariant.account_exact, fun order all => ?_⟩
  obtain ⟨m, ran, there⟩ := reached.release_all all
  obtain ⟨segments, _, usage, sum⟩ := there.invariant.account_exact
  have none := PoolState.account_nil pool.region m segments
  have slots : ((PoolState.account pool.region ⟨m, []⟩ segments).slots.map SlotUsage.pages).sum = 0 :=
    List.sum_eq_zero fun x member => by
      obtain ⟨slot, listed, rfl⟩ := List.mem_map.mp member
      exact (none slot listed).1
  refine ⟨⟨m, []⟩, _, ran, rfl, usage, ?_, fun slot known => there.invariant.members_nil known,
    fun slot member => (none slot member).2⟩
  rwa [slots] at sum

theorem usage_exact_two_blocks : ∃ (pool : Pool) (s : PoolState),
    s.live = [⟨6144, 1500⟩, ⟨5136, 5⟩] ∧
      (∃ u, pool.region.usage s.memory = .ok u ∧ u.runPages = 2) ∧
      ∃ after u, [5136, 6144].foldlM (fun s p => pool.perform s (.release p)) s = .ok after ∧
        pool.region.usage after.memory = .ok u ∧ u.freePages = 3 := by
  obtain ⟨pool, m, s, created, ran, geometry, live, reached⟩ := reachable_two_blocks
  obtain ⟨⟨segments, _, usage, _⟩, free⟩ := reached.usage_exact
  refine ⟨pool, s, live, ⟨_, usage, ?_⟩, ?_⟩
  · change s.runPages pool.region = 2
    rw [PoolState.runPages, live, Region.pageSize, geometry]
    decide
  · have pages := twoBlocks_eq created ran (fun pool _ => .ok pool.region.pageCount) 3
      (by decide +kernel)
    have order : [5136, 6144].Perm (s.live.map Block.address) := by
      rw [live]
      exact List.Perm.swap ..
    obtain ⟨after, u, run, _, count, all, _⟩ := free [5136, 6144] order
    exact ⟨after, u, run, count, all.trans (Except.ok.inj pages)⟩

end SlabAllocator
