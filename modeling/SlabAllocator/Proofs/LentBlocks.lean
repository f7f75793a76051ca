import SlabAllocator.Proofs.LiveBlocks

namespace SlabAllocator

namespace Geometry

/-- The chunks of a page that callers hold, in their order. -/
def heldChunks (g : Geometry) (c : Carving) (taken : ChunkSet) : List Nat :=
  (List.range' (g.recordReserved c) (g.chunks c.shift - g.recordReserved c)).filter taken.has

variable {g : Geometry} {c : Carving} {taken : ChunkSet} {k : Nat}

theorem Fits.mem_heldChunks (fits : g.Fits c taken) :
    k ∈ g.heldChunks c taken ↔ g.recordReserved c ≤ k ∧ taken.has k = true := by
  rw [heldChunks, List.mem_filter, List.mem_range'_1]
  constructor
  · rintro ⟨⟨caller, _⟩, has⟩
    exact ⟨caller, has⟩
  · rintro ⟨caller, has⟩
    have chunk := fits.within k has
    exact ⟨⟨caller, by omega⟩, has⟩

theorem nodup_heldChunks (g : Geometry) (c : Carving) (taken : ChunkSet) :
    (g.heldChunks c taken).Nodup :=
  List.Nodup.filter _ List.nodup_range'

/-- A record counts the chunks that callers hold and those that hold it. -/
theorem Fits.card_eq (fits : g.Fits c taken) (cls : g.IsClass c) (valid : g.Valid) :
    taken.card = g.recordReserved c + (g.heldChunks c taken).length := by
  have room := cls.reserved_add_two_le valid
  have bits := cls.chunks_le valid
  obtain ⟨held, chunks⟩ := Nat.exists_eq_add_of_le (show g.recordReserved c ≤ g.chunks c.shift by omega)
  obtain ⟨beyond, capacity⟩ := Nat.exists_eq_add_of_le bits
  have first : (List.range (g.recordReserved c)).countP taken.has = g.recordReserved c := by
    rw [List.countP_eq_length.mpr fun k member => fits.reserved k (List.mem_range.mp member),
      List.length_range]
  have last : ((List.range beyond).map (g.chunks c.shift + ·)).countP taken.has = 0 := by
    rw [List.countP_eq_zero]
    intro k member has
    obtain ⟨j, _, rfl⟩ := List.mem_map.mp member
    have := fits.within _ has
    omega
  rw [ChunkSet.card_eq_countP, fits.capacity_eq, capacity, List.range_add, List.countP_append, last,
    Nat.add_zero, heldChunks, ← List.countP_eq_length_filter, chunks, List.range_add,
    List.countP_append, first, Nat.add_sub_cancel_left, List.range'_eq_map_range]

end Geometry

/-- The blocks that start in page `i`, each with its address and its size. -/
def Use.blocks (r : Region) (i : Nat) : Use → List (Nat × Nat)
  | .run n => [(r.pageAddress i, n * r.pageSize)]
  | .slab c taken =>
    (r.geometry.heldChunks c taken).map fun k => (r.chunkAddress c.shift i k, 2 ^ c.shift)
  | .free _ | .interior => []

/-- All blocks that the pool lends out. -/
def PageMap.blocks (r : Region) (t : PageMap) : List (Nat × Nat) :=
  (List.range r.pageCount).flatMap fun i => (t.use i).blocks r i

namespace PageMap.Sound

variable {r : Region} {t : PageMap} {i p n : Nat}

theorem mem_use_blocks (sound : t.Sound r) (within : i < r.pageCount) :
    (p, n) ∈ (t.use i).blocks r i ↔
      ∃ offset, p = r.pageAddress i + offset ∧ (t.use i).Lends r.geometry offset n := by
  cases use : t.use i with
  | free k => exact iff_of_false List.not_mem_nil fun ⟨_, _, lends⟩ => lends
  | interior => exact iff_of_false List.not_mem_nil fun ⟨_, _, lends⟩ => lends
  | run k =>
    have positive := sound.run_positive within use
    rw [Use.blocks, List.mem_singleton, Prod.mk.injEq]
    constructor
    · rintro ⟨rfl, rfl⟩
      exact ⟨0, rfl, positive, rfl, rfl⟩
    · rintro ⟨_, rfl, _, rfl, rfl⟩
      exact ⟨rfl, rfl⟩
  | slab c taken =>
    obtain ⟨_, kept⟩ := sound.slab i within c taken use
    simp only [Use.blocks, List.mem_map, Prod.mk.injEq, kept.mem_heldChunks]
    constructor
    · rintro ⟨k, ⟨caller, has⟩, rfl, rfl⟩
      exact ⟨_, rfl, k, caller, has, rfl, rfl⟩
    · rintro ⟨_, rfl, k, caller, has, rfl, rfl⟩
      exact ⟨k, ⟨caller, has⟩, rfl, rfl⟩

theorem mem_blocks (sound : t.Sound r) : (p, n) ∈ t.blocks r ↔ t.Holds r p n := by
  simp only [blocks, List.mem_flatMap, List.mem_range, Holds]
  exact exists_congr fun i => and_congr_right fun within => sound.mem_use_blocks within

theorem nodup_blocks (sound : t.Sound r) : (t.blocks r).Nodup := by
  refine List.nodup_flatMap.mpr ⟨fun i member => ?_, ?_⟩
  · have within := List.mem_range.mp member
    cases t.use i with
    | free k => exact List.nodup_nil
    | interior => exact List.nodup_nil
    | run k => exact List.nodup_singleton _
    | slab c taken =>
      refine (Geometry.nodup_heldChunks _ _ _).map fun k l same => ?_
      have address : r.pageAddress i + k * 2 ^ c.shift = r.pageAddress i + l * 2 ^ c.shift :=
        congrArg Prod.fst same
      exact Nat.eq_of_mul_eq_mul_right (Nat.two_pow_pos _) (Nat.add_left_cancel address)
  -- A block starts in one page only.
  · refine List.nodup_range.imp_of_mem fun {i j} one two different => ?_
    rintro ⟨p, n⟩ here there
    have within := List.mem_range.mp one
    have inside := List.mem_range.mp two
    obtain ⟨offset, rfl, lends⟩ := (sound.mem_use_blocks within).mp here
    obtain ⟨other, same, also⟩ := (sound.mem_use_blocks inside).mp there
    exact different
      (r.pageAddress_inj same (sound.offset_lt within lends) (sound.offset_lt inside also)).1

end PageMap.Sound

/-- The blocks in use are those that the pool lends out, each of them once. -/
theorem PageMap.Matches.perm {r : Region} {t : PageMap} {live : List Block}
    (fits : t.Matches r live) (sound : t.Sound r) :
    (live.map fun b => (b.address, r.geometry.blockSize b.size)).Perm (t.blocks r) := by
  have distinct : (live.map fun b => (b.address, r.geometry.blockSize b.size)).Nodup := by
    refine List.Nodup.of_map Prod.fst ?_
    rw [List.map_map]
    exact fits.distinct
  refine (List.perm_ext_iff_of_nodup distinct sound.nodup_blocks).mpr ?_
  rintro ⟨p, n⟩
  simp only [sound.mem_blocks, fits.holds, List.mem_map, Prod.mk.injEq]

end SlabAllocator
