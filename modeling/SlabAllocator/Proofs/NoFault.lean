import SlabAllocator.Proofs.WidthOfUsage

namespace SlabAllocator

/-- The first page starts at most one page behind the end of the span, also when
there is none. -/
theorem Region.start_lt (r : Region) : r.start < r.finish + r.pageSize := by
  have start := Layout.base_add_dataAt r.planned
  obtain ⟨_, fits, _⟩ := Layout.plan_eq_ok_iff.mp r.planned
  have below := alignUp_lt (r.base + Layout.descriptorsOffset r.geometry +
    Layout.wantedPages r.length r.geometry * Layout.descriptorSize) (Nat.two_pow_pos r.geometry.pageShift)
  have wanted := Layout.wantedPages_mul_le r.length r.geometry
  rw [Nat.mul_add] at wanted
  unfold Layout.dataStart at start
  unfold Region.start Region.finish Region.pageSize
  unfold Geometry.pageSize at *
  omega

namespace PageMap

variable {r : Region} {t : PageMap} {p size : Nat}

/-- A block lies in the span. -/
theorem Holds.lt_finish (sound : t.Sound r) (holds : t.Holds r p size) : p < r.finish := by
  obtain ⟨i, within, offset, rfl, lends⟩ := holds
  have inside := sound.offset_lt within lends
  have reach := Region.pageAddress_le_finish within
  omega

end PageMap

/-- Every address that is answered lies in the span. -/
theorem Pool.place_lt {pool : Pool} {m after : Memory} {t : PageMap} {size p : Nat}
    (shows_ : pool.region.Shows m t) (sound : t.Sound pool.region)
    (run : pool.place size m = .ok (some p, after)) : p < pool.region.finish := by
  obtain ⟨found, _, next, ran, placed, _⟩ := place_placed shows_ sound size
  rw [run] at ran
  cases ran
  have holds := ((placed.gains sound).holds p _).mpr (Or.inr ⟨rfl, rfl⟩)
  exact holds.lt_finish (placed.sound sound shows_.linked.distinct)

/-- In every state that can be reached, each call comes to an answer in the
arithmetic of the machine, the same one as without a bound on its numbers: no
table is read or written beyond its end, no sum, difference or shift leaves its
width, no page number or slot is cut off, and all that a step relies on holds.
Every walk along a list visits each page at most once. -/
theorem Reachable.calls_in_width {pool : Pool} {s : PoolState} (reached : Reachable pool.region s)
    (room : pool.region.finish + pool.region.pageSize < 2 ^ 64) :
    pool.region.start < 2 ^ 64 ∧
    (∀ size < 2 ^ 64,
      (∃ answer, Machine.allocate pool size s.memory = .ok answer ∧
        pool.allocate size s.memory = .ok answer) ∧
      ∃ answer, Machine.allocateZeroed pool size s.memory = .ok answer ∧
        pool.allocateZeroed size s.memory = .ok answer) ∧
    (∀ p < 2 ^ 64, ∃ answer, Machine.release pool p s.memory = .ok answer ∧
      pool.release p s.memory = .ok answer) ∧
    (∃ usage, Machine.usage pool.region s.memory = .ok usage ∧
      pool.region.usage s.memory = .ok usage) ∧
    (∃ tables, Machine.snapshot pool.region s.memory = .ok tables ∧
      pool.region.snapshot s.memory = .ok tables) ∧
    ∀ list, pool.region.HasList list → ∃ pages, pool.region.Walks s.memory list pages := by
  have inv := reached.invariant
  obtain ⟨t, shows_, sound, _⟩ := reached.invariant
  have classed := shows_.classed sound
  have start := pool.region.start_lt
  -- The numbers of a request are bounded by its answer, which lies in the span.
  have placed : ∀ size < 2 ^ 64, Machine.place pool size s.memory = pool.place size s.memory :=
    fun size small => Machine.place_eq room classed small fun p after run => by
      have inside := Pool.place_lt shows_ sound run
      omega
  refine ⟨by omega, fun size small => ⟨?_, ?_⟩, fun p _ => ?_, ?_, ?_, fun list known => ?_⟩
  · obtain ⟨answer, after, run, _⟩ := PoolState.invariant_allocate inv size
    exact ⟨_, (Machine.allocate_eq (placed size small)).trans run, run⟩
  · obtain ⟨answer, after, run, _⟩ := PoolState.invariant_allocateZeroed inv size
    exact ⟨_, (Machine.allocateZeroed_eq (placed size small)).trans run, run⟩
  · obtain ⟨answer, after, run, _⟩ := PoolState.invariant_release inv p
    exact ⟨_, (Machine.release_eq room classed p).trans run, run⟩
  · have run := shows_.usage_eq sound rfl
    exact ⟨_, (Machine.usage_eq room shows_ sound).trans run, run⟩
  · have run : pool.region.snapshot s.memory = .ok ⟨t.lists .free,
        (List.range pool.region.slotCount).map fun k => t.lists (.slot k),
        (List.range pool.region.pageCount).map fun i => pool.region.descriptor i s.memory⟩ := by
      simp [Region.snapshot, shows_.linked.members_eq pool.region.hasList_free,
        shows_.slotMembers_eq]
    exact ⟨_, (Machine.snapshot_eq shows_).trans run, run⟩
  · exact ⟨_, shows_.linked.walks known⟩

theorem calls_in_width_two_blocks : ∃ (pool : Pool) (s : PoolState),
    s.live = [⟨6144, 1500⟩, ⟨5136, 5⟩] ∧
      (∃ after, Machine.allocate pool 5 s.memory = .ok (.ok 5144, after)) ∧
      (∃ after, Machine.release pool 6145 s.memory = .ok (.error .wrongChunk, after)) ∧
      ∃ pages, pool.region.Walks s.memory .free pages := by
  obtain ⟨pool, m, s, created, ran, geometry, live, reached⟩ := reachable_two_blocks
  have span := twoBlocks_eq created ran
    (fun pool _ => .ok (pool.region.finish + pool.region.pageSize)) 9216
    (by decide +kernel)
  have chunk := twoBlocks_eq created ran (fun pool m => (pool.allocate 5 m).map Prod.fst)
    (.ok 5144) (by decide +kernel)
  have refused := twoBlocks_eq created ran (fun pool m => (pool.release 6145 m).map Prod.fst)
    (.error .wrongChunk) (by decide +kernel)
  obtain ⟨_, allocates, releases, _, _, walks⟩ :=
    reached.calls_in_width (by rw [Except.ok.inj span]; decide)
  obtain ⟨⟨⟨answer, after⟩, machine, run⟩, _⟩ := allocates 5 (by decide)
  obtain ⟨⟨verdict, left⟩, machineBack, back⟩ := releases 6145 (by decide)
  rw [run] at chunk
  rw [back] at refused
  obtain rfl := Except.ok.inj chunk
  obtain rfl := Except.ok.inj refused
  exact ⟨pool, s, live, ⟨after, machine⟩, ⟨left, machineBack⟩, walks .free trivial⟩

end SlabAllocator
