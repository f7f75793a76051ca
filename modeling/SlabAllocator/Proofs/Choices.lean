import SlabAllocator.Proofs.Releases

namespace SlabAllocator

/-- A chunk of page `i`, which is cut as `c` says, that no caller holds and
that the page does not keep for its record. -/
def PoolState.Vacant (r : Region) (s : PoolState) (c : Carving) (i k : Nat) : Prop :=
  r.carvingOf? (r.descriptor i s.memory).role = some c ∧ r.geometry.recordReserved c ≤ k ∧
    k < r.geometry.chunks c.shift ∧ ¬s.IsLive (r.chunkAddress c.shift i k)

/-- Some page that is cut as `c` says has a vacant chunk. -/
def PoolState.HasVacant (r : Region) (s : PoolState) (c : Carving) : Prop :=
  ∃ i < r.pageCount, ∃ k, s.Vacant r c i k

namespace Region

/-- The free runs are the same, and in the same order. -/
def SameFreeRuns (r : Region) (m after : Memory) : Prop :=
  r.members .free after = r.members .free m ∧
    ∀ i < r.pageCount, ∀ n, r.Opens after i (.free n) ↔ r.Opens m i (.free n)

/-- Page `i` is no longer the first page of a free run of `n` pages. What is
left of that run stands in its place, before the free runs `rest`. -/
def LosesFirst (r : Region) (m after : Memory) (i n : Nat) (rest : List Nat) : Prop :=
  r.members .free after = .ok (if 1 < n then (i + 1) :: rest else rest) ∧
    ∀ j < r.pageCount, ∀ k, r.Opens after j (.free k) ↔
      (j = i + 1 ∧ 1 < n ∧ k = n - 1) ∨ (j ≠ i ∧ r.Opens m j (.free k))

variable {r : Region} {m after : Memory} {t next : PageMap} {i n : Nat}

theorem Shows.opens_free_iff (shows_ : r.Shows m t) (sound : t.Sound r) (within : i < r.pageCount) :
    r.Opens m i (.free n) ↔ 0 < n ∧ t.use i = .free n := by
  constructor
  · rintro ⟨positive, role, _⟩
    exact ⟨positive, (shows_.free_iff sound within n).mp role⟩
  · rintro ⟨positive, use⟩
    exact shows_.opens_free sound within use positive

theorem Shows.sameFreeRuns (shows_ : r.Shows m t) (sound : t.Sound r) (shown : r.Shows after next)
    (good : next.Sound r) (list : next.lists .free = t.lists .free)
    (use : ∀ i n, next.use i = .free n ↔ t.use i = .free n) : r.SameFreeRuns m after := by
  constructor
  · rw [shown.linked.members_eq r.hasList_free, list, shows_.linked.members_eq r.hasList_free]
  · intro i within n
    rw [shown.opens_free_iff good within, shows_.opens_free_iff sound within, use]

end Region

namespace PageMap

variable {r : Region} {t : PageMap} {c : Carving} {i : Nat} {old taken : ChunkSet}

/-- Handing out a chunk of a page leaves the free runs alone. -/
theorem free_occupy_iff (slab : t.use i = .slab c old) (j n : Nat) :
    (t.occupy r c i taken).use j = .free n ↔ t.use j = .free n := by
  by_cases here : j = i
  · simp [here, slab]
  · simp [here]

theorem Sound.lists_occupy_free (sound : t.Sound r) (slab : t.use i = .slab c old) :
    (t.occupy r c i taken).lists .free = t.lists .free := by
  have absent : i ∉ t.lists .free := sound.not_mem_free (by rw [slab]; nofun)
  unfold PageMap.occupy
  split
  · exact List.erase_of_not_mem absent
  · rfl

variable {ys : List Nat} {n : Nat}

theorem lists_carve_takeRun_free (run : t.use i = .free n) :
    ((t.takeRun [] i ys 1).carve r c i taken).lists .free = if 1 < n then (i + 1) :: ys else ys := by
  rw [lists_carve_of_ne (by simp), lists_takeRun, cutRun, run, Use.pages]
  split <;> exact lists_relist_self ..

/-- One page of a free run put to use for chunks leaves the other pages of the
run, as a free run of their own. -/
theorem Sound.free_carve_takeRun_iff (sound : t.Sound r) (within : i < r.pageCount)
    (run : t.use i = .free n) (j k : Nat) :
    (0 < k ∧ ((t.takeRun [] i ys 1).carve r c i taken).use j = .free k) ↔
      (j = i + 1 ∧ 1 < n ∧ k = n - 1) ∨ (j ≠ i ∧ 0 < k ∧ t.use j = .free k) := by
  have pages : (t.use i).pages = n := by rw [run, Use.pages]
  by_cases here : j = i
  · rw [here, use_carve_self]
    refine iff_of_false ?_ (by omega)
    rintro ⟨_, same⟩
    cases same
  · rw [use_carve_of_ne here, use_takeRun_of_outside Nat.one_pos (by omega)]
    by_cases rest : j = i + 1 ∧ 1 < n
    · obtain ⟨rfl, more⟩ := rest
      rw [use_cutRun_rest (by omega), pages, (sound.later_free within run (by omega) (by omega)).1]
      simp only [Use.free.injEq, true_and]
      omega
    · have same : (t.cutRun [] i ys 1).use j = t.use j := by
        by_cases next : j = i + 1
        · rw [use_cutRun_whole (by omega)]
        · exact use_cutRun_of_ne next
      rw [same]
      exact ⟨fun facts => Or.inr ⟨here, facts⟩, fun either => (either.resolve_left (by omega)).2⟩

end PageMap

namespace PoolState

variable {r : Region} {s : PoolState} {t : PageMap} {c : Carving} {i k : Nat}

theorem vacant_iff (fits : t.Matches r s.live) (shows_ : r.Shows s.memory t) (sound : t.Sound r)
    (within : i < r.pageCount) : s.Vacant r c i k ↔ ∃ taken, t.use i = .slab c taken ∧
      r.geometry.recordReserved c ≤ k ∧ k < r.geometry.chunks c.shift ∧ taken.has k = false := by
  rw [Vacant, shows_.carvingOf?_iff sound within]
  constructor
  · rintro ⟨⟨taken, slab⟩, caller, chunk, idle⟩
    obtain ⟨cls, _⟩ := sound.slab i within c taken slab
    rw [Region.chunkAddress, isLive_iff fits sound within (cls.chunk_lt chunk), slab] at idle
    refine ⟨taken, slab, caller, chunk, Bool.eq_false_iff.mpr fun has => ?_⟩
    exact idle ⟨_, k, caller, has, rfl, rfl⟩
  · rintro ⟨taken, slab, caller, chunk, missing⟩
    obtain ⟨cls, _⟩ := sound.slab i within c taken slab
    refine ⟨⟨taken, slab⟩, caller, chunk, ?_⟩
    rw [Region.chunkAddress, isLive_iff fits sound within (cls.chunk_lt chunk), slab]
    rintro ⟨_, j, _, has, same, _⟩
    rw [Nat.eq_of_mul_eq_mul_right (Nat.two_pow_pos _) same, has] at missing
    cases missing

/-- A page with a vacant chunk is on the list of its class. -/
theorem mem_of_vacant (fits : t.Matches r s.live) (shows_ : r.Shows s.memory t) (sound : t.Sound r)
    (within : i < r.pageCount) (vacant : s.Vacant r c i k) :
    i ∈ t.lists (.slot (r.geometry.slotOf c.shift)) := by
  obtain ⟨taken, slab, _, chunk, missing⟩ := (vacant_iff fits shows_ sound within).mp vacant
  obtain ⟨cls, kept⟩ := sound.slab i within c taken slab
  refine (sound.mem_slot_iff within slab (Region.hasList_slotOf cls)).mpr ⟨rfl, fun full => ?_⟩
  rw [(kept.eq_full_iff cls r.valid).mp full k chunk] at missing
  cases missing

theorem vacant_of_lowest {taken : ChunkSet} (fits : t.Matches r s.live)
    (shows_ : r.Shows s.memory t) (sound : t.Sound r) (within : i < r.pageCount)
    (slab : t.use i = .slab c taken) (lowest : r.geometry.LowestFree c taken k) :
    s.Vacant r c i k ∧ ∀ j, s.Vacant r c i j → k ≤ j := by
  refine ⟨(vacant_iff fits shows_ sound within).mpr
    ⟨taken, slab, lowest.caller, lowest.chunk, lowest.missing⟩, fun j vacant => ?_⟩
  obtain ⟨other, same, _, _, missing⟩ := (vacant_iff fits shows_ sound within).mp vacant
  rw [slab] at same
  cases same
  by_contra before
  rw [lowest.before j (by omega)] at missing
  cases missing

end PoolState

/-- What `allocate` answers is what `place` found. -/
theorem Pool.allocate_of_place {pool : Pool} {size : Nat} {m after : Memory} {found : Option Nat}
    (run : pool.place size m = .ok (found, after)) : pool.allocate size m =
      .ok (found.elim (.error (.exhausted size)) .ok, after) := by
  rw [Pool.allocate, run]
  cases found <;> rfl

/-- In every state that can be reached, a request of half a page or more
succeeds exactly when some free run is long enough. -/
theorem Reachable.allocates_pages_iff {pool : Pool} {s : PoolState} {size : Nat}
    (reached : Reachable pool.region s) (large : pool.region.geometry.maxSize ≤ size) :
    (∃ p after, pool.allocate size s.memory = .ok (.ok p, after)) ↔
      ∃ i < pool.region.pageCount, ∃ n, pool.region.Opens s.memory i (.free n) ∧
        (size + pool.region.pageSize - 1) / pool.region.pageSize ≤ n := by
  obtain ⟨t, shows_, sound, fits⟩ := reached.invariant
  have pages := pool.region.geometry.pagesFor_eq size
  change _ = (size + pool.region.pageSize - 1) / pool.region.pageSize at pages
  rw [← pages]
  obtain ⟨found, after, next, run, placed, _⟩ := Pool.place_placed shows_ sound size
  rw [Pool.allocate_of_place run]
  cases placed with
  | @run xs ys i _ split enough short =>
    obtain ⟨within, n, positive, use⟩ := sound.listed_free split
    rw [use] at enough
    exact iff_of_true ⟨_, after, rfl⟩
      ⟨i, within, n, shows_.opens_free sound within use positive, enough⟩
  | noRun _ short =>
    refine iff_of_false (fun ⟨_, _, same⟩ => nomatch same) ?_
    rintro ⟨i, within, n, opens, enough⟩
    obtain ⟨positive, use⟩ := (shows_.opens_free_iff sound within).mp opens
    have less := short i ((sound.free i).mpr ⟨within, n, positive, use⟩)
    rw [use, Use.pages] at less
    omega
  | chunk small => omega
  | page small => omega
  | noPage small => omega

/-- A smaller request is served by a page of its class that has a vacant chunk,
or by a free page; where there is neither it fails. -/
theorem Reachable.allocates_chunk_iff {pool : Pool} {s : PoolState} {size : Nat}
    (reached : Reachable pool.region s) (small : size < pool.region.geometry.maxSize) :
    (∃ p after, pool.allocate size s.memory = .ok (.ok p, after)) ↔
      s.HasVacant pool.region (pool.region.geometry.classFor size) ∨
      ∃ i rest, pool.region.members .free s.memory = .ok (i :: rest) := by
  obtain ⟨t, shows_, sound, fits⟩ := reached.invariant
  have members := shows_.linked.members_eq pool.region.hasList_free
  obtain ⟨found, after, next, run, placed, _⟩ := Pool.place_placed shows_ sound size
  rw [Pool.allocate_of_place run, members]
  cases placed with
  | run large => omega
  | noRun large => omega
  | @chunk c i k ys old _ form listed slab room lowest =>
    have cls := Geometry.isClass_classFor pool.region.valid small form
    obtain ⟨within, _⟩ := sound.first_slot cls listed
    subst form
    have vacant := (PoolState.vacant_of_lowest fits shows_ sound within slab lowest).1
    exact iff_of_true ⟨_, after, rfl⟩ (Or.inl ⟨i, within, k, vacant⟩)
  | @page c i ys _ form unlisted free =>
    exact iff_of_true ⟨_, after, rfl⟩ (Or.inr ⟨i, ys, congrArg _ free⟩)
  | noPage _ form unlisted spent =>
    subst form
    refine iff_of_false (fun ⟨_, _, same⟩ => nomatch same) ?_
    rintro (⟨i, within, k, vacant⟩ | ⟨i, rest, same⟩)
    · have member := PoolState.mem_of_vacant fits shows_ sound within vacant
      rw [unlisted] at member
      cases member
    · rw [spent] at same
      cases same

/-- While some page of the class has a vacant chunk, the lowest one of the first
page on the list is handed out, and the free runs stay as they are. -/
theorem Reachable.allocates_listed {pool : Pool} {s : PoolState} {size : Nat}
    (reached : Reachable pool.region s) (small : size < pool.region.geometry.maxSize)
    (room : s.HasVacant pool.region (pool.region.geometry.classFor size)) :
    ∃ i rest k after,
      pool.region.members (.slot (pool.region.geometry.slotOf
        (pool.region.geometry.classFor size).shift)) s.memory = .ok (i :: rest) ∧
      s.Vacant pool.region (pool.region.geometry.classFor size) i k ∧
      (∀ j, s.Vacant pool.region (pool.region.geometry.classFor size) i j → k ≤ j) ∧
      pool.allocate size s.memory = .ok (.ok (pool.region.chunkAddress
        (pool.region.geometry.classFor size).shift i k), after) ∧
      pool.region.SameFreeRuns s.memory after := by
  obtain ⟨t, shows_, sound, fits⟩ := reached.invariant
  obtain ⟨j, inside, l, vacant⟩ := room
  have member := PoolState.mem_of_vacant fits shows_ sound inside vacant
  have cls := Geometry.isClass_classFor pool.region.valid small rfl
  have known := Region.hasList_slotOf cls
  obtain ⟨found, after, next, run, placed, shown, _⟩ := Pool.place_placed shows_ sound size
  have good := placed.sound sound shows_.linked.distinct
  rw [Pool.allocate_of_place run, shows_.linked.members_eq known]
  cases placed with
  | run large => omega
  | noRun large => omega
  | @chunk c i k ys old _ form listed slab _ lowest =>
    subst form
    obtain ⟨within, _⟩ := sound.first_slot cls listed
    obtain ⟨first, least⟩ := PoolState.vacant_of_lowest fits shows_ sound within slab lowest
    exact ⟨i, ys, k, after, congrArg _ listed, first, least, rfl,
      shows_.sameFreeRuns sound shown good (sound.lists_occupy_free slab)
        (PageMap.free_occupy_iff slab)⟩
  | page _ form unlisted _ =>
    subst form
    rw [unlisted] at member
    cases member
  | noPage _ form unlisted _ =>
    subst form
    rw [unlisted] at member
    cases member

/-- Else one page is taken off the first free run, cut into chunks of the class,
and its first chunk that callers receive is handed out. -/
theorem Reachable.allocates_fresh {pool : Pool} {s : PoolState} {size i : Nat} {rest : List Nat}
    (reached : Reachable pool.region s) (small : size < pool.region.geometry.maxSize)
    (full : ¬s.HasVacant pool.region (pool.region.geometry.classFor size))
    (first : pool.region.members .free s.memory = .ok (i :: rest)) :
    ∃ n after, pool.region.Opens s.memory i (.free n) ∧
      pool.allocate size s.memory = .ok (.ok (pool.region.chunkAddress
        (pool.region.geometry.classFor size).shift i
        (pool.region.geometry.recordReserved (pool.region.geometry.classFor size))), after) ∧
      pool.region.Opens after i (.slab (pool.region.geometry.classFor size)) ∧
      pool.region.LosesFirst s.memory after i n rest := by
  obtain ⟨t, shows_, sound, fits⟩ := reached.invariant
  rw [shows_.linked.members_eq pool.region.hasList_free] at first
  have head := Except.ok.inj first
  obtain ⟨found, after, next, run, placed, shown, _⟩ := Pool.place_placed shows_ sound size
  have good := placed.sound sound shows_.linked.distinct
  rw [Pool.allocate_of_place run]
  cases placed with
  | run large => omega
  | noRun large => omega
  | @chunk c j k ys old _ form listed slab _ lowest =>
    have cls := Geometry.isClass_classFor pool.region.valid small form
    obtain ⟨within, _⟩ := sound.first_slot cls listed
    subst form
    have vacant := (PoolState.vacant_of_lowest fits shows_ sound within slab lowest).1
    exact absurd ⟨j, within, k, vacant⟩ full
  | @page c j ys _ form unlisted free =>
    subst form
    rw [free] at head
    obtain ⟨rfl, rfl⟩ := List.cons.inj head
    obtain ⟨within, n, positive, use⟩ := sound.first_free free
    have cls := Geometry.isClass_classFor pool.region.valid small rfl
    refine ⟨n, after, shows_.opens_free sound within use positive, rfl,
      ⟨(shown.carvingOf?_iff good within).mpr ⟨_, PageMap.use_carve_self⟩, cls⟩, ?_, ?_⟩
    · rw [shown.linked.members_eq pool.region.hasList_free, PageMap.lists_carve_takeRun_free use]
    · intro l inside k
      rw [shown.opens_free_iff good inside, sound.free_carve_takeRun_iff within use,
        shows_.opens_free_iff sound inside]
  | noPage _ form unlisted spent =>
    rw [spent] at head
    cases head

/-- In every state that can be reached, a request fails only where no memory is
left that could serve it, and else it gets the place that is specified. -/
theorem Reachable.requests_placed {pool : Pool} {s : PoolState} (reached : Reachable pool.region s)
    (size : Nat) :
    (pool.region.geometry.maxSize ≤ size →
      ((∃ p after, pool.allocate size s.memory = .ok (.ok p, after)) ↔
        ∃ i < pool.region.pageCount, ∃ n, pool.region.Opens s.memory i (.free n) ∧
          (size + pool.region.pageSize - 1) / pool.region.pageSize ≤ n)) ∧
    (size < pool.region.geometry.maxSize →
      ((∃ p after, pool.allocate size s.memory = .ok (.ok p, after)) ↔
        s.HasVacant pool.region (pool.region.geometry.classFor size) ∨
        ∃ i rest, pool.region.members .free s.memory = .ok (i :: rest)) ∧
      (s.HasVacant pool.region (pool.region.geometry.classFor size) → ∃ i rest k after,
        pool.region.members (.slot (pool.region.geometry.slotOf
          (pool.region.geometry.classFor size).shift)) s.memory = .ok (i :: rest) ∧
        s.Vacant pool.region (pool.region.geometry.classFor size) i k ∧
        (∀ j, s.Vacant pool.region (pool.region.geometry.classFor size) i j → k ≤ j) ∧
        pool.allocate size s.memory = .ok (.ok (pool.region.chunkAddress
          (pool.region.geometry.classFor size).shift i k), after) ∧
        pool.region.SameFreeRuns s.memory after) ∧
      (¬s.HasVacant pool.region (pool.region.geometry.classFor size) →
        ∀ i rest, pool.region.members .free s.memory = .ok (i :: rest) →
          ∃ n after, pool.region.Opens s.memory i (.free n) ∧
            pool.allocate size s.memory = .ok (.ok (pool.region.chunkAddress
              (pool.region.geometry.classFor size).shift i (pool.region.geometry.recordReserved
                (pool.region.geometry.classFor size))), after) ∧
            pool.region.Opens after i (.slab (pool.region.geometry.classFor size)) ∧
            pool.region.LosesFirst s.memory after i n rest)) :=
  ⟨reached.allocates_pages_iff, fun small => ⟨reached.allocates_chunk_iff small,
    reached.allocates_listed small, fun full _ _ => reached.allocates_fresh small full⟩⟩

theorem requests_placed_two_blocks : ∃ (pool : Pool) (s : PoolState),
    s.live = [⟨6144, 1500⟩, ⟨5136, 5⟩] ∧
      (∃ rest k after, pool.region.members (.slot 0) s.memory = .ok (0 :: rest) ∧
        s.Vacant pool.region (pool.region.geometry.classFor 5) 0 k ∧
        pool.allocate 5 s.memory = .ok (.ok 5144, after)) ∧
      ¬∃ i < pool.region.pageCount, ∃ n, pool.region.Opens s.memory i (.free n) ∧
        (1500 + pool.region.pageSize - 1) / pool.region.pageSize ≤ n := by
  obtain ⟨pool, m, s, created, ran, geometry, live, reached⟩ := reachable_two_blocks
  have spent := twoBlocks_eq created ran (fun pool m => pool.region.members .free m)
    [] (by decide +kernel)
  have listed := twoBlocks_eq created ran (fun pool m => pool.region.members (.slot 0) m)
    [0] (by decide +kernel)
  have chunk := twoBlocks_eq created ran (fun pool m => (pool.allocate 5 m).map Prod.fst)
    (.ok 5144) (by decide +kernel)
  have pages := twoBlocks_eq created ran (fun pool m => (pool.allocate 1500 m).map Prod.fst)
    (.error (.exhausted 1500)) (by decide +kernel)
  refine ⟨pool, s, live, ?_, ?_⟩
  · obtain ⟨_, small⟩ := reached.requests_placed 5
    obtain ⟨succeeds, found, _⟩ := small (by rw [geometry]; decide)
    obtain ⟨⟨answer, after⟩, run, same⟩ : ∃ result, pool.allocate 5 s.memory = .ok result ∧
        result.1 = .ok 5144 := by
      cases run : pool.allocate 5 s.memory with
      | error e =>
        rw [run] at chunk
        cases chunk
      | ok result =>
        rw [run] at chunk
        exact ⟨result, rfl, Except.ok.inj chunk⟩
    subst same
    have room := (succeeds.mp ⟨_, after, run⟩).resolve_right fun ⟨i, rest, first⟩ => by
      rw [spent] at first
      cases first
    obtain ⟨i, rest, k, last, members, vacant, _⟩ := found room
    have slot : pool.region.geometry.slotOf (pool.region.geometry.classFor 5).shift = 0 := by
      rw [geometry]
      decide
    rw [slot, listed] at members
    obtain ⟨rfl, rfl⟩ := List.cons.inj (Except.ok.inj members)
    exact ⟨[], k, after, listed, vacant, run⟩
  · obtain ⟨large, _⟩ := reached.requests_placed 1500
    rw [← large (by rw [geometry]; decide)]
    rintro ⟨p, after, run⟩
    rw [run] at pages
    cases pages

end SlabAllocator
