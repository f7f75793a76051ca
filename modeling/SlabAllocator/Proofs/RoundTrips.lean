import SlabAllocator.Proofs.Choices
import SlabAllocator.Proofs.Restored
import SlabAllocator.Proofs.Statistics

namespace SlabAllocator

namespace Geometry

variable {g : Geometry} {c : Carving} {taken : ChunkSet} {k : Nat}

theorem Kept.ne_empty (kept : g.Kept c taken) (cls : g.IsClass c) (valid : g.Valid) :
    taken ≠ g.emptyRecord c := by
  intro empty
  obtain ⟨k, caller, has⟩ := kept.used
  have reserved := (kept.eq_empty_iff cls valid).mp empty k has
  omega

/-- A chunk that was free goes back without a trace. -/
theorem LowestFree.erase_insert (lowest : g.LowestFree c taken k) (fits : g.Fits c taken)
    (cls : g.IsClass c) (valid : g.Valid) : (taken.insert k).erase k = taken := by
  refine ((fits.insert cls valid lowest.chunk).erase lowest.caller).ext fits fun j _ => ?_
  rw [Bool.eq_iff_iff, has_erase, fits.has_insert cls valid lowest.chunk]
  constructor
  · rintro ⟨has | same, other⟩
    · exact has
    · exact absurd same other
  · intro has
    refine ⟨Or.inl has, ?_⟩
    rintro rfl
    rw [lowest.missing] at has
    cases has

/-- A chunk of a full page that goes back is the only free one. -/
theorem lowestFree_erase_full (cls : g.IsClass c) (valid : g.Valid)
    (caller : g.recordReserved c ≤ k) (chunk : k < g.chunks c.shift) :
    g.LowestFree c ((g.fullRecord c).erase k) k where
  caller := caller
  chunk := chunk
  missing := by
    rw [Bool.eq_false_iff, Ne, has_erase]
    exact fun both => both.2 rfl
  before j below := by
    rw [has_erase, has_fullRecord cls valid]
    omega

theorem insert_erase_full (cls : g.IsClass c) (valid : g.Valid)
    (caller : g.recordReserved c ≤ k) (chunk : k < g.chunks c.shift) :
    ((g.fullRecord c).erase k).insert k = g.fullRecord c := by
  have fits := (fits_full cls valid).erase caller
  refine (fits.insert cls valid chunk).ext (fits_full cls valid) fun j inside => ?_
  rw [Bool.eq_iff_iff, fits.has_insert cls valid chunk, has_erase, has_fullRecord cls valid]
  omega

/-- A page has room for two chunks at least, so a full one is not left empty. -/
theorem erase_full_ne_empty (cls : g.IsClass c) (valid : g.Valid)
    (caller : g.recordReserved c ≤ k) : (g.fullRecord c).erase k ≠ g.emptyRecord c := by
  intro empty
  have room := cls.reserved_add_two_le valid
  have reserved := (((fits_full cls valid).erase caller).eq_empty_iff cls valid).mp empty
  simp only [has_erase, has_fullRecord cls valid] at reserved
  have first := reserved (g.recordReserved c)
  have second := reserved (g.recordReserved c + 1)
  omega

end Geometry

namespace PageMap.Sound

variable {r : Region} {t : PageMap} {c : Carving} {i n : Nat} {ys : List Nat}
  {old taken left : ChunkSet}

/-- A page of chunks is on no list but that of its class. -/
theorem unlisted_of_ne (sound : t.Sound r) (within : i < r.pageCount) (slab : t.use i = .slab c old)
    {list : PageList} (known : r.HasList list) (other : list ≠ .slot (r.geometry.slotOf c.shift)) :
    i ∉ t.lists list := by
  cases list with
  | free => exact sound.not_mem_free (by rw [slab]; nofun)
  | slot s =>
    rw [sound.mem_slot_iff within slab known]
    rintro ⟨rfl, _⟩
    exact other rfl

/-- Handing out a chunk of the first page on a list and taking it back leaves
the list as it was, also where the page became full in between. -/
theorem settle_occupy (sound : t.Sound r) (within : i < r.pageCount) (slab : t.use i = .slab c old)
    (listed : t.lists (.slot (r.geometry.slotOf c.shift)) = i :: ys) :
    t.Agrees r ((t.occupy r c i taken).settle r c i taken old) := by
  obtain ⟨cls, kept⟩ := sound.slab i within c old slab
  have some := kept.ne_empty cls r.valid
  refine ⟨funext fun j => ?_, fun list known => ?_⟩
  · by_cases here : j = i
    · simp [here, use_settle_self, some, slab]
    · simp [here]
  · rw [PageMap.settle, if_neg some]
    split
    · rename_i full
      have erased : ∀ list, (t.occupy r c i taken).lists list = (t.lists list).erase i := by
        intro list
        rw [PageMap.occupy, if_pos full]
        rfl
      by_cases own : list = .slot (r.geometry.slotOf c.shift)
      · simp [own, erased, listed]
      · rw [lists_carve_of_ne own, erased]
        exact List.erase_of_not_mem (sound.unlisted_of_ne within slab known own)
    · rename_i more
      rw [PageMap.occupy, if_neg more]
      rfl

/-- A full page that gets a chunk back comes to the front of its list, where
the chunk is handed out again. -/
theorem occupy_settle (sound : t.Sound r) (within : i < r.pageCount)
    (slab : t.use i = .slab c (r.geometry.fullRecord c)) (some : left ≠ r.geometry.emptyRecord c) :
    t.Agrees r ((t.settle r c i (r.geometry.fullRecord c) left).occupy r c i
      (r.geometry.fullRecord c)) := by
  have unlisted := (sound.unlisted_iff_full within slab).mpr rfl
  refine ⟨funext fun j => ?_, fun list known => ?_⟩
  · by_cases here : j = i
    · simp [here, slab]
    · simp [here]
  · rw [PageMap.occupy, if_pos rfl, PageMap.settle, if_neg some, if_pos rfl]
    change ((t.carve r c i left).lists list).erase i = t.lists list
    by_cases own : list = .slot (r.geometry.slotOf c.shift)
    · simp [own]
    · rw [lists_carve_of_ne own]
      exact List.erase_of_not_mem (unlisted list known)

/-- A run that goes back comes to the front of the free runs, where it is found
first. -/
theorem takeRun_returnRun (sound : t.Sound r) (within : i < r.pageCount) (run : t.use i = .run n) :
    (t.returnRun i n).lists .free = i :: t.lists .free ∧
      t.Agrees r ((t.returnRun i n).takeRun [] i (t.lists .free) n) := by
  have unlisted := sound.unlisted (i := i) (by rw [run]; nofun) (by rw [run]; nofun)
  have positive := sound.run_positive within run
  have pages : ((t.returnRun i n).use i).pages = n := by simp
  have whole : ¬n < ((t.returnRun i n).use i).pages := by omega
  refine ⟨?_, funext fun j => ?_, fun list known => ?_⟩
  · simp [List.erase_of_not_mem (unlisted .free trivial)]
  · by_cases first : j = i
    · simp [first, run]
    · by_cases inner : i < j ∧ j < i + n
      · rw [use_takeRun_later inner.1 inner.2]
        exact (sound.later_busy within (by rw [run]; rfl) inner.1 (by rw [run]; exact inner.2)).1.symm
      · rw [use_takeRun_of_outside positive (by omega), use_cutRun_whole whole,
          use_returnRun_of_outside first inner]
  · rw [lists_takeRun]
    cases list with
    | free =>
      rw [PageMap.cutRun, if_neg whole, lists_relist_self]
      rfl
    | slot s =>
      simpa using List.erase_of_not_mem (unlisted (.slot s) known)

end PageMap.Sound

namespace Geometry

variable {g : Geometry} {c : Carving} {size other : Nat}

theorem classFor_eq (cls : g.IsClass c) (small : size < g.maxSize)
    (bytes : g.blockSize size = 2 ^ c.shift) : c = g.classFor size := by
  rw [blockSize_chunk small] at bytes
  have shift := Nat.pow_right_injective (Nat.le_refl 2) bytes
  rw [cls.1, classFor, shift]

/-- Requests that are rounded up to the same block are of one class, or for
equally many pages. -/
theorem same_block (valid : g.Valid) (same : g.blockSize other = g.blockSize size) :
    (size < g.maxSize ∧ other < g.maxSize ∧ g.classFor other = g.classFor size) ∨
      (g.maxSize ≤ size ∧ g.maxSize ≤ other ∧ g.pagesFor other = g.pagesFor size) := by
  rcases Nat.lt_or_ge size g.maxSize with small | large
  · have short := blockSize_lt valid small
    have also : other < g.maxSize := by
      by_contra large
      have long := pageSize_le_blockSize valid (Nat.le_of_not_lt large)
      omega
    refine Or.inl ⟨small, also, ?_⟩
    exact (classFor_eq (isClass_classFor valid also rfl) small
      (same.symm.trans (blockSize_classFor also)))
  · have long := pageSize_le_blockSize valid large
    have also : g.maxSize ≤ other := by
      by_contra small
      have short := blockSize_lt valid (Nat.lt_of_not_le small)
      omega
    rw [blockSize_pages also, blockSize_pages large] at same
    exact Or.inr ⟨large, also, Nat.eq_of_mul_eq_mul_right (Nat.two_pow_pos _) same⟩

end Geometry

namespace PageMap

variable {r : Region} {t next last : PageMap} {p size other x : Nat} {found : Option Nat}

/-- Requests that are rounded up to the same block are placed alike. -/
theorem Placed.congr_size (placed : t.Placed r size found next)
    (same : r.geometry.blockSize other = r.geometry.blockSize size) :
    t.Placed r other found next := by
  rcases Geometry.same_block r.valid same with ⟨small, also, cls⟩ | ⟨large, also, pages⟩
  · cases placed with
    | run large => omega
    | noRun large => omega
    | chunk _ form listed slab room lowest =>
      exact .chunk also (form.trans cls.symm) listed slab room lowest
    | page _ form unlisted free => exact .page also (form.trans cls.symm) unlisted free
    | noPage _ form unlisted spent => exact .noPage also (form.trans cls.symm) unlisted spent
  · cases placed with
    | run _ split enough short =>
      rw [← pages] at enough short ⊢
      exact .run also split enough short
    | noRun _ short =>
      rw [← pages] at short
      exact .noRun also short
    | chunk small => omega
    | page small => omega
    | noPage small => omega

/-- A chunk of a page that was in use before goes back without a trace. -/
theorem Placed.undone (placed : t.Placed r size (some p) next) (sound : t.Sound r)
    (good : next.Sound r) (small : size < r.geometry.maxSize)
    (busy : ∀ n, t.use (r.pageOf p) ≠ .free n) {bytes : Nat} (freed : next.Freed r p bytes last) :
    t.Agrees r last ∧ ∀ x, next.InRow r x → t.InRow r x := by
  generalize answer : some p = found at placed
  cases placed with
  | run large => omega
  | noRun => cases answer
  | noPage => cases answer
  | @chunk c i k ys old _ form listed slab room lowest =>
    obtain rfl := Option.some.inj answer
    have served := Geometry.isClass_classFor r.valid small form
    obtain ⟨within, _⟩ := sound.first_slot served listed
    obtain ⟨cls, kept⟩ := sound.slab i within c old slab
    have has : (old.insert k).has k = true :=
      (kept.has_insert cls r.valid lowest.chunk k).mpr (Or.inr rfl)
    have back := Freed.chunk (t := t.occupy r c i (old.insert k)) within use_occupy_self
      lowest.caller has
    obtain rfl := freed.unique back rfl good
    rw [lowest.erase_insert kept.toFits cls r.valid]
    refine ⟨sound.settle_occupy within slab listed, fun x => inRow_mono fun j => ?_⟩
    by_cases here : j = i
    · rw [here, use_occupy_self, slab]
      exact Nat.le_of_eq (Use.length_row_congr
        ((kept.insert cls r.valid lowest.chunk).length.trans kept.length.symm))
    · simp [here]
  | @page c i ys _ form unlisted free =>
    obtain rfl := Option.some.inj answer
    obtain ⟨within, n, _, run⟩ := sound.first_free free
    have cls := Geometry.isClass_classFor r.valid small form
    have room := cls.reserved_add_two_le r.valid
    rw [Region.chunkAddress, r.pageOf_eq (cls.chunk_lt (by omega))] at busy
    exact absurd run (busy n)

/-- The next request for as many pages gets the run that went back. -/
theorem Sound.placed_returnRun {i : Nat} (sound : t.Sound r) (within : i < r.pageCount)
    (large : r.geometry.maxSize ≤ size) (run : t.use i = .run (r.geometry.pagesFor size)) :
    (t.returnRun i (r.geometry.pagesFor size)).Placed r size (some (r.pageAddress i))
      ((t.returnRun i (r.geometry.pagesFor size)).takeRun [] i (t.lists .free)
        (r.geometry.pagesFor size)) := by
  obtain ⟨split, _⟩ := sound.takeRun_returnRun within run
  refine .run large split ?_ nofun
  simp

/-- The next request of the class gets the chunk that went back, if its page had
no other to give. -/
theorem placed_settle_full {c : Carving} {i k : Nat} (cls : r.geometry.IsClass c)
    (caller : r.geometry.recordReserved c ≤ k) (chunk : k < r.geometry.chunks c.shift)
    (small : size < r.geometry.maxSize) (form : c = r.geometry.classFor size) :
    (t.settle r c i (r.geometry.fullRecord c) ((r.geometry.fullRecord c).erase k)).Placed r size
      (some (r.chunkAddress c.shift i k))
      ((t.settle r c i (r.geometry.fullRecord c) ((r.geometry.fullRecord c).erase k)).occupy r c i
        (r.geometry.fullRecord c)) := by
  have some := Geometry.erase_full_ne_empty cls r.valid caller
  have lowest := Geometry.lowestFree_erase_full cls r.valid caller chunk
  have fits := (Geometry.fits_full cls r.valid).erase caller
  have room : (r.geometry.fullRecord c).erase k ≠ r.geometry.fullRecord c := by
    intro full
    have every := (fits.eq_full_iff cls r.valid).mp full k chunk
    rw [lowest.missing] at every
    cases every
  have listed : (t.settle r c i (r.geometry.fullRecord c) ((r.geometry.fullRecord c).erase k)).lists
      (.slot (r.geometry.slotOf c.shift)) = i :: t.lists (.slot (r.geometry.slotOf c.shift)) := by
    simp [PageMap.settle, some]
  have again := Placed.chunk small form listed (by simp [use_settle_self, some]) room lowest
  rwa [Geometry.insert_erase_full cls r.valid caller chunk] at again

/-- What was given back is found first by the next request for as much: a run,
or a chunk of a page that had no other to give. -/
theorem Freed.redone (freed : t.Freed r p (r.geometry.blockSize size) next) (sound : t.Sound r)
    (full : ∀ c taken, t.use (r.pageOf p) = .slab c taken → taken = r.geometry.fullRecord c)
    (placed : next.Placed r size found last) : found = some p ∧ t.Agrees r last := by
  generalize bytes : r.geometry.blockSize size = n at freed
  cases freed with
  | @run i n within run =>
    have positive := sound.run_positive within run
    have large : r.geometry.maxSize ≤ size := by
      by_contra small
      have short := Geometry.blockSize_lt r.valid (Nat.lt_of_not_le small)
      have := Nat.le_mul_of_pos_left r.pageSize positive
      unfold Region.pageSize at *
      omega
    rw [Geometry.blockSize_pages large] at bytes
    obtain rfl : r.geometry.pagesFor size = n := Nat.eq_of_mul_eq_mul_right (Nat.two_pow_pos _) bytes
    obtain ⟨rfl, rfl⟩ := placed.unique (sound.placed_returnRun within large run)
    obtain ⟨_, same⟩ := sound.takeRun_returnRun within run
    exact ⟨rfl, same⟩
  | @chunk c i k taken within slab caller has =>
    obtain ⟨cls, kept⟩ := sound.slab i within c taken slab
    have chunk := kept.within k has
    rw [Region.chunkAddress, r.pageOf_eq (cls.chunk_lt chunk)] at full
    obtain rfl := full c taken slab
    have small : size < r.geometry.maxSize := by
      by_contra large
      have long := Geometry.pageSize_le_blockSize r.valid (Nat.le_of_not_lt large)
      have short := Nat.pow_lt_pow_right (show 1 < 2 by decide) cls.2.2
      unfold Geometry.pageSize at long
      omega
    have form := Geometry.classFor_eq cls small bytes
    obtain ⟨rfl, rfl⟩ := placed.unique (placed_settle_full cls caller chunk small form)
    exact ⟨rfl, sound.occupy_settle within slab (Geometry.erase_full_ne_empty cls r.valid caller)⟩

end PageMap

namespace Region.Shows

variable {r : Region} {pool : Pool} {m : Memory} {t : PageMap} {p size : Nat}

/-- Any handle places a request as the map says. -/
theorem allocate (shows_ : r.Shows m t) (sound : t.Sound r) (handle : pool.region = r) (size : Nat) :
    ∃ found after next, pool.allocate size m = .ok (answerFor size found, after) ∧
      t.Placed r size found next ∧ r.Shows after next ∧ r.KeepsIdle next m after := by
  subst handle
  obtain ⟨found, after, next, run, placed, shown, keeps⟩ := Pool.place_placed shows_ sound size
  refine ⟨found, after, next, ?_, placed, shown, keeps⟩
  rw [Pool.allocate_of_place run]
  cases found <;> rfl

/-- Any handle takes back a block that is lent out. The tables and the records
change first; then junk goes to the block if the handle asks for that. -/
theorem reclaim (shows_ : r.Shows m t) (sound : t.Sound r) (handle : pool.region = r)
    (holds : t.Holds r p size) :
    ∃ between next, pool.release p m = .ok (.ok (), pool.spoil p size between) ∧
      t.Freed r p size next ∧ r.Shows between next ∧ r.KeepsIdle t m between ∧
      r.LeavesEmpty t next between := by
  subst handle
  obtain ⟨i, within, offset, rfl, lends⟩ := holds
  have inside := sound.offset_lt within lends
  obtain ⟨j, also, place, small, same, run⟩ :=
    Pool.release_inside (m := m) (Pool.contains_page within inside)
  obtain ⟨rfl, rfl⟩ := pool.region.pageAddress_inj same inside small
  rw [run]
  cases use : t.use i with
  | free n =>
    rw [use] at lends
    cases lends
  | interior =>
    rw [use] at lends
    cases lends
  | run n =>
    rw [use] at lends
    obtain ⟨_, rfl, rfl⟩ := lends
    exact Pool.releaseIn_run shows_ sound within use
  | slab c taken =>
    rw [use] at lends
    obtain ⟨k, caller, has, rfl, rfl⟩ := lends
    exact Pool.releaseIn_chunk shows_ sound within use caller has

theorem release (shows_ : r.Shows m t) (sound : t.Sound r) (handle : pool.region = r)
    (holds : t.Holds r p size) :
    ∃ after next, pool.release p m = .ok (.ok (), after) ∧ t.Freed r p size next ∧
      r.Shows after next ∧ r.KeepsBeside t p size m after := by
  subst handle
  obtain ⟨between, next, run, freed, shown, keeps, _⟩ := shows_.reclaim sound rfl holds
  obtain ⟨spoiled, beside⟩ := Pool.spoil_freed freed sound shows_.linked.distinct shown keeps
  exact ⟨_, next, run, freed, spoiled, beside⟩

end Region.Shows

/-- Where no chunk of a block's page is vacant, the record of the page is
full. -/
theorem PoolState.full_of_not_vacant {r : Region} {s : PoolState} {t : PageMap} {b : Block}
    (fits : t.Matches r s.live) (shows_ : r.Shows s.memory t) (sound : t.Sound r)
    (listed : b ∈ s.live)
    (full : b.size < r.geometry.maxSize →
      ∀ k, ¬s.Vacant r (r.geometry.classFor b.size) (r.pageOf b.address) k)
    (c : Carving) (taken : ChunkSet) (slab : t.use (r.pageOf b.address) = .slab c taken) :
    taken = r.geometry.fullRecord c := by
  by_contra room
  rcases Nat.lt_or_ge b.size r.geometry.maxSize with small | large
  · obtain ⟨i, within, d, record, k, use, _, has, address, bytes⟩ := fits.chunk listed small
    obtain ⟨cls, kept⟩ := sound.slab i within d record use
    have page : r.pageOf b.address = i := by
      rw [address, Region.chunkAddress, r.pageOf_eq (cls.chunk_lt (kept.within k has))]
    rw [page] at slab full
    obtain ⟨rfl, rfl⟩ := Use.slab.inj (use.symm.trans slab)
    rw [← Geometry.classFor_eq cls small bytes] at full
    obtain ⟨free, _, lowest⟩ := kept.takeLowest? cls r.valid room
    exact full small free (vacant_of_lowest fits shows_ sound within slab lowest).1
  · obtain ⟨i, _, n, use, address, _⟩ := fits.run sound listed large
    have page : r.pageOf b.address = i := by
      rw [address, ← Nat.add_zero (r.pageAddress i), r.pageOf_eq (Nat.two_pow_pos _)]
    rw [page, use] at slab
    cases slab

/-- In every state that can be reached, a chunk that a request gets from a page
of which another chunk is in use goes back without a trace, whichever handle
takes it back. The next request for as much gets the same chunk. -/
theorem Reachable.release_undoes_allocate {pool other : Pool} {s : PoolState} {size p : Nat}
    {m : Memory} {b : Block} (reached : Reachable pool.region s)
    (handle : other.region = pool.region) (small : size < pool.region.geometry.maxSize)
    (run : pool.allocate size s.memory = .ok (.ok p, m)) (listed : b ∈ s.live)
    (page : pool.region.pageOf b.address = pool.region.pageOf p) :
    ∃ back, other.release p m = .ok (.ok (), back) ∧
      pool.region.Restored p (pool.region.geometry.blockSize size) s.memory back ∧
      ∀ again, pool.region.geometry.blockSize again = pool.region.geometry.blockSize size →
        ∃ last, pool.allocate again back = .ok (.ok p, last) := by
  obtain ⟨t, shows_, sound, fits⟩ := reached.invariant
  obtain ⟨found, after, next, ran, placed, shown, keeps⟩ := shows_.allocate sound rfl size
  obtain ⟨rfl, rfl⟩ : found = some p ∧ after = m := by
    rw [ran] at run
    cases found <;> cases run
    exact ⟨rfl, rfl⟩
  have good := placed.sound sound shows_.linked.distinct
  have holds : next.Holds pool.region p (pool.region.geometry.blockSize size) :=
    ((placed.gains sound).holds _ _).mpr (Or.inr ⟨rfl, rfl⟩)
  obtain ⟨back, last, took, freed, showsBack, beside⟩ := shown.release good handle holds
  -- The other block keeps its page from being a free one.
  have busy : ∀ n, t.use (pool.region.pageOf p) ≠ .free n := by
    obtain ⟨i, within, offset, address, lends⟩ := fits.lends listed
    rw [address, pool.region.pageOf_eq (sound.offset_lt within lends)] at page
    rintro n free
    rw [page, free] at lends
    cases lends
  obtain ⟨same, rows⟩ := placed.undone sound good small busy freed
  have restored := same.shows_ showsBack
  refine ⟨back, took, shows_.restored restored sound (good.bounds holds).1 fun x idle outside => ?_,
    fun again bytes => ?_⟩
  · have still : pool.region.Idle next x := ⟨idle.1, fun row => idle.2 (rows x row)⟩
    exact (beside x still outside).trans (keeps x still)
  · obtain ⟨found, last, _, ran, twice, _⟩ := restored.allocate sound rfl again
    obtain ⟨rfl, _⟩ := twice.unique (placed.congr_size bytes)
    exact ⟨last, ran⟩

theorem release_undoes_allocate_two_blocks : ∃ (pool : Pool) (s : PoolState) (m back : Memory),
    s.live = [⟨6144, 1500⟩, ⟨5136, 5⟩] ∧ pool.allocate 5 s.memory = .ok (.ok 5144, m) ∧
      pool.release 5144 m = .ok (.ok (), back) ∧
      pool.region.Restored 5144 8 s.memory back ∧
      ∃ last, pool.allocate 7 back = .ok (.ok 5144, last) := by
  obtain ⟨pool, m, s, created, ran, geometry, live, reached⟩ := reachable_two_blocks
  have chunk := twoBlocks_eq created ran (fun pool m => (pool.allocate 5 m).map Prod.fst)
    (.ok 5144) (by decide +kernel)
  have pages := twoBlocks_eq created ran
    (fun pool _ => .ok (pool.region.pageOf 5136, pool.region.pageOf 5144)) (0, 0)
    (by decide +kernel)
  obtain ⟨first, second⟩ := Prod.mk.inj (Except.ok.inj pages)
  obtain ⟨_, shows_, sound, _⟩ := reached.invariant
  obtain ⟨found, after, _, run, _⟩ := shows_.allocate sound rfl 5
  rw [run] at chunk
  have answer : answerFor 5 found = .ok 5144 := Except.ok.inj chunk
  rw [answer] at run
  have bytes : pool.region.geometry.blockSize 5 = 8 := by
    rw [geometry]
    decide
  obtain ⟨back, took, restored, again⟩ := reached.release_undoes_allocate (b := ⟨5136, 5⟩) rfl
    (by rw [geometry]; decide) run (by rw [live]; simp) (first.trans second.symm)
  rw [bytes] at restored again
  exact ⟨pool, s, after, back, live, run, took, restored, again 7 (by rw [geometry]; decide)⟩

/-- In every state that can be reached, a run in use, and likewise a chunk of a
page that has no vacant one, that goes back is what the next request for as much
gets, through any handle. Both calls together leave no trace beside the block. -/
theorem Reachable.allocate_undoes_release {pool other : Pool} {s : PoolState} {size : Nat}
    {b : Block} (reached : Reachable pool.region s) (handle : other.region = pool.region)
    (listed : b ∈ s.live)
    (full : b.size < pool.region.geometry.maxSize → ∀ k, ¬s.Vacant pool.region
      (pool.region.geometry.classFor b.size) (pool.region.pageOf b.address) k)
    (same : pool.region.geometry.blockSize size = pool.region.geometry.blockSize b.size) :
    ∃ back m, pool.release b.address s.memory = .ok (.ok (), back) ∧
      other.allocate size back = .ok (.ok b.address, m) ∧
      pool.region.Restored b.address (pool.region.geometry.blockSize b.size) s.memory m := by
  obtain ⟨t, shows_, sound, fits⟩ := reached.invariant
  have holds := fits.lends listed
  obtain ⟨back, next, took, freed, shown, beside⟩ := shows_.release sound rfl holds
  have good := freed.sound sound shows_.linked.distinct
  obtain ⟨found, m, last, ran, placed, showsBack, keeps⟩ := shown.allocate good handle size
  rw [← same] at freed
  obtain ⟨rfl, agrees⟩ :=
    freed.redone sound (PoolState.full_of_not_vacant fits shows_ sound listed full) placed
  refine ⟨back, m, took, ran, shows_.restored (agrees.shows_ showsBack) sound (sound.bounds holds).1
    fun x idle outside => ?_⟩
  have still : pool.region.Idle last x := by
    refine ⟨idle.1, fun row => idle.2 ?_⟩
    rwa [PageMap.InRow, agrees.use] at row
  exact (keeps x still).trans (beside x idle outside)

/-- A run, and one of the two chunks that fill a page. -/
theorem allocate_undoes_release_full_page : ∃ (pool : Pool) (s : PoolState),
    s.live = [⟨6144, 1500⟩, ⟨5632, 300⟩, ⟨5120, 300⟩] ∧
      (∃ back m, pool.release 6144 s.memory = .ok (.ok (), back) ∧
        pool.allocate 2000 back = .ok (.ok 6144, m) ∧
        pool.region.Restored 6144 2048 s.memory m) ∧
      ∃ back m, pool.release 5120 s.memory = .ok (.ok (), back) ∧
        pool.allocate 400 back = .ok (.ok 5120, m) ∧
        pool.region.Restored 5120 512 s.memory m := by
  obtain ⟨pool, m, s, created, ran, facts⟩ := of_trial 4096 4096
    [.allocate 300, .allocate 300, .allocate 1500]
    (fun pool s => .ok (pool.region.geometry, s.live, pool.region.pageOf 5120,
      pool.region.chunkAddress 9 0 0, pool.region.chunkAddress 9 0 1))
    (⟨10, 3⟩, [⟨6144, 1500⟩, ⟨5632, 300⟩, ⟨5120, 300⟩], 0, 5120, 5632) (by decide +kernel)
  simp only [Except.ok.injEq, Prod.mk.injEq] at facts
  obtain ⟨geometry, live, page, first, second⟩ := facts
  have reached := reachable_trial created ran (by simp [Call.Allowed])
  refine ⟨pool, s, live, ?_, ?_⟩
  · have same : pool.region.geometry.blockSize 2000 = pool.region.geometry.blockSize 1500 := by
      rw [geometry]
      decide
    have bytes : pool.region.geometry.blockSize 1500 = 2048 := by
      rw [geometry]
      decide
    obtain ⟨back, m, took, again, restored⟩ := reached.allocate_undoes_release (b := ⟨6144, 1500⟩)
      rfl (by rw [live]; simp) (fun small => by
        rw [geometry] at small
        exact absurd small (by decide)) same
    rw [bytes] at restored
    exact ⟨back, m, took, again, restored⟩
  · have same : pool.region.geometry.blockSize 400 = pool.region.geometry.blockSize 300 := by
      rw [geometry]
      decide
    have bytes : pool.region.geometry.blockSize 300 = 512 := by
      rw [geometry]
      decide
    have shift : (pool.region.geometry.classFor 300).shift = 9 := by
      rw [geometry]
      decide
    have two : pool.region.geometry.chunks 9 = 2 := by
      rw [geometry]
      decide
    obtain ⟨back, m, took, again, restored⟩ := reached.allocate_undoes_release (b := ⟨5120, 300⟩)
      rfl (by rw [live]; simp) (fun _ k vacant => by
        obtain ⟨_, _, chunk, quiet⟩ := vacant
        rw [page, shift] at quiet
        rw [shift, two] at chunk
        obtain rfl | rfl : k = 0 ∨ k = 1 := by omega
        · exact quiet ⟨⟨5120, 300⟩, by rw [live]; simp, first.symm⟩
        · exact quiet ⟨⟨5632, 300⟩, by rw [live]; simp, second.symm⟩) same
    rw [bytes] at restored
    exact ⟨back, m, took, again, restored⟩

end SlabAllocator
