import SlabAllocator.Proofs.LiveBlocks

namespace SlabAllocator

namespace Region

/-- The page of an address is part of a free run. -/
def InFreeRun (r : Region) (m : Memory) (p : Nat) : Prop :=
  ∃ i < r.pageCount, ∃ n, r.Opens m i (.free n) ∧ r.pageAddress i ≤ p ∧ p < r.pageAddress (i + n)

/-- The page of an address is cut into chunks, and the address is not where one
of those starts that callers receive. -/
def OffChunk (r : Region) (m : Memory) (p : Nat) : Prop :=
  ∃ i < r.pageCount, ∃ c, r.carvingOf? (r.descriptor i m).role = some c ∧
    r.pageAddress i ≤ p ∧ p < r.pageAddress i + r.pageSize ∧
    ((p - r.pageAddress i) % 2 ^ c.shift ≠ 0 ∨
      (p - r.pageAddress i) / 2 ^ c.shift < r.geometry.recordReserved c)

end Region

theorem Pool.contains_of_between {pool : Pool} {i j p : Nat} (lower : pool.region.pageAddress i ≤ p)
    (upper : p < pool.region.pageAddress j) (within : j ≤ pool.region.pageCount) :
    pool.contains p = true := by
  have first := pool.region.start_le_pageAddress i
  have last := pool.region.pageAddress_mono within
  rw [contains, Bool.and_eq_true, decide_eq_true_iff, decide_eq_true_iff]
  exact ⟨Nat.le_trans first lower, Nat.lt_of_lt_of_le upper last⟩

namespace PoolState

/-- Some block in use starts at an address. -/
def IsLive (s : PoolState) (p : Nat) : Prop := ∃ b ∈ s.live, b.address = p

/-- An address in the first page of a run in use, but not its start. -/
def InFirstPage (r : Region) (s : PoolState) (p : Nat) : Prop :=
  ∃ b ∈ s.live, r.geometry.maxSize ≤ b.size ∧ b.address < p ∧ p < b.address + r.pageSize

/-- An address in a later page of a run in use. -/
def InLaterPage (r : Region) (s : PoolState) (p : Nat) : Prop :=
  ∃ b ∈ s.live, r.geometry.maxSize ≤ b.size ∧ b.address + r.pageSize ≤ p ∧ b.Covers r.geometry p

section

variable {r : Region} {s : PoolState} {t : PageMap} {i offset : Nat}

theorem isLive_iff (fits : t.Matches r s.live) (sound : t.Sound r) (within : i < r.pageCount)
    (inside : offset < r.pageSize) :
    s.IsLive (r.pageAddress i + offset) ↔ ∃ n, (t.use i).Lends r.geometry offset n := by
  constructor
  · rintro ⟨b, listed, address⟩
    have lends := fits.lends listed
    rw [address, sound.holds_iff within inside] at lends
    exact ⟨_, lends⟩
  · rintro ⟨n, lends⟩
    obtain ⟨b, listed, address, _⟩ := (fits.holds _ n).mp ((sound.holds_iff within inside).mpr lends)
    exact ⟨b, listed, address⟩

theorem inFreeRun_iff (shows_ : r.Shows s.memory t) (sound : t.Sound r) (within : i < r.pageCount)
    (inside : offset < r.pageSize) :
    r.InFreeRun s.memory (r.pageAddress i + offset) ↔ ∃ n, t.use i = .free n := by
  have top : r.pageAddress (i + 1) = r.pageAddress i + r.pageSize := by
    rw [r.pageAddress_add, Nat.one_mul]
  constructor
  · rintro ⟨j, below, n, ⟨positive, role, _⟩, lower, upper⟩
    have use := (shows_.free_iff sound below n).mp role
    have after : j ≤ i := r.le_of_pageAddress lower (by omega)
    have before : i ≤ j + n - 1 := r.le_of_pageAddress (Nat.le_add_right _ offset)
      (by rwa [Nat.sub_add_cancel (by omega)])
    -- Between the first page of the run and its last one lies page `i`.
    by_cases first : i = j
    · exact ⟨n, by rw [first, use]⟩
    · exact ⟨0, (sound.later_free below use (by omega) (by omega)).1⟩
  · rintro ⟨n, use⟩
    rcases Nat.eq_zero_or_pos n with rfl | positive
    · obtain ⟨j, before, k, start, reach⟩ := sound.inner_free within use
      have := r.pageAddress_mono (Nat.le_of_lt before)
      have := r.pageAddress_mono (show i + 1 ≤ j + k by omega)
      exact ⟨j, by omega, k, shows_.opens_free sound (by omega) start (by omega), by omega, by omega⟩
    · have := r.pageAddress_mono (show i + 1 ≤ i + n by omega)
      exact ⟨i, within, n, shows_.opens_free sound within use positive, by omega, by omega⟩

/-- Where a run starts for the map, a run is in use. -/
theorem live_of_run (fits : t.Matches r s.live) (sound : t.Sound r) (within : i < r.pageCount)
    {n : Nat} (run : t.use i = .run n) :
    ∃ b ∈ s.live, r.geometry.maxSize ≤ b.size ∧ b.address = r.pageAddress i ∧
      r.geometry.blockSize b.size = n * r.pageSize := by
  have positive := sound.run_positive within run
  have lends : (t.use i).Lends r.geometry 0 (n * r.pageSize) := by
    rw [run]
    exact ⟨positive, rfl, rfl⟩
  obtain ⟨b, listed, address, size⟩ := (fits.holds _ _).mp ⟨i, within, 0, rfl, lends⟩
  refine ⟨b, listed, ?_, address, size⟩
  by_contra small
  have short := Geometry.blockSize_lt r.valid (Nat.lt_of_not_le small)
  have := Nat.le_mul_of_pos_left r.pageSize positive
  unfold Region.pageSize at *
  omega

theorem inLaterPage_iff (fits : t.Matches r s.live) (sound : t.Sound r) (within : i < r.pageCount)
    (inside : offset < r.pageSize) :
    s.InLaterPage r (r.pageAddress i + offset) ↔ t.use i = .interior := by
  have top : r.pageAddress (i + 1) = r.pageAddress i + r.pageSize := by
    rw [r.pageAddress_add, Nat.one_mul]
  constructor
  · rintro ⟨b, listed, large, lower, _, upper⟩
    obtain ⟨j, below, n, use, address, size⟩ := fits.run sound listed large
    rw [address, size, ← r.pageAddress_add] at upper
    rw [address, ← Nat.one_mul r.pageSize, ← r.pageAddress_add] at lower
    have after : j + 1 ≤ i := r.le_of_pageAddress lower (by omega)
    have positive := sound.run_positive below use
    have before : i ≤ j + n - 1 := r.le_of_pageAddress (Nat.le_add_right _ offset)
      (by rwa [Nat.sub_add_cancel (by omega)])
    exact (sound.later_busy below (by rw [use]; rfl) (by omega) (by rw [use, Use.pages]; omega)).1
  · intro use
    obtain ⟨j, before, n, start, reach⟩ := sound.inner_run within use
    obtain ⟨b, listed, large, address, size⟩ := live_of_run fits sound (by omega) start
    have lower := r.pageAddress_mono (show j + 1 ≤ i from before)
    have upper := r.pageAddress_mono (show i + 1 ≤ j + n by omega)
    rw [r.pageAddress_add, Nat.one_mul] at lower
    rw [r.pageAddress_add j n] at upper
    exact ⟨b, listed, large, by omega, by omega, by omega⟩

theorem inFirstPage_iff (fits : t.Matches r s.live) (sound : t.Sound r) (within : i < r.pageCount)
    (inside : offset < r.pageSize) :
    s.InFirstPage r (r.pageAddress i + offset) ↔ offset ≠ 0 ∧ ∃ n, t.use i = .run n := by
  constructor
  · rintro ⟨b, listed, large, lower, upper⟩
    obtain ⟨j, below, n, use, address, _⟩ := fits.run sound listed large
    have place : r.pageAddress i + offset =
        r.pageAddress j + (r.pageAddress i + offset - b.address) := by omega
    obtain ⟨rfl, same⟩ := r.pageAddress_inj place inside (by omega)
    exact ⟨by omega, n, use⟩
  · rintro ⟨later, n, use⟩
    obtain ⟨b, listed, large, address, _⟩ := live_of_run fits sound within use
    exact ⟨b, listed, large, by omega, by omega⟩

theorem offChunk_iff (shows_ : r.Shows s.memory t) (sound : t.Sound r) (within : i < r.pageCount)
    (inside : offset < r.pageSize) :
    r.OffChunk s.memory (r.pageAddress i + offset) ↔ ∃ c taken, t.use i = .slab c taken ∧
      (offset % 2 ^ c.shift ≠ 0 ∨ offset / 2 ^ c.shift < r.geometry.recordReserved c) := by
  constructor
  · rintro ⟨j, below, c, carved, lower, upper, off⟩
    have place : r.pageAddress i + offset =
        r.pageAddress j + (r.pageAddress i + offset - r.pageAddress j) := by omega
    obtain ⟨rfl, same⟩ := r.pageAddress_inj place inside (by omega)
    obtain ⟨taken, slab⟩ := (shows_.carvingOf?_iff sound within).mp carved
    rw [← same] at off
    exact ⟨c, taken, slab, off⟩
  · rintro ⟨c, taken, slab, off⟩
    refine ⟨i, within, c, (shows_.carvingOf?_iff sound within).mpr ⟨taken, slab⟩, by omega, by omega, ?_⟩
    rwa [Nat.add_sub_cancel_left]

section

variable {pool : Pool} {p : Nat}

theorem contains_of_covers {b : Block} (fits : t.Matches pool.region s.live)
    (sound : t.Sound pool.region) (listed : b ∈ s.live) (covers : b.Covers pool.region.geometry p) :
    pool.contains p = true := by
  have bounds := sound.bounds (fits.lends listed)
  obtain ⟨lower, upper⟩ := covers
  refine Pool.contains_of_between (i := 0) (j := pool.region.pageCount) ?_ (by omega) (Nat.le_refl _)
  rw [Region.pageAddress]
  omega

/-- Every place that an answer can tell of is contained. -/
theorem contains_of_place (shows_ : pool.region.Shows s.memory t) (sound : t.Sound pool.region)
    (fits : t.Matches pool.region s.live)
    (place : s.IsLive p ∨ pool.region.InFreeRun s.memory p ∨ s.InLaterPage pool.region p ∨
      s.InFirstPage pool.region p ∨ pool.region.OffChunk s.memory p) : pool.contains p = true := by
  rcases place with ⟨b, listed, rfl⟩ | ⟨i, within, n, opens, lower, upper⟩ |
    ⟨b, listed, _, _, covers⟩ | ⟨b, listed, large, lower, upper⟩ |
    ⟨i, within, c, _, lower, upper, _⟩
  · obtain ⟨_, _, _, _, lends⟩ := fits.lends listed
    exact contains_of_covers fits sound listed ⟨Nat.le_refl _, by have := lends.positive; omega⟩
  · have use := (shows_.free_iff sound within n).mp opens.2.1
    have reach := sound.tiled.fits i within
    rw [use] at reach
    exact Pool.contains_of_between lower upper reach
  · exact contains_of_covers fits sound listed covers
  · have long := Geometry.pageSize_le_blockSize pool.region.valid large
    refine contains_of_covers fits sound listed ⟨by omega, ?_⟩
    unfold Region.pageSize at upper
    omega
  · refine Pool.contains_of_between (j := i + 1) lower ?_ within
    rwa [pool.region.pageAddress_add, Nat.one_mul]

end

end

end PoolState

namespace Use

variable {g : Geometry} {u : Use} {offset : Nat}

theorem verdict_ok_iff (positive : ∀ n, u = .run n → 0 < n) :
    u.verdict g offset = .ok () ↔ ∃ n, u.Lends g offset n := by
  cases u with
  | free n => simp [verdict, Lends]
  | interior => simp [verdict, Lends]
  | run n =>
    rw [verdict]
    split
    · rename_i first
      exact iff_of_true rfl ⟨_, positive n rfl, first, rfl⟩
    · rename_i later
      simp [Lends, later]
  | slab c taken =>
    have size := Nat.two_pow_pos c.shift
    rw [verdict]
    constructor
    · intro accepted
      split at accepted
      · cases accepted
      · rename_i place
        rw [not_or, not_not, Nat.not_lt] at place
        split at accepted
        · rename_i has
          exact ⟨_, offset / 2 ^ c.shift, place.2, has,
            (Nat.div_mul_cancel (Nat.dvd_of_mod_eq_zero place.1)).symm, rfl⟩
        · cases accepted
    · rintro ⟨_, k, caller, has, rfl, _⟩
      rw [Nat.mul_mod_left, Nat.mul_div_cancel _ size, if_neg (by omega), if_pos has]

theorem verdict_pageAlreadyFree_iff (g : Geometry) (offset : Nat) :
    u.verdict g offset = .error .pageAlreadyFree ↔ ∃ n, u = .free n := by
  cases u with
  | free n => simp [verdict]
  | interior => simp [verdict]
  | run n =>
    rw [verdict]
    split <;> simp
  | slab c taken =>
    rw [verdict]
    split
    · simp
    · split <;> simp

theorem verdict_wrongPage_iff (g : Geometry) (offset : Nat) :
    u.verdict g offset = .error .wrongPage ↔ u = .interior := by
  cases u with
  | free n => simp [verdict]
  | interior => simp [verdict]
  | run n =>
    rw [verdict]
    split <;> simp
  | slab c taken =>
    rw [verdict]
    split
    · simp
    · split <;> simp

theorem verdict_wrongChunk_iff : u.verdict g offset = .error .wrongChunk ↔
    (offset ≠ 0 ∧ ∃ n, u = .run n) ∨ ∃ c taken, u = .slab c taken ∧
      (offset % 2 ^ c.shift ≠ 0 ∨ offset / 2 ^ c.shift < g.recordReserved c) := by
  cases u with
  | free n => simp [verdict]
  | interior => simp [verdict]
  | run n =>
    rw [verdict]
    split
    · rename_i first
      simp [first]
    · rename_i later
      exact iff_of_true rfl (Or.inl ⟨later, n, rfl⟩)
  | slab c taken =>
    rw [verdict]
    split
    · rename_i off
      exact iff_of_true rfl (Or.inr ⟨c, taken, rfl, off⟩)
    · rename_i place
      have other : ¬((offset ≠ 0 ∧ ∃ n, slab c taken = .run n) ∨ ∃ d record,
          slab c taken = .slab d record ∧ (offset % 2 ^ d.shift ≠ 0 ∨
            offset / 2 ^ d.shift < g.recordReserved d)) := by
        rintro (⟨_, _, same⟩ | ⟨_, _, same, off⟩)
        · cases same
        · cases same
          exact place off
      refine iff_of_false ?_ other
      split <;> simp

theorem verdict_ne_outsidePool : u.verdict g offset ≠ .error .outsidePool := by
  unfold verdict
  split
  · nofun
  · nofun
  · split <;> nofun
  · split
    · nofun
    · split <;> nofun

end Use

/-- There are six answers. -/
theorem chunkAlreadyFree_iff (answer : Except ReleaseError Unit) :
    answer = .error .chunkAlreadyFree ↔ ¬(answer = .ok () ∨ answer = .error .outsidePool ∨
      answer = .error .pageAlreadyFree ∨ answer = .error .wrongPage ∨
      answer = .error .wrongChunk) := by
  rcases answer with e | _
  · cases e <;> simp
  · simp

/-- In every state that can be reached, the address of a block in use is taken
back and every other address is refused; where it lies tells why. -/
theorem Reachable.release_decides {pool : Pool} {s : PoolState} (reached : Reachable pool.region s)
    (p : Nat) :
    ∃ answer after, pool.release p s.memory = .ok (answer, after) ∧
      (answer = .ok () ↔ s.IsLive p) ∧
      (answer = .error .outsidePool ↔ pool.contains p = false) ∧
      (answer = .error .pageAlreadyFree ↔ pool.region.InFreeRun s.memory p) ∧
      (answer = .error .wrongPage ↔ s.InLaterPage pool.region p) ∧
      (answer = .error .wrongChunk ↔
        s.InFirstPage pool.region p ∨ pool.region.OffChunk s.memory p) ∧
      (answer = .error .chunkAlreadyFree ↔ ¬(s.IsLive p ∨ pool.contains p = false ∨
        pool.region.InFreeRun s.memory p ∨ s.InLaterPage pool.region p ∨
        s.InFirstPage pool.region p ∨ pool.region.OffChunk s.memory p)) := by
  obtain ⟨t, shows_, sound, fits⟩ := reached.invariant
  cases inside : pool.contains p with
  | false =>
    have nowhere := mt (PoolState.contains_of_place shows_ sound fits) (by rw [inside]; nofun)
    simp only [not_or] at nowhere
    obtain ⟨live, free, later, first, off⟩ := nowhere
    exact ⟨_, _, Pool.release_outside inside, iff_of_false nofun live, iff_of_true rfl rfl,
      iff_of_false nofun free, iff_of_false nofun later,
      iff_of_false nofun (not_or.mpr ⟨first, off⟩), iff_of_false nofun fun none => none (by simp)⟩
  | true =>
    -- The use of one page decides, and each answer is read back as a place.
    obtain ⟨i, within, offset, small, rfl, run⟩ := Pool.release_inside (m := s.memory) inside
    obtain ⟨after, ran, _⟩ := Pool.releaseIn_cases shows_ sound within small
    have taken := (Use.verdict_ok_iff fun n => sound.run_positive within).trans
      (PoolState.isLive_iff fits sound within small).symm
    have free := (Use.verdict_pageAlreadyFree_iff pool.region.geometry offset).trans
      (PoolState.inFreeRun_iff shows_ sound within small).symm
    have later := (Use.verdict_wrongPage_iff pool.region.geometry offset).trans
      (PoolState.inLaterPage_iff fits sound within small).symm
    have wrong := (Use.verdict_wrongChunk_iff (u := t.use i)).trans
      (or_congr (PoolState.inFirstPage_iff fits sound within small)
        (PoolState.offChunk_iff shows_ sound within small)).symm
    have outside : (t.use i).verdict pool.region.geometry offset = .error .outsidePool ↔
        true = false := iff_of_false Use.verdict_ne_outsidePool nofun
    refine ⟨_, after, run.trans ran, taken, outside, free, later, wrong, ?_⟩
    rw [chunkAlreadyFree_iff, taken, outside, free, later, wrong]

theorem release_decides_two_blocks : ∃ (pool : Pool) (s : PoolState),
    s.live = [⟨6144, 1500⟩, ⟨5136, 5⟩] ∧
      (∃ after, pool.release 5136 s.memory = .ok (.ok (), after)) ∧
      ∃ after, pool.release 6146 s.memory = .ok (.error .wrongChunk, after) := by
  obtain ⟨pool, _, s, _, _, geometry, live, reached⟩ := reachable_two_blocks
  refine ⟨pool, s, live, ?_, ?_⟩
  · obtain ⟨answer, after, run, accepted, _⟩ := reached.release_decides 5136
    have starts : s.IsLive 5136 := ⟨⟨5136, 5⟩, by rw [live]; simp, rfl⟩
    rw [accepted.mpr starts] at run
    exact ⟨after, run⟩
  · obtain ⟨answer, after, run, _, _, _, _, wrong, _⟩ := reached.release_decides 6146
    have first : s.InFirstPage pool.region 6146 := by
      refine ⟨⟨6144, 1500⟩, by rw [live]; simp, ?_, by decide, ?_⟩
      · rw [geometry]
        decide
      · rw [Region.pageSize, geometry]
        decide
    rw [wrong.mpr (Or.inl first)] at run
    exact ⟨after, run⟩

end SlabAllocator
