import SlabAllocator.Proofs.Segments

namespace SlabAllocator

namespace PageMap

/-- Every segment of the first map lies within one of the second. -/
def Finer (r : Region) (next t : PageMap) : Prop :=
  ∀ i < r.pageCount, 0 < (next.use i).pages →
    ∃ j ≤ i, i + (next.use i).pages ≤ j + (t.use j).pages

namespace Finer

variable {r : Region} {t next last : PageMap} {i n : Nat}

theorem of_pages (same : ∀ i < r.pageCount, (next.use i).pages = (t.use i).pages) :
    next.Finer r t :=
  fun i within _ => ⟨i, Nat.le_refl i, by rw [same i within]⟩

theorem refl (t : PageMap) : t.Finer r t := of_pages fun _ _ => rfl

theorem trans (one : last.Finer r next) (two : next.Finer r t) : last.Finer r t := by
  intro i within starts
  obtain ⟨j, before, reach⟩ := one i within starts
  obtain ⟨k, first, extent⟩ := two j (by omega) (by omega)
  exact ⟨k, by omega, by omega⟩

/-- Where every segment is short, those of a finer map are. -/
theorem pages_lt (finer : next.Finer r t) (positive : 0 < n)
    (short : ∀ i < r.pageCount, (t.use i).pages < n) :
    ∀ i < r.pageCount, (next.use i).pages < n := by
  intro i within
  by_cases starts : 0 < (next.use i).pages
  · obtain ⟨j, before, reach⟩ := finer i within starts
    have less := short j (by omega)
    omega
  · omega

/-- The pages taken and those left of a free run were all in that run. -/
theorem takeRun (xs ys : List Nat) {k : Nat} (sound : t.Sound r) (within : i < r.pageCount)
    (run : t.use i = .free k) (positive : 0 < n) (enough : n ≤ k) :
    (t.takeRun xs i ys n).Finer r t := by
  have pages : (t.use i).pages = k := by rw [run, Use.pages]
  intro j inside starts
  by_cases here : i ≤ j ∧ j < i + k
  · refine ⟨i, here.1, ?_⟩
    rw [pages]
    by_cases first : j = i
    · simpa [first] using enough
    by_cases taken : j < i + n
    · rw [use_takeRun_later (by omega) taken] at starts
      exact absurd starts (Nat.lt_irrefl 0)
    rw [sound.use_takeRun_rest xs ys within run positive (by omega) here.2] at starts ⊢
    split at starts
    · rename_i rest
      rw [if_pos rest, Use.pages]
      omega
    · exact absurd starts (Nat.lt_irrefl 0)
  · refine ⟨j, Nat.le_refl j, ?_⟩
    rw [use_takeRun_of_outside positive (by omega)]
    by_cases rest : j = i + n
    · rw [use_cutRun_whole (by omega)]
    · rw [use_cutRun_of_ne rest]

/-- A page that is a segment of its own stays one when it is cut into chunks. -/
theorem carve (c : Carving) (taken : ChunkSet) (single : (t.use i).pages = 1) :
    (t.carve r c i taken).Finer r t := by
  refine of_pages fun j _ => ?_
  by_cases here : j = i
  · simp [here, single]
  · simp [here]

theorem occupy {c : Carving} {old : ChunkSet} (taken : ChunkSet) (slab : t.use i = .slab c old) :
    (t.occupy r c i taken).Finer r t := by
  refine of_pages fun j _ => ?_
  by_cases here : j = i
  · simp [here, slab]
  · simp [here]

/-- A page of chunks comes back as a run of one page, if it does. -/
theorem settle {c : Carving} {old : ChunkSet} (left : ChunkSet) (slab : t.use i = .slab c old) :
    (t.settle r c i old left).Finer r t := by
  refine of_pages fun j _ => ?_
  by_cases here : j = i
  · rw [here, use_settle_self, slab]
    split <;> rfl
  · simp [here]

/-- A run comes back as it was handed out. -/
theorem returnRun (sound : t.Sound r) (within : i < r.pageCount) (run : t.use i = .run n) :
    (t.returnRun i n).Finer r t := by
  refine of_pages fun j _ => ?_
  by_cases first : j = i
  · simp [first, run]
  by_cases inner : i < j ∧ j < i + n
  · have old := (sound.later_busy within (by rw [run]; rfl) inner.1 (by rw [run]; exact inner.2)).1
    rw [use_returnRun_later inner.1 inner.2, old, Use.pages, Use.pages]
  · rw [use_returnRun_of_outside first inner]

end Finer

theorem Placed.finer {r : Region} {t next : PageMap} {size : Nat} {found : Option Nat}
    (placed : t.Placed r size found next) (sound : t.Sound r) : next.Finer r t := by
  cases placed with
  | @run xs ys i large split enough short =>
    obtain ⟨within, n, _, run⟩ := sound.listed_free split
    rw [run, Use.pages] at enough
    exact .takeRun xs ys sound within run (Geometry.pagesFor_pos r.valid large) enough
  | noRun => exact .refl t
  | chunk _ _ _ slab => exact .occupy _ slab
  | @page c i ys small form unlisted free =>
    obtain ⟨within, n, positive, run⟩ := sound.first_free free
    refine (Finer.carve c _ ?_).trans (.takeRun [] ys sound within run Nat.one_pos positive)
    simp
  | noPage => exact .refl t

theorem Freed.finer {r : Region} {t next : PageMap} {p size : Nat}
    (freed : t.Freed r p size next) (sound : t.Sound r) : next.Finer r t := by
  cases freed with
  | run within use => exact .returnRun sound within use
  | chunk _ slab => exact .settle _ slab

theorem Returned.finer {r : Region} {t next : PageMap} {p : Nat}
    {verdict : Except ReleaseError Unit} (back : t.Returned r p verdict next)
    (sound : t.Sound r) : next.Finer r t := by
  cases back with
  | outside => exact .refl t
  | refused => exact .refl t
  | accepted _ _ _ freed => exact freed.finer sound

/-- A call splits segments, or it leaves them as they are. -/
theorem Advances.finer {r : Region} {t next : PageMap} (moved : t.Advances r next)
    (sound : t.Sound r) : next.Finer r t := by
  cases moved with
  | placed placed => exact placed.finer sound
  | returned back => exact back.finer sound
  | same => exact .refl t

end PageMap

namespace PoolState

variable {r : Region} {pool : Pool} {s after : PoolState} {t : PageMap}

theorem Shown.later (shown : Shown r t s) (later : Later r s after) :
    ∃ next, Shown r next after ∧ next.Finer r t := by
  induction later with
  | rest => exact ⟨t, shown, .refl t⟩
  | call _ handle allowed run ih =>
    obtain ⟨between, good, finer⟩ := ih
    obtain ⟨_, next, ran, last, moved⟩ := good.perform handle allowed
    rw [run] at ran
    cases ran
    exact ⟨next, last, (moved.finer good.sound).trans finer⟩

/-- Where no block is in use, only free runs have pages. -/
theorem Shown.free_of_idle {i : Nat} (shown : Shown r t s) (idle : s.live = [])
    (within : i < r.pageCount) (starts : 0 < (t.use i).pages) : ∃ n, t.use i = .free n := by
  obtain ⟨_, sound, fits⟩ := shown
  have none : ∀ offset size, ¬(t.use i).Lends r.geometry offset size := by
    intro offset size lends
    obtain ⟨b, listed, _⟩ := (fits.holds _ size).mp ⟨i, within, offset, rfl, lends⟩
    rw [idle] at listed
    cases listed
  cases use : t.use i with
  | free n => exact ⟨n, rfl⟩
  | run n =>
    rw [use] at none starts
    exact absurd ⟨starts, rfl, rfl⟩ (none 0 (n * r.pageSize))
  | interior =>
    rw [use] at starts
    exact absurd starts (Nat.lt_irrefl 0)
  | slab c taken =>
    obtain ⟨_, kept⟩ := sound.slab i within c taken use
    obtain ⟨k, caller, has⟩ := kept.used
    rw [use] at none
    exact absurd ⟨k, caller, has, rfl, rfl⟩ (none (k * 2 ^ c.shift) (2 ^ c.shift))

/-- An allocated run is a block in use. -/
theorem Shown.live_of_run {i n : Nat} (shown : Shown r t s) (within : i < r.pageCount)
    (opens : r.Opens s.memory i (.run n)) : ∃ b ∈ s.live, b.address = r.pageAddress i ∧
      r.geometry.blockSize b.size = n * r.pageSize := by
  have use : t.use i = .run n := by
    have here := (shown.shows_.segment?_eq shown.sound within opens).1
    generalize t.use i = u at here
    rcases u with (_ | k) | k | _ | ⟨c, taken⟩ <;> cases here
    rfl
  refine (shown.fits.holds _ _).mp ⟨i, within, 0, rfl, ?_⟩
  rw [use]
  exact ⟨opens.1, rfl, rfl⟩

end PoolState

namespace Region

/-- Every segment of the second memory lies within one of the first. -/
def SplitsOnly (r : Region) (m after : Memory) : Prop :=
  ∀ i < r.pageCount, ∀ piece, r.Opens after i piece →
    ∃ j ≤ i, ∃ whole, r.Opens m j whole ∧ i + piece.pages ≤ j + whole.pages

/-- The number of pages of the longest segment. -/
def longest (segments : List Segment) : Nat := (segments.map Segment.pages).foldr max 0

variable {r : Region} {m after : Memory} {t next : PageMap} {segments : List Segment} {n : Nat}

theorem longest_le_iff : longest segments ≤ n ↔ ∀ s ∈ segments, s.pages ≤ n := by
  induction segments with
  | nil => simp [longest]
  | cons s rest ih =>
    rw [longest, List.map_cons, List.foldr_cons, Nat.max_le, List.forall_mem_cons]
    exact and_congr_right fun _ => ih

theorem Shows.splitsOnly (shows_ : r.Shows m t) (sound : t.Sound r) (shown : r.Shows after next)
    (good : next.Sound r) (finer : next.Finer r t) : r.SplitsOnly m after := by
  intro i within piece opens
  obtain ⟨_, pages⟩ := shown.segment?_eq good within opens
  have some := opens.pages_pos
  obtain ⟨j, before, reach⟩ := finer i within (by omega)
  obtain ⟨whole, length, starts⟩ := shows_.opens sound (show j < r.pageCount by omega) (by omega)
  exact ⟨j, before, whole, starts, by omega⟩

/-- A split lists all segments. -/
theorem Shows.mem_split_iff {s : Segment} (shows_ : r.Shows m t) (sound : t.Sound r)
    (split : r.Split m 0 segments) :
    s ∈ segments ↔ ∃ i < r.pageCount, r.Opens m i s := by
  rw [shows_.split_eq sound split, List.mem_filterMap]
  simp only [List.mem_range'_1, Nat.zero_le, true_and, Nat.zero_add, Nat.sub_zero]
  refine exists_congr fun i => and_congr_right fun within => ?_
  constructor
  · intro here
    have starts : 0 < (t.use i).pages := by
      cases use : t.use i with
      | free n =>
        cases n with
        | zero =>
          rw [use] at here
          cases here
        | succ n => exact Nat.succ_pos n
      | run n => exact sound.run_positive within use
      | interior =>
        rw [use] at here
        cases here
      | slab c taken => exact Nat.one_pos
    obtain ⟨other, _, opens⟩ := shows_.opens sound within starts
    rw [(shows_.segment?_eq sound within opens).1] at here
    cases here
    exact opens
  · exact fun opens => (shows_.segment?_eq sound within opens).1

/-- The longest segment does not grow. -/
theorem SplitsOnly.longest_le {pieces : List Segment} (splits : r.SplitsOnly m after)
    (shows_ : r.Shows m t) (sound : t.Sound r) (shown : r.Shows after next) (good : next.Sound r)
    (before : r.Split m 0 segments) (split : r.Split after 0 pieces) :
    longest pieces ≤ longest segments := by
  refine longest_le_iff.mpr fun piece member => ?_
  obtain ⟨i, within, opens⟩ := (shown.mem_split_iff good split).mp member
  obtain ⟨j, lower, whole, starts, reach⟩ := splits i within piece opens
  have listed := (shows_.mem_split_iff sound before).mpr ⟨j, by omega, starts⟩
  have most := longest_le_iff.mp (Nat.le_refl (longest segments)) whole listed
  omega

end Region

namespace Pool

/-- A request for memory, with zeros in it or as it comes. -/
def request (pool : Pool) (zeroed : Bool) (size : Nat) :
    Memory → Except Fault (Except PoolError Nat × Memory) :=
  if zeroed then pool.allocateZeroed size else pool.allocate size

/-- A request is answered, and turned down. -/
def Lacks (pool : Pool) (zeroed : Bool) (size : Nat) (m : Memory) : Prop :=
  ∃ e after, pool.request zeroed size m = .ok (.error e, after)

end Pool

namespace PoolState

variable {r : Region} {pool : Pool} {s : PoolState} {t : PageMap} {size : Nat} {zeroed : Bool}

theorem Shown.request (shown : Shown r t s) (handle : pool.region = r) (zeroed : Bool)
    (size : Nat) : ∃ found after next,
      pool.request zeroed size s.memory = .ok (answerFor size found, after) ∧
      t.Placed r size found next := by
  cases zeroed with
  | false =>
    obtain ⟨found, after, next, run, placed, _⟩ := shown.allocate handle size
    exact ⟨found, after, next, run, placed⟩
  | true =>
    obtain ⟨found, after, next, run, placed, _⟩ := shown.allocateZeroed handle size
    exact ⟨found, after, next, run, placed⟩

/-- A request for whole pages is turned down exactly where no free run is long
enough. -/
theorem Shown.lacks_iff (shown : Shown r t s) (handle : pool.region = r)
    (large : r.geometry.maxSize ≤ size) : pool.Lacks zeroed size s.memory ↔
      ∀ i < r.pageCount, ∀ n, t.use i = .free n → n < r.geometry.pagesFor size := by
  obtain ⟨found, after, next, run, placed⟩ := shown.request handle zeroed size
  rw [Pool.Lacks, run]
  cases placed with
  | @run xs ys i _ split enough short =>
    obtain ⟨within, n, _, use⟩ := shown.sound.listed_free split
    rw [use, Use.pages] at enough
    refine iff_of_false ?_ fun every => ?_
    · rintro ⟨_, _, same⟩
      cases same
    · have less := every i within n use
      omega
  | noRun _ short =>
    refine iff_of_true ⟨_, _, rfl⟩ fun i within n use => ?_
    rcases Nat.eq_zero_or_pos n with rfl | positive
    · exact Geometry.pagesFor_pos r.valid large
    · have less := short i ((shown.sound.free i).mpr ⟨within, n, positive, use⟩)
      rwa [use, Use.pages] at less
  | chunk small => omega
  | page small => omega
  | noPage small => omega

/-- Where nothing is in use, a request for whole pages is turned down only
because all segments are too short. -/
theorem Shown.short_of_lacks (shown : Shown r t s) (handle : pool.region = r) (idle : s.live = [])
    (large : r.geometry.maxSize ≤ size) (lacks : pool.Lacks zeroed size s.memory) :
    ∀ i < r.pageCount, (t.use i).pages < r.geometry.pagesFor size := by
  intro i within
  rcases Nat.eq_zero_or_pos (t.use i).pages with none | starts
  · rw [none]
    exact Geometry.pagesFor_pos r.valid large
  · obtain ⟨n, use⟩ := shown.free_of_idle idle within starts
    rw [use]
    exact (shown.lacks_iff handle large).mp lacks i within n use

theorem Shown.lacks_of_short (shown : Shown r t s) (handle : pool.region = r)
    (large : r.geometry.maxSize ≤ size)
    (short : ∀ i < r.pageCount, (t.use i).pages < r.geometry.pagesFor size) :
    pool.Lacks zeroed size s.memory := by
  refine (shown.lacks_iff handle large).mpr fun i within n use => ?_
  have less := short i within
  rwa [use] at less

end PoolState

/-- The segments are free runs, runs in use and single pages of chunks. They are
only ever split. So the longest one never grows, and a request for whole pages
that is turned down while no block is in use is turned down ever after. -/
theorem Reachable.runs_only_split {r : Region} {s : PoolState} (reached : Reachable r s) :
    (∀ i < r.pageCount, ∀ n, r.Opens s.memory i (.run n) →
      ∃ b ∈ s.live, b.address = r.pageAddress i ∧
        r.geometry.blockSize b.size = n * r.pageSize) ∧
    (∀ (pool : Pool) (c : Call), pool.region = r → c.Allowed r.geometry s.live →
      ∃ after, pool.perform s c = .ok after ∧ r.SplitsOnly s.memory after.memory) ∧
    ∀ after, Later r s after →
      r.SplitsOnly s.memory after.memory ∧
      (∃ segments pieces, r.Split s.memory 0 segments ∧ r.Split after.memory 0 pieces) ∧
      (∀ segments pieces, r.Split s.memory 0 segments → r.Split after.memory 0 pieces →
        Region.longest pieces ≤ Region.longest segments) ∧
      (s.live = [] → ∀ (pool other : Pool) (zeroed also : Bool) (size too : Nat),
        pool.region = r → other.region = r →
        r.geometry.maxSize ≤ size → r.geometry.maxSize ≤ too →
        (too + r.pageSize - 1) / r.pageSize = (size + r.pageSize - 1) / r.pageSize →
        pool.Lacks zeroed size s.memory → other.Lacks also too after.memory) := by
  obtain ⟨t, shown⟩ := reached.invariant.shown
  refine ⟨fun i within n => shown.live_of_run within, fun pool c handle allowed => ?_,
    fun after later => ?_⟩
  · obtain ⟨after, next, run, good, moved⟩ := shown.perform handle allowed
    exact ⟨after, run, shown.shows_.splitsOnly shown.sound good.shows_ good.sound
      (moved.finer shown.sound)⟩
  · obtain ⟨next, good, finer⟩ := shown.later later
    have splits := shown.shows_.splitsOnly shown.sound good.shows_ good.sound finer
    obtain ⟨segments, before⟩ := shown.invariant.wellFormed.split
    obtain ⟨pieces, split⟩ := good.invariant.wellFormed.split
    refine ⟨splits, ⟨segments, pieces, before, split⟩,
      fun _ _ => splits.longest_le shown.shows_ shown.sound good.shows_ good.sound, ?_⟩
    intro idle pool other zeroed also size too handle same large big pages lacks
    have length : r.geometry.pagesFor too = r.geometry.pagesFor size := by
      rw [Geometry.pagesFor_eq, Geometry.pagesFor_eq]
      exact pages
    have short := shown.short_of_lacks handle idle large lacks
    rw [← length] at short
    exact good.lacks_of_short same big
      (finer.pages_lt (Geometry.pagesFor_pos r.valid big) short)

/-- Four pages are not to be had of a new pool of three, and not of one in use
either, for zeros or not. -/
theorem runs_only_split_two_blocks : ∃ (pool : Pool) (m : Memory) (s : PoolState),
    Reachable pool.region ⟨m, []⟩ ∧ Later pool.region ⟨m, []⟩ s ∧
      s.live = [⟨6144, 1500⟩, ⟨5136, 5⟩] ∧
      pool.region.SplitsOnly m s.memory ∧ pool.Lacks true 3500 s.memory := by
  obtain ⟨pool, m, s, created, ran, geometry, live, _⟩ := reachable_two_blocks
  have new : Reachable pool.region ⟨m, []⟩ := .create created rfl
  have later : Later pool.region ⟨m, []⟩ s := Later.rest.calls (by simp [Call.Allowed]) ran
  have none : ([] : List Call).foldlM pool.perform ⟨m, []⟩ = .ok ⟨m, []⟩ := rfl
  have answer := trial_eq (fun pool s => (pool.allocate 4000 s.memory).map Prod.fst)
    (.error (.exhausted 4000)) created none (by decide +kernel)
  have lacks : pool.Lacks false 4000 m := by
    cases run : pool.allocate 4000 m with
    | error e =>
      rw [run] at answer
      cases answer
    | ok reply =>
      rw [run] at answer
      exact ⟨_, reply.2, run.trans (by rw [← Except.ok.inj answer])⟩
  obtain ⟨splits, _, _, ever⟩ := new.runs_only_split.2.2 s later
  refine ⟨pool, m, s, new, later, live, splits, ?_⟩
  have large : pool.region.geometry.maxSize ≤ 3500 := by
    rw [geometry]
    decide
  have pages : (3500 + pool.region.pageSize - 1) / pool.region.pageSize =
      (4000 + pool.region.pageSize - 1) / pool.region.pageSize := by
    rw [Region.pageSize, geometry]
    rfl
  exact ever rfl pool pool false true 4000 3500 rfl rfl (by omega) large pages lacks

end SlabAllocator
