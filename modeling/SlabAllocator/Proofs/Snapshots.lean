import SlabAllocator.Proofs.Twins

namespace SlabAllocator

/-- The same with the pointer that is named moved up. -/
def Request.shift (gap : Int) : Request → Request
  | .release distance => .release (distance + gap)
  | q => q

/-- The same with the pointer that is named moved up. -/
def Response.shift (gap : Int) : Response → Response
  | .placed distance => .placed (distance + gap)
  | response => response

def Turn.shift (gap : Int) (turn : Turn) : Turn := { turn with request := turn.request.shift gap }

/-- The answers to a script in which pointers are told by their distance from
the first page. -/
def Pool.replies (pool : Pool) (turns : List Turn) (m : Memory) :
    Except Fault (List (Option Response)) := do
  let trace ← pool.script (turns.map (Turn.shift pool.region.layout.dataAt)) m
  return trace.map fun result => result.1.map (Response.shift (-pool.region.layout.dataAt))

/-- The bitmap that a page holds itself, if it is cut into small chunks. -/
def Region.bitmap (r : Region) (i : Nat) (m : Memory) : List Word :=
  match (r.descriptor i m).role with
  | .small shift => m.words (r.pageAddress i) (r.geometry.bitmapWords shift)
  | _ => []

/-- What a snapshot leaves out: the bitmaps that are kept in the pages. -/
def Region.bitmaps (r : Region) (m : Memory) : List (List Word) :=
  (List.range r.pageCount).map fun i => r.bitmap i m

/-- But for pages of chunks, the role of a page tells its use. -/
theorem Use.eq_of_role {u v : Use} (same : u.role = v.role) (plain : ∀ c taken, u ≠ .slab c taken) :
    v = u := by
  rcases u with n | n | _ | ⟨c, taken⟩
  · rcases v with k | k | _ | ⟨⟨kind, shift⟩, left⟩
    · cases same
      rfl
    · cases same
    · cases same
    · cases kind <;> cases same
  · rcases v with k | k | _ | ⟨⟨kind, shift⟩, left⟩
    · cases same
    · cases same
      rfl
    · cases same
    · cases kind <;> cases same
  · rcases v with k | k | _ | ⟨⟨kind, shift⟩, left⟩
    · cases same
    · cases same
    · rfl
    · cases kind <;> cases same
  · exact absurd rfl (plain c taken)

namespace Region

variable {r other : Region} {m seen : Memory} {t left : PageMap} {i : Nat}

namespace SameShape

theorem carvingOf?_eq (shape : r.SameShape other) (role : Role) :
    other.carvingOf? role = r.carvingOf? role := by
  unfold carvingOf?
  rw [shape.geometry]

/-- Descriptors and bitmaps tell what a page is used for. -/
theorem use_eq (shape : r.SameShape other) (one : r.Shows m t) (sound : t.Sound r)
    (two : other.Shows seen left) (good : left.Sound other) (within : i < r.pageCount)
    (same : other.descriptor i seen = r.descriptor i m)
    (bitmap : other.bitmap i seen = r.bitmap i m) : left.use i = t.use i := by
  have inside : i < other.pageCount := shape.pages ▸ within
  have role := one.role_eq within (sound.spelled within)
  by_cases slab : ∃ c taken, t.use i = .slab c taken
  · obtain ⟨c, taken, slab⟩ := slab
    have carved := (one.carvingOf?_iff sound within).mpr ⟨taken, slab⟩
    rw [← shape.carvingOf?_eq, ← same] at carved
    obtain ⟨record, cut⟩ := (two.carvingOf?_iff good inside).mp carved
    have records : other.recordOf c i seen = r.recordOf c i m := by
      rw [slab] at role
      obtain ⟨kind, shift⟩ := c
      cases kind with
      | small =>
        have words := bitmap
        rw [Use.role] at role
        rw [Region.bitmap, Region.bitmap, same, role] at words
        exact congrArg ChunkSet.mk words
      | exact => rw [recordOf, recordOf, same]
      | big => rw [recordOf, recordOf, same]
    rw [two.recordOf_eq inside (good.spelled inside) cut,
      one.recordOf_eq within (sound.spelled within) slab] at records
    rw [cut, slab, records]
  · have also := two.role_eq inside (good.spelled inside)
    rw [same, role] at also
    exact Use.eq_of_role also fun c taken here => slab ⟨c, taken, here⟩

end SameShape

/-- Equal snapshots tell the number of pages, the lists and the descriptors. -/
theorem Shows.of_snapshot (one : r.Shows m t) (two : other.Shows seen left)
    (geometry : other.geometry = r.geometry) (same : other.snapshot seen = r.snapshot m) :
    r.SameShape other ∧ (∀ list, r.HasList list → t.lists list = left.lists list) ∧
      ∀ i < r.pageCount, other.descriptor i seen = r.descriptor i m := by
  rw [one.snapshot_eq, two.snapshot_eq] at same
  obtain ⟨free, slots, descriptors⟩ := Snapshot.mk.inj (Except.ok.inj same)
  have pages : other.pageCount = r.pageCount := by
    have lengths := congrArg List.length descriptors
    rwa [List.length_map, List.length_map, List.length_range, List.length_range] at lengths
  have shape : r.SameShape other := ⟨geometry, pages⟩
  rw [shape.slots] at slots
  rw [pages] at descriptors
  refine ⟨shape, fun list known => ?_, fun i within => ?_⟩
  · cases list with
    | free => exact free.symm
    | slot s => exact (List.map_inj_left.mp slots s (List.mem_range.mpr known)).symm
  · exact List.map_inj_left.mp descriptors i (List.mem_range.mpr within)

end Region

/-- Equal snapshots and bitmaps show one and the same map. -/
theorem PoolState.Shown.of_snapshot {r other : Region} {t left : PageMap} {s seen : PoolState}
    (one : Shown r t s) (two : Shown other left seen) (geometry : other.geometry = r.geometry)
    (same : other.snapshot seen.memory = r.snapshot s.memory)
    (bitmaps : other.bitmaps seen.memory = r.bitmaps s.memory) :
    r.SameShape other ∧ Shown other t seen := by
  obtain ⟨shape, lists, descriptors⟩ := one.shows_.of_snapshot two.shows_ geometry same
  rw [Region.bitmaps, Region.bitmaps, shape.pages] at bitmaps
  have use : ∀ i < other.pageCount, left.use i = t.use i := by
    intro i within
    rw [shape.pages] at within
    exact shape.use_eq one.shows_ one.sound two.shows_ two.sound within (descriptors i within)
      (List.map_inj_left.mp bitmaps i (List.mem_range.mpr within))
  refine ⟨shape, ⟨two.shows_.linked.congr_lists fun list known => ?_, fun i within => ?_,
    fun i within => ?_⟩, shape.sound one.sound, two.fits.distinct, fun p n => ?_⟩
  · exact lists list ((shape.hasList_iff list).mp known)
  · rw [← use i within]
    exact two.shows_.descriptor i within
  · rw [← use i within]
    exact two.shows_.row i within
  · rw [← two.fits.holds]
    unfold PageMap.Holds
    refine exists_congr fun i => and_congr_right fun within => ?_
    rw [use i within]

namespace Region

variable {r other : Region} {seen : Memory} {t next : PageMap}

/-- A request is answered alike over regions of one shape, if pointers are told
by their distance from the first page. -/
theorem SameShape.responds {q : Request} {response : Response} (shape : r.SameShape other)
    (sound : t.Sound r) (sees : other.Shows seen t)
    (responds : t.Responds r (q.shift r.layout.dataAt) response next) : ∃ echo,
      t.Responds other (q.shift other.layout.dataAt) echo next ∧
        echo.shift (-other.layout.dataAt) = response.shift (-r.layout.dataAt) := by
  have placed (size : Nat) (place : Option Nat) :
      (Response.ofAnswer other.base (answerFor size (place.map (other.start + ·)))).shift
          (-other.layout.dataAt) =
        (Response.ofAnswer r.base (answerFor size (place.map (r.start + ·)))).shift
          (-r.layout.dataAt) := by
    cases place with
    | none => rfl
    | some d =>
      simp only [Option.map_some, answerFor, Response.ofAnswer, Response.shift, start,
        Response.placed.injEq]
      omega
  cases q with
  | allocate size =>
    cases responds with
    | allocate here =>
      obtain ⟨place, rfl, there⟩ := shape.placed here
      exact ⟨_, .allocate there, placed size place⟩
  | allocateZeroed size =>
    cases responds with
    | allocateZeroed here =>
      obtain ⟨place, rfl, there⟩ := shape.placed here
      exact ⟨_, .allocateZeroed there, placed size place⟩
  | release distance =>
    cases responds with
    | release back =>
      have first := r.header_le_start
      have second := other.header_le_start
      refine ⟨_, .release (shape.returned back ?_), ?_⟩
      · unfold start Layout.headerSize at first second
        by_cases before : distance < 0
        · refine Or.inl ⟨?_, ?_⟩ <;> unfold start <;> omega
        · refine Or.inr ⟨distance.toNat, ?_, ?_⟩ <;> unfold start <;> omega
      · rename_i verdict
        cases verdict <;> rfl
  | usage =>
    cases responds with
    | usage shows_ run =>
      refine ⟨_, .usage sees ?_, rfl⟩
      rw [shows_.usage_same_of_shape shape sees sound, run]
  | snapshot =>
    cases responds with
    | snapshot shows_ run =>
      refine ⟨_, .snapshot sees ?_, rfl⟩
      rw [shows_.snapshot_same_of_shape shape sees, run]

/-- Two pools of one shape that one map describes. -/
structure Peers (r other : Region) (t : PageMap) (s seen : PoolState) : Prop where
  shape : r.SameShape other
  one : PoolState.Shown r t s
  two : PoolState.Shown other t seen

namespace Peers

variable {pool second : Pool} {s s' : PoolState}

theorem setLockWord (peers : r.Peers other t s s') (word : UInt32) :
    r.Peers other t ⟨r.setLockWord word s.memory, s.live⟩
      ⟨other.setLockWord word s'.memory, s'.live⟩ where
  shape := peers.shape
  one := peers.one.setLockWord word
  two := peers.two.setLockWord word

theorem respond (peers : pool.region.Peers second.region t s s') (q : Request) :
    ∃ response echo after left next live also,
      pool.respond s.memory (q.shift pool.region.layout.dataAt) = .ok (response, after) ∧
      second.respond s'.memory (q.shift second.region.layout.dataAt) = .ok (echo, left) ∧
      echo.shift (-second.region.layout.dataAt) = response.shift (-pool.region.layout.dataAt) ∧
      pool.region.Peers second.region next ⟨after, live⟩ ⟨left, also⟩ ∧
      pool.region.lockWord after = pool.region.lockWord s.memory ∧
      second.region.lockWord left = second.region.lockWord s'.memory := by
  obtain ⟨shape, one, two⟩ := peers
  obtain ⟨response, after, next, run, responds, shown, inside⟩ := one.respond _
  obtain ⟨echo, left, last, ran, echoes, shows_, within⟩ := two.respond _
  obtain ⟨same, there, alike⟩ := shape.responds one.sound two.shows_ responds
  obtain ⟨rfl, rfl⟩ := there.unique echoes two.sound
  exact ⟨response, same, after, left, next, _, _, run, ran, alike, ⟨shape, shown, shows_⟩,
    inside.lockWord, within.lockWord⟩

/-- So is a turn, if the lock is free where it is to be taken. -/
theorem turn (peers : pool.region.Peers second.region t s s') (turn : Turn)
    (free : turn.locking = true →
      pool.region.lockWord s.memory = 0 ∧ second.region.lockWord s'.memory = 0) :
    ∃ response echo after left next live also,
      pool.turn (turn.shift pool.region.layout.dataAt) s.memory = .ok (response, after) ∧
      second.turn (turn.shift second.region.layout.dataAt) s'.memory = .ok (echo, left) ∧
      echo.map (Response.shift (-second.region.layout.dataAt)) =
        response.map (Response.shift (-pool.region.layout.dataAt)) ∧
      pool.region.Peers second.region next ⟨after, live⟩ ⟨left, also⟩ ∧
      pool.region.lockWord after = pool.region.lockWord s.memory ∧
      second.region.lockWord left = second.region.lockWord s'.memory := by
  obtain ⟨locking, q⟩ := turn
  cases locking with
  | false =>
    obtain ⟨response, echo, after, left, next, live, also, run, ran, alike, follow, here, there⟩ :=
      peers.respond q
    exact ⟨some response, some echo, after, left, next, live, also, Pool.turn_plain run,
      Pool.turn_plain ran, congrArg some alike, follow, here, there⟩
  | true =>
    obtain ⟨zero, none⟩ := free rfl
    obtain ⟨response, echo, after, left, next, live, also, run, ran, alike, follow, _, _⟩ :=
      (peers.setLockWord 1).respond q
    refine ⟨some response, some echo, _, _, next, live, also, Pool.turn_locking zero run,
      Pool.turn_locking none ran, congrArg some alike, follow.setLockWord 0, ?_, ?_⟩
    · simp [zero]
    · simp [none]

end Peers

end Region

namespace Pool

variable {pool : Pool} {m after : Memory} {turn : Turn} {rest : List Turn}

theorem replies_of_turn {response : Option Response} {others : List (Option Response)}
    (run : pool.turn (turn.shift pool.region.layout.dataAt) m = .ok (response, after))
    (later : pool.replies rest after = .ok others) : pool.replies (turn :: rest) m =
      .ok (response.map (Response.shift (-pool.region.layout.dataAt)) :: others) := by
  obtain ⟨trace, ran, last⟩ := answer_of_bind later
  cases last
  simp [replies, script, run, ran]

end Pool

/-- A script is answered alike by two pools of one shape that one map describes. -/
theorem Region.Peers.replies {pool second : Pool} {t : PageMap} {s s' : PoolState}
    (peers : pool.region.Peers second.region t s s') (turns : List Turn)
    (free : ∀ turn ∈ turns, turn.locking = true →
      pool.region.lockWord s.memory = 0 ∧ second.region.lockWord s'.memory = 0) :
    ∃ answers, pool.replies turns s.memory = .ok answers ∧
      second.replies turns s'.memory = .ok answers := by
  induction turns generalizing s s' t with
  | nil => exact ⟨[], rfl, rfl⟩
  | cons turn rest ih =>
    obtain ⟨response, echo, after, left, next, live, also, run, ran, alike, follow, here, there⟩ :=
      peers.turn turn (free turn List.mem_cons_self)
    obtain ⟨answers, one, two⟩ := ih follow fun later member locking => by
      obtain ⟨zero, none⟩ := free later (List.mem_cons_of_mem turn member) locking
      exact ⟨here.trans zero, there.trans none⟩
    refine ⟨_, Pool.replies_of_turn run one, ?_⟩
    rw [← alike]
    exact Pool.replies_of_turn ran two

/-- A snapshot together with the bitmaps that pages of small chunks hold tells
all that a pool goes by: wherever two pools of one geometry agree in these, they
have the same usage and answer every script alike. -/
theorem Reachable.snapshot_tells {pool second : Pool} {s s' : PoolState} {tables : Snapshot}
    (one : Reachable pool.region s) (two : Reachable second.region s')
    (geometry : second.region.geometry = pool.region.geometry)
    (told : pool.region.snapshot s.memory = .ok tables)
    (again : second.region.snapshot s'.memory = .ok tables)
    (bitmaps : second.region.bitmaps s'.memory = pool.region.bitmaps s.memory) :
    (∃ counts, pool.region.usage s.memory = .ok counts ∧
      second.region.usage s'.memory = .ok counts) ∧
    ∀ turns : List Turn,
      (∀ turn ∈ turns, turn.locking = true →
        pool.region.lockWord s.memory = 0 ∧ second.region.lockWord s'.memory = 0) →
      ∃ answers, pool.replies turns s.memory = .ok answers ∧
        second.replies turns s'.memory = .ok answers := by
  obtain ⟨t, shown⟩ := one.invariant.shown
  obtain ⟨left, seen⟩ := two.invariant.shown
  obtain ⟨shape, also⟩ := shown.of_snapshot seen geometry (again.trans told.symm) bitmaps
  have counts := shown.shows_.usage_eq shown.sound rfl
  have same := shown.shows_.usage_same_of_shape shape also.shows_ shown.sound
  exact ⟨⟨_, counts, same.trans counts⟩, Region.Peers.replies ⟨shape, shown, also⟩⟩

/-- Where a pool lies, the blocks in use, and all that its answers depend on. -/
structure Portrait where
  start : Nat
  geometry : Geometry
  live : List Block
  lockWord : UInt32
  tables : Snapshot
  bitmaps : List (List Word)
  deriving DecidableEq

def Pool.portrait (pool : Pool) (s : PoolState) : Except Fault Portrait := do
  let r := pool.region
  let tables ← r.snapshot s.memory
  return ⟨r.start, r.geometry, s.live, r.lockWord s.memory, tables, r.bitmaps s.memory⟩

/-- A page of the smallest chunks and an allocated run of two pages. -/
def chunksAndRun : Snapshot where
  freeList := []
  slotLists := [[0], [], [], [], [], [], []]
  descriptors := [⟨3, .nil, .nil, 3, 0, 0⟩, ⟨0x8000000000000002, .nil, .nil, 0, 255, 0⟩,
    ⟨0xffffffffffffffff, .nil, .nil, 0, 255, 0⟩]

/-- Two pools at different addresses that were used in different ways, with the
same tables and bitmaps. -/
theorem snapshot_tells_elsewhere : ∃ (pool second : Pool) (s s' : PoolState),
    pool.region.start = 5120 ∧ second.region.start = 6144 ∧
      s.live = [⟨6144, 1500⟩, ⟨5136, 5⟩] ∧ s'.live = [⟨7168, 2000⟩, ⟨6160, 8⟩] ∧
      ∃ answers, pool.replies [⟨true, .allocate 6⟩, ⟨false, .release 16⟩] s.memory = .ok answers ∧
        second.replies [⟨true, .allocate 6⟩, ⟨false, .release 16⟩] s'.memory = .ok answers := by
  obtain ⟨pool, m, s, created, ran, one⟩ := of_trial 4096 4096
    [.allocate 5, .allocate 1500] Pool.portrait
    ⟨5120, ⟨10, 3⟩, [⟨6144, 1500⟩, ⟨5136, 5⟩], 0, chunksAndRun, [[7, 0], [], []]⟩
    (by decide +kernel)
  obtain ⟨second, m', s', made, used, two⟩ := of_trial 5128 4088
    [.allocate 8, .allocate 3, .release 6168, .allocate 2000] Pool.portrait
    ⟨6144, ⟨10, 3⟩, [⟨7168, 2000⟩, ⟨6160, 8⟩], 0, chunksAndRun, [[7, 0], [], []]⟩
    (by decide +kernel)
  obtain ⟨_, told, one⟩ := answer_of_bind one
  obtain ⟨_, again, two⟩ := answer_of_bind two
  simp only [pure_eq_ok, Except.ok.injEq, Portrait.mk.injEq] at one two
  obtain ⟨start, geometry, live, free, rfl, here⟩ := one
  obtain ⟨place, same, blocks, idle, rfl, there⟩ := two
  have alike := Reachable.snapshot_tells (reachable_trial created ran (by simp [Call.Allowed]))
    (reachable_trial made used (by simp [Call.Allowed])) (same.trans geometry.symm) told again
    (there.trans here.symm)
  exact ⟨pool, second, s, s', start, place, live, blocks,
    alike.2 _ fun turn _ _ => ⟨free, idle⟩⟩

/-- What a pool shows of itself, and what it answers to the next request for five
bytes. -/
def Pool.outlook (pool : Pool) (s : PoolState) :
    Except Fault (Snapshot × Usage × List (Option Response)) := do
  let tables ← pool.region.snapshot s.memory
  let counts ← pool.region.usage s.memory
  let answers ← pool.replies [⟨true, .allocate 5⟩] s.memory
  return (tables, counts, answers)

/-- A page of the smallest chunks and a free run of two pages. -/
def chunksAndRoom : Snapshot where
  freeList := [1]
  slotLists := [[0], [], [], [], [], [], []]
  descriptors := [⟨3, .nil, .nil, 3, 0, 0⟩, ⟨2, .nil, .nil, 0, 254, 0⟩, .blank]

/-- The usage of such a pool with two chunks in use. -/
def twoChunks : Usage where
  pageSize := 1024
  pages := 3
  freePages := 2
  freeRuns := 1
  largestFreeRun := 2
  runPages := 0
  slots := [⟨8, 1, 1, 2, 126⟩, ⟨16, 0, 0, 0, 0⟩, ⟨32, 0, 0, 0, 0⟩, ⟨64, 0, 0, 0, 0⟩,
    ⟨128, 0, 0, 0, 0⟩, ⟨256, 0, 0, 0, 0⟩, ⟨512, 0, 0, 0, 0⟩]

/-- Without the bitmaps a snapshot does not tell what the pool does next. Of three
chunks the first was taken back here and the second there; neither a snapshot nor
the usage shows a difference, but a different chunk is handed out. -/
theorem snapshot_misses_bitmaps : ∃ (pool : Pool) (m : Memory) (s s' : PoolState),
    Pool.create 4096 4096 ⟨3, 1024, 0, false, ""⟩ (Memory.uniform 0 0 0) = (.ok pool, m) ∧
      [Call.allocate 5, .allocate 5, .allocate 5, .release 5136].foldlM pool.perform ⟨m, []⟩ = .ok s ∧
      [Call.allocate 5, .allocate 5, .allocate 5, .release 5144].foldlM pool.perform ⟨m, []⟩ = .ok s' ∧
      Reachable pool.region s ∧ Reachable pool.region s' ∧
      (∃ tables, pool.region.snapshot s.memory = .ok tables ∧
        pool.region.snapshot s'.memory = .ok tables) ∧
      (∃ counts, pool.region.usage s.memory = .ok counts ∧
        pool.region.usage s'.memory = .ok counts) ∧
      pool.replies [⟨true, .allocate 5⟩] s.memory = .ok [some (.placed 16)] ∧
      pool.replies [⟨true, .allocate 5⟩] s'.memory = .ok [some (.placed 24)] := by
  obtain ⟨pool, m, s, created, ran, one⟩ := of_trial 4096 4096
    [.allocate 5, .allocate 5, .allocate 5, .release 5136] Pool.outlook
    (chunksAndRoom, twoChunks, [some (.placed 16)]) (by decide +kernel)
  obtain ⟨_, _, s', made, used, two⟩ := of_trial 4096 4096
    [.allocate 5, .allocate 5, .allocate 5, .release 5144] Pool.outlook
    (chunksAndRoom, twoChunks, [some (.placed 24)]) (by decide +kernel)
  rw [created] at made
  cases made
  obtain ⟨_, told, one⟩ := answer_of_bind one
  obtain ⟨_, counted, one⟩ := answer_of_bind one
  obtain ⟨_, here, one⟩ := answer_of_bind one
  obtain ⟨_, again, two⟩ := answer_of_bind two
  obtain ⟨_, alike, two⟩ := answer_of_bind two
  obtain ⟨_, there, two⟩ := answer_of_bind two
  cases one
  cases two
  exact ⟨pool, m, s, s', created, ran, used, reachable_trial created ran (by simp [Call.Allowed]),
    reachable_trial created used (by simp [Call.Allowed]), ⟨_, told, again⟩, ⟨_, counted, alike⟩,
    here, there⟩

end SlabAllocator
