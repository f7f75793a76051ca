import SlabAllocator.Proofs.Draining

namespace SlabAllocator

/-- Descriptors of one page use and one list differ in their links alone. -/
theorem Descriptor.eq_but_links {d e : Descriptor} (status : e.detached = d.detached)
    (list : e.list = d.list) : e = { d with next := e.next, prev := e.prev } := by
  obtain ⟨_, _, _, _, _, _⟩ := d
  obtain ⟨_, _, _, _, _, _⟩ := e
  cases status
  cases list
  rfl

namespace Region

/-- A byte of a list head, or of one of the links of a descriptor. -/
def InLinks (r : Region) (x : Nat) : Prop :=
  (∃ list, r.HasList list ∧ r.headAddress list ≤ x ∧ x < r.headAddress list + 4) ∨
    ∃ i < r.pageCount, r.descriptorAddress i + 8 ≤ x ∧ x < r.descriptorAddress i + 16

/-- Two memories of a region differ in the order of its lists at most, and thus
in the links: the segments and the bitmaps are the same, the lists have the same
members, and nothing else is counted. -/
structure SameButOrder (r : Region) (m after : Memory) : Prop where
  bytes : ∀ x, ¬r.InLinks x → after.byte x = m.byte x
  descriptors : ∀ i < r.pageCount, ∃ next prev,
    r.descriptor i after = { r.descriptor i m with next, prev }
  segments : ∀ i < r.pageCount, ∀ s, r.Opens after i s ↔ r.Opens m i s
  bitmaps : r.bitmaps after = r.bitmaps m
  members : ∀ list, r.HasList list → ∃ xs ys, r.members list m = .ok xs ∧
    r.members list after = .ok ys ∧ ys.Perm xs
  usage : ∃ counts, r.usage m = .ok counts ∧ r.usage after = .ok counts

end Region

namespace PageMap

/-- Some page has what a request asks for. -/
def Serves (t : PageMap) (r : Region) (size : Nat) : Prop :=
  if r.geometry.maxSize ≤ size then
    ∃ i ∈ t.lists .free, r.geometry.pagesFor size ≤ (t.use i).pages
  else
    ∃ i, i ∈ t.lists (.slot (r.geometry.slotOf (r.geometry.classFor size).shift)) ∨
      i ∈ t.lists .free

theorem Placed.isSome_iff {r : Region} {t next : PageMap} {size : Nat} {found : Option Nat}
    (placed : t.Placed r size found next) : found.isSome = true ↔ t.Serves r size := by
  unfold Serves
  cases placed with
  | run large split enough short =>
    rw [if_pos large, split]
    exact iff_of_true rfl ⟨_, List.mem_append_right _ List.mem_cons_self, enough⟩
  | noRun large short =>
    rw [if_pos large]
    refine iff_of_false nofun ?_
    rintro ⟨i, member, enough⟩
    exact Nat.not_lt.mpr enough (short i member)
  | chunk small form listed =>
    rw [if_neg (Nat.not_le.mpr small), ← form, listed]
    exact iff_of_true rfl ⟨_, Or.inl List.mem_cons_self⟩
  | page small form unlisted free =>
    rw [if_neg (Nat.not_le.mpr small), ← form, free]
    exact iff_of_true rfl ⟨_, Or.inr List.mem_cons_self⟩
  | noPage small form unlisted spent =>
    rw [if_neg (Nat.not_le.mpr small), ← form, unlisted, spent]
    refine iff_of_false nofun ?_
    rintro ⟨_, member | member⟩ <;> cases member

variable {r : Region} {t next : PageMap} {list : PageList} {i size : Nat}

/-- The use of the pages tells which of them are on a list. -/
theorem Sound.mem_lists_congr (sound : t.Sound r) (good : next.Sound r)
    (same : ∀ i < r.pageCount, next.use i = t.use i) (known : r.HasList list) :
    i ∈ next.lists list ↔ i ∈ t.lists list := by
  cases list with
  | free =>
    rw [good.free, sound.free]
    exact and_congr_right fun within => by rw [same i within]
  | slot s =>
    rw [good.slot s known, sound.slot s known]
    exact and_congr_right fun within => by rw [same i within]

/-- The order of the lists plays no part in whether a request can be served. -/
theorem Sound.serves_congr (sound : t.Sound r) (good : next.Sound r)
    (same : ∀ i < r.pageCount, next.use i = t.use i) : next.Serves r size ↔ t.Serves r size := by
  unfold Serves
  split
  · refine exists_congr fun i => ?_
    rw [sound.mem_lists_congr good same r.hasList_free]
    refine and_congr_right fun member => ?_
    rw [same i ((sound.free i).mp member).1]
  · rename_i small
    have cls := Geometry.isClass_classFor r.valid (Nat.lt_of_not_le small) rfl
    refine exists_congr fun i => or_congr ?_ ?_
    · exact sound.mem_lists_congr good same (Region.hasList_slotOf cls)
    · exact sound.mem_lists_congr good same r.hasList_free

end PageMap

namespace Region

variable {r : Region} {m after : Memory} {t next : PageMap} {i : Nat}

/-- The descriptors of two memories name the same list, if any, where the lists
have the same members. -/
theorem Linked.list_eq {lists others : PageList → List Nat} (one : r.Linked m lists)
    (two : r.Linked after others) (within : i < r.pageCount)
    (same : ∀ list, r.HasList list → (i ∈ others list ↔ i ∈ lists list)) :
    (r.descriptor i after).list = (r.descriptor i m).list := by
  by_cases listed : ∃ list, r.HasList list ∧ i ∈ lists list
  · obtain ⟨list, known, member⟩ := listed
    have also := (same list known).mpr member
    exact ((two.strung list known).named i also).trans ((one.strung list known).named i member).symm
  · have loose := one.loose i within fun list known member => listed ⟨list, known, member⟩
    have also := two.loose i within fun list known member =>
      listed ⟨list, known, (same list known).mp member⟩
    exact also.2.2.trans loose.2.2.symm

namespace Shows

variable {pool : Pool} {size : Nat}

/-- Any handle serves a request if the map says so. -/
theorem allocates_iff (shows_ : r.Shows m t) (sound : t.Sound r) (handle : pool.region = r) :
    (∃ p after, pool.allocate size m = .ok (.ok p, after)) ↔ t.Serves r size := by
  obtain ⟨found, after, next, run, placed, _⟩ := shows_.allocate sound handle size
  rw [← placed.isSome_iff, run]
  cases found with
  | none => exact iff_of_false (fun ⟨_, _, same⟩ => nomatch same) nofun
  | some p => exact iff_of_true ⟨p, after, rfl⟩ rfl

/-- What opens at a page for the tables is what starts there for the map. -/
theorem opens_iff {s : Segment} (shows_ : r.Shows m t) (sound : t.Sound r)
    (within : i < r.pageCount) : r.Opens m i s ↔ (t.use i).segment? = some s := by
  constructor
  · exact fun opens => (shows_.segment?_eq sound within opens).1
  · intro starts
    have some : 0 < (t.use i).pages := by
      cases use : t.use i with
      | free n =>
        rw [use] at starts
        cases n with
        | zero => cases starts
        | succ n => exact Nat.succ_pos n
      | run n => exact sound.run_positive within use
      | interior =>
        rw [use] at starts
        cases starts
      | slab c taken => exact Nat.one_pos
    obtain ⟨other, _, opens⟩ := shows_.opens sound within some
    obtain rfl : other = s :=
      Option.some.inj ((shows_.segment?_eq sound within opens).1.symm.trans starts)
    exact opens

section

variable (one : r.Shows m t) (two : r.Shows after next) (sound : t.Sound r) (good : next.Sound r)
  (same : ∀ i < r.pageCount, next.use i = t.use i)

include one two sound good same

theorem lists_perm {list : PageList} (known : r.HasList list) :
    (next.lists list).Perm (t.lists list) :=
  (List.perm_ext_iff_of_nodup (two.linked.distinct list known) (one.linked.distinct list known)).mpr
    fun _ => sound.mem_lists_congr good same known

theorem descriptor_but_links (within : i < r.pageCount) :
    ∃ next prev, r.descriptor i after = { r.descriptor i m with next, prev } := by
  have list := one.linked.list_eq two.linked within fun list known =>
    sound.mem_lists_congr good same known
  have status := two.descriptor i within
  rw [same i within, ← one.descriptor i within] at status
  exact ⟨_, _, Descriptor.eq_but_links status list⟩

theorem usage_congr : r.usage after = r.usage m := by
  have free := one.lists_perm two sound good same r.hasList_free
  have runs : ((next.lists .free).filterMap fun i => (next.use i).freeLength?).Perm
      ((t.lists .free).filterMap fun i => (t.use i).freeLength?) := by
    refine (free.filterMap _).trans (List.Perm.of_eq (List.filterMap_congr fun i member => ?_))
    rw [same i ((sound.free i).mp member).1]
  have total : ∀ f, next.total r.pageCount f = t.total r.pageCount f := by
    intro f
    refine congrArg List.sum (List.map_congr_left fun i member => ?_)
    rw [same i (List.mem_range.mp member)]
  have slots : ∀ k ∈ List.range r.slotCount, r.slotUsageOf next k = r.slotUsageOf t k := by
    intro k member
    have known : r.HasList (.slot k) := List.mem_range.mp member
    rw [slotUsageOf, slotUsageOf, total, total, (one.lists_perm two sound good same known).length_eq]
  rw [two.usage_eq good rfl, one.usage_eq sound rfl, runs.length_eq, runs.foldl_eq 0, total,
    List.map_congr_left slots]
  congr 2
  exact runs.sum_nat

end

end Shows

end Region

namespace Region.Drained

variable {r : Region} {junk : Bool} {gone back : List Nat} {t next last : PageMap}
  {m after seen : Memory} {i x : Nat}

/-- Which blocks went back tells the use of every page; how it came to that plays
no part. -/
theorem use_eq (one : r.Drained junk gone t m next after) (two : r.Drained junk back t m last seen)
    (sound : t.Sound r) (good : next.Sound r) (also : last.Sound r)
    (members : ∀ p, p ∈ back ↔ p ∈ gone) (within : i < r.pageCount) : last.use i = next.use i := by
  have first : ∀ j < r.pageCount, t.use j ≠ .interior → last.use j = next.use j := by
    intro j known outer
    refine (one.uses j known).eq_of_lends (two.uses j known) outer
      (fun n run => sound.run_positive known run) (good.slab j known) (also.slab j known)
      fun offset inside size => ?_
    rw [← also.holds_iff known inside, ← good.holds_iff known inside, two.holds, one.holds, members]
  by_cases inner : t.use i = .interior
  -- The first page of the run tells what has become of the later ones.
  · obtain ⟨j, before, n, run, reach⟩ := sound.inner_run within inner
    have known : j < r.pageCount := by omega
    have start := first j known (by rw [run]; nofun)
    have pages : (next.use j).pages = n := by
      have drains := one.uses j known
      rw [run] at drains
      obtain same | same := drains <;> rw [same, Use.pages]
    rw [also.tiled.later j known i before (by rwa [start, pages]),
      good.tiled.later j known i before (by rwa [pages]), start]
  · exact first i within inner

/-- The records of the pages do not tell the order in which blocks went back, nor
do the rows of those that need none any more. -/
theorem byte_eq_of_inRow (one : r.Drained junk gone t m next after)
    (two : r.Drained junk back t m last seen) (shown : r.Shows after next)
    (shows_ : r.Shows seen last) (sound : t.Sound r) (good : next.Sound r)
    (same : ∀ i < r.pageCount, last.use i = next.use i) (row : t.InRow r x) :
    seen.byte x = after.byte x := by
  obtain ⟨i, within, c, taken, slab, small, lower, upper⟩ := row.small
  have drains := one.uses i within
  rw [slab] at drains
  obtain ⟨left, cut⟩ | free := drains
  · obtain ⟨_, old⟩ := sound.slab i within c taken slab
    obtain ⟨_, kept⟩ := good.slab i within c left cut
    have here := shown.row i within
    have there := shows_.row i within
    rw [same i within] at there
    rw [cut, Use.row_small left small] at here there
    rw [old.length, ← kept.length] at upper
    exact Memory.byte_eq_of_words (there.trans here.symm) lower upper
  · have here := one.emptied i within c taken slab small free
    have there := two.emptied i within c taken slab small ((same i within).trans free)
    exact Memory.byte_eq_of_words (there.trans here.symm) lower upper

/-- The bytes of the pages do not tell the order in which blocks went back. -/
theorem byte_eq (one : r.Drained junk gone t m next after) (two : r.Drained junk back t m last seen)
    (shown : r.Shows after next) (shows_ : r.Shows seen last) (sound : t.Sound r)
    (good : next.Sound r) (same : ∀ i < r.pageCount, last.use i = next.use i)
    (members : ∀ p, p ∈ back ↔ p ∈ gone) (table : ¬r.InTables x) :
    seen.byte x = after.byte x := by
  by_cases row : t.InRow r x
  · exact one.byte_eq_of_inRow two shown shows_ sound good same row
  · have covers : t.Covers r back x ↔ t.Covers r gone x := by
      simp only [PageMap.Covers, members]
    by_cases spoils : junk = true ∧ t.Covers r gone x
    · rw [two.spoiled spoils.1 x (covers.mpr spoils.2), one.spoiled spoils.1 x spoils.2]
    · rw [two.kept x ⟨table, row⟩ fun asks covered => spoils ⟨asks, covers.mp covered⟩,
        one.kept x ⟨table, row⟩ fun asks covered => spoils ⟨asks, covered⟩]

theorem sameButOrder (one : r.Drained junk gone t m next after)
    (two : r.Drained junk back t m last seen) (shown : r.Shows after next)
    (shows_ : r.Shows seen last) (sound : t.Sound r) (good : next.Sound r) (also : last.Sound r)
    (members : ∀ p, p ∈ back ↔ p ∈ gone) : r.SameButOrder after seen := by
  have same : ∀ i < r.pageCount, last.use i = next.use i := fun i within =>
    one.use_eq two sound good also members within
  have descriptors : ∀ i < r.pageCount, ∃ next prev,
      r.descriptor i seen = { r.descriptor i after with next, prev } := fun i within =>
    shown.descriptor_but_links shows_ good also same within
  refine ⟨fun x outside => ?_, descriptors, fun i within s => ?_, shown.bitmaps_eq shows_ good same,
    fun list known => ?_, ?_⟩
  · by_cases table : r.InTables x
    · rcases table with head | ⟨i, within, lower, upper⟩
      · exact absurd (Or.inl head) outside
      · obtain ⟨_, _, status⟩ := descriptors i within
        refine Memory.byte_eq_beside_links status lower upper ?_
        by_contra inner
        exact outside (Or.inr ⟨i, within, by omega, by omega⟩)
    · exact one.byte_eq two shown shows_ sound good same members table
  · rw [shown.opens_iff good within, shows_.opens_iff also within, same i within]
  · exact ⟨_, _, shown.linked.members_eq known, shows_.linked.members_eq known,
      shown.lists_perm shows_ good also same known⟩
  · exact ⟨_, shown.usage_eq good rfl,
      (shown.usage_congr shows_ good also same).trans (shown.usage_eq good rfl)⟩

end Region.Drained

/-- In every state that can be reached, any blocks in use may go back in any
order. Every one of them is accepted, the order shows in the links of the lists
at most, and the same requests can be served afterwards. -/
theorem Reachable.release_orders_agree {pool : Pool} {s : PoolState} {order other : List Nat}
    (reached : Reachable pool.region s) (distinct : order.Nodup) (live : ∀ p ∈ order, s.IsLive p)
    (perm : other.Perm order) :
    ∃ after seen, pool.releaseEach order s.memory = .ok (order.map fun _ => .ok (), after) ∧
      pool.releaseEach other s.memory = .ok (other.map fun _ => .ok (), seen) ∧
      pool.region.SameButOrder after seen ∧
      ∀ size, (∃ p m, pool.allocate size after = .ok (.ok p, m)) ↔
        ∃ p m, pool.allocate size seen = .ok (.ok p, m) := by
  obtain ⟨t, shows_, sound, fits⟩ := reached.invariant
  have lent : ∀ p ∈ order, ∃ n, t.Holds pool.region p n := by
    intro p member
    obtain ⟨b, listed, rfl⟩ := live p member
    exact ⟨_, fits.lends listed⟩
  obtain ⟨after, next, run, shown, good, one⟩ := shows_.drainEach sound rfl distinct lent
  obtain ⟨seen, last, ran, sees, also, two⟩ :=
    shows_.drainEach sound rfl (perm.nodup_iff.mpr distinct) fun p member =>
      lent p (perm.mem_iff.mp member)
  have members : ∀ p, p ∈ other ↔ p ∈ order := fun p => perm.mem_iff
  refine ⟨after, seen, run, ran, one.sameButOrder two shown sees sound good also members,
    fun size => ?_⟩
  rw [shown.allocates_iff good rfl, sees.allocates_iff also rfl]
  exact (good.serves_congr also fun i within =>
    one.use_eq two sound good also members within).symm

/-- The orders leave the free runs listed in different orders. -/
theorem release_orders_agree_two_blocks : ∃ (pool : Pool) (s : PoolState) (after seen : Memory),
    s.live = [⟨6144, 1500⟩, ⟨5136, 5⟩] ∧
      pool.releaseEach [5136, 6144] s.memory = .ok ([.ok (), .ok ()], after) ∧
      pool.releaseEach [6144, 5136] s.memory = .ok ([.ok (), .ok ()], seen) ∧
      pool.region.members .free after = .ok [1, 0] ∧
      pool.region.members .free seen = .ok [0, 1] ∧ pool.region.SameButOrder after seen := by
  obtain ⟨pool, m, s, created, ran, _, live, reached⟩ := reachable_two_blocks
  have starts : ∀ p ∈ [5136, 6144], s.IsLive p := by
    intro p member
    rcases List.mem_pair.mp member with rfl | rfl
    · exact ⟨⟨5136, 5⟩, by rw [live]; simp, rfl⟩
    · exact ⟨⟨6144, 1500⟩, by rw [live]; simp, rfl⟩
  have perm : [6144, 5136].Perm [5136, 6144] := List.Perm.swap 5136 6144 []
  obtain ⟨after, seen, one, two, same, _⟩ :=
    reached.release_orders_agree (by decide) starts perm
  have first := twoBlocks_eq created ran (fun pool m => do
    let answered ← pool.releaseEach [5136, 6144] m
    pool.region.members .free answered.2) [1, 0] (by decide +kernel)
  have second := twoBlocks_eq created ran (fun pool m => do
    let answered ← pool.releaseEach [6144, 5136] m
    pool.region.members .free answered.2) [0, 1] (by decide +kernel)
  rw [one, ok_bind] at first
  rw [two, ok_bind] at second
  exact ⟨pool, s, after, seen, live, one, two, first, second, same⟩

end SlabAllocator
