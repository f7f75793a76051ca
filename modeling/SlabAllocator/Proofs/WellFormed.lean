import SlabAllocator.Proofs.History

namespace SlabAllocator

/-- What a stretch of pages is used for as a whole. -/
inductive Segment where
  | free (pages : Nat)
  | run (pages : Nat)
  | slab (carving : Carving)
  deriving DecidableEq, Repr

def Segment.pages : Segment → Nat
  | free n => n
  | run n => n
  | slab _ => 1

namespace Region

/-- The descriptors from page `i` on say that a segment starts there. The later
pages of a free run are blank, those of an allocated one are marked as such and
all its pages are on no list. A page of chunks keeps the kind of record that
the chunk size asks for. -/
def Opens (r : Region) (m : Memory) (i : Nat) : Segment → Prop
  | .free n => 1 ≤ n ∧ (r.descriptor i m).role = .free n ∧
      ∀ j, i < j → j < i + n → r.descriptor j m = .blank
  | .run n => 1 ≤ n ∧ (r.descriptor i m).role = .run n ∧ (r.descriptor i m).Loose ∧
      ∀ j, i < j → j < i + n → (r.descriptor j m).role = .interior ∧ (r.descriptor j m).Loose
  | .slab c => r.carvingOf? (r.descriptor i m).role = some c ∧ r.geometry.IsClass c

/-- The page table splits into these segments from page `i` on. -/
def Split (r : Region) (m : Memory) : Nat → List Segment → Prop
  | i, [] => i = r.pageCount
  | i, s :: rest => r.Opens m i s ∧ Split r m (i + s.pages) rest

/-- Walking a list visits exactly the pages with some property, each of them
once, and the links back agree with the links on. -/
def Visits (r : Region) (m : Memory) (list : PageList) (wanted : Nat → Prop) : Prop :=
  ∃ pages, r.members list m = .ok pages ∧ pages.Nodup ∧
    (∀ i, i ∈ pages ↔ i < r.pageCount ∧ wanted i) ∧
    r.headOf list m = Link.first .nil pages ∧ r.Strung m list .nil .nil pages

/-- Some chunk of a page is not taken. -/
def HasRoom (r : Region) (m : Memory) (c : Carving) (i : Nat) : Prop :=
  ∃ k < r.geometry.chunks c.shift, (r.recordOf c i m).has k = false

/-- The tables of a pool are in order. -/
structure WellFormed (r : Region) (m : Memory) (live : List Block) : Prop where
  split : ∃ segments, r.Split m 0 segments
  free : r.Visits m .free fun i => ∃ n, 1 ≤ n ∧ (r.descriptor i m).role = .free n
  slot : ∀ s < r.slotCount, r.Visits m (.slot s) fun i => ∃ c,
    r.carvingOf? (r.descriptor i m).role = some c ∧ r.geometry.slotOf c.shift = s ∧
      r.HasRoom m c i
  full : ∀ i < r.pageCount, ∀ c, r.carvingOf? (r.descriptor i m).role = some c →
    ¬r.HasRoom m c i → (r.descriptor i m).Loose
  used : ∀ i < r.pageCount, ∀ c, r.carvingOf? (r.descriptor i m).role = some c →
    ∃ k, r.geometry.recordReserved c ≤ k ∧ (r.recordOf c i m).has k = true ∧
      ∃ b ∈ live, b.address = r.chunkAddress c.shift i k ∧
        r.geometry.blockSize b.size = 2 ^ c.shift
  record : ∀ i < r.pageCount, ∀ c, r.carvingOf? (r.descriptor i m).role = some c →
    (∀ k < r.geometry.recordReserved c, (r.recordOf c i m).has k = true) ∧
      ∀ k, (r.recordOf c i m).has k = true → k < r.geometry.chunks c.shift

variable {r : Region} {m : Memory} {t : PageMap} {i : Nat} {c : Carving}

/-- A page is carved for the table exactly when it is for the map. -/
theorem Shows.carvingOf?_iff (shows_ : r.Shows m t) (sound : t.Sound r) (within : i < r.pageCount) :
    r.carvingOf? (r.descriptor i m).role = some c ↔ ∃ taken, t.use i = .slab c taken := by
  have role := shows_.role_eq within (sound.spelled within)
  rw [role]
  cases use : t.use i with
  | free n => exact iff_of_false nofun nofun
  | run n => exact iff_of_false nofun nofun
  | interior => exact iff_of_false nofun nofun
  | slab d taken =>
    obtain ⟨cls, _⟩ := sound.slab i within d taken use
    rw [carvingOf?_role taken cls]
    constructor
    · intro same
      cases same
      exact ⟨taken, rfl⟩
    · rintro ⟨_, same⟩
      cases same
      rfl

/-- A free run starts for the table exactly where one does for the map. -/
theorem Shows.free_iff (shows_ : r.Shows m t) (sound : t.Sound r) (within : i < r.pageCount)
    (n : Nat) : (r.descriptor i m).role = .free n ↔ t.use i = .free n := by
  rw [shows_.role_eq within (sound.spelled within)]
  rcases t.use i with k | k | _ | ⟨⟨kind, shift⟩, taken⟩
  · simp [Use.role]
  · simp [Use.role]
  · simp [Use.role]
  · cases kind <;> simp [Use.role]

theorem Shows.hasRoom_iff {taken : ChunkSet} (shows_ : r.Shows m t) (sound : t.Sound r)
    (within : i < r.pageCount) (slab : t.use i = .slab c taken) :
    r.HasRoom m c i ↔ taken ≠ r.geometry.fullRecord c := by
  obtain ⟨cls, kept⟩ := sound.slab i within c taken slab
  rw [HasRoom, shows_.recordOf_eq within (sound.spelled within) slab, Ne,
    kept.eq_full_iff cls r.valid]
  simp only [not_forall, exists_prop, Bool.not_eq_true]

theorem Shows.visits {list : PageList} {wanted : Nat → Prop} (shows_ : r.Shows m t)
    (known : r.HasList list) (members : ∀ i, i ∈ t.lists list ↔ i < r.pageCount ∧ wanted i) :
    r.Visits m list wanted :=
  ⟨t.lists list, shows_.linked.members_eq known, shows_.linked.distinct list known, members,
    shows_.linked.head list known, shows_.linked.strung list known⟩

theorem Shows.opens_free {n : Nat} (shows_ : r.Shows m t) (sound : t.Sound r)
    (within : i < r.pageCount) (use : t.use i = .free n) (positive : 0 < n) :
    r.Opens m i (.free n) := by
  have reach := sound.tiled.fits i within
  rw [use, Use.pages] at reach
  refine ⟨positive, (shows_.free_iff sound within n).mpr use, fun j after before => ?_⟩
  obtain ⟨later, unlisted⟩ := sound.later_free within use after before
  rw [shows_.descriptor_unlisted (by omega) unlisted, later]
  rfl

theorem Shows.opens_run {n : Nat} (shows_ : r.Shows m t) (sound : t.Sound r)
    (within : i < r.pageCount) (use : t.use i = .run n) : r.Opens m i (.run n) := by
  have busy : (t.use i).later = .interior := by rw [use]; rfl
  have unlisted := sound.unlisted (i := i) (by rw [use]; nofun) (by rw [use]; nofun)
  have role := shows_.role_eq within (sound.spelled within)
  have reach := sound.tiled.fits i within
  rw [use] at role reach
  refine ⟨sound.run_positive within use, role, shows_.linked.loose i within unlisted,
    fun j after before => ?_⟩
  have below : j < i + (Use.run n).pages := before
  obtain ⟨later, quiet⟩ := sound.later_busy within busy after (by rwa [use])
  rw [shows_.role_eq (by omega) (sound.spelled (by omega)), later]
  exact ⟨rfl, shows_.linked.loose j (by omega) quiet⟩

theorem Shows.opens (shows_ : r.Shows m t) (sound : t.Sound r) (within : i < r.pageCount)
    (starts : 0 < (t.use i).pages) :
    ∃ s : Segment, s.pages = (t.use i).pages ∧ r.Opens m i s := by
  cases use : t.use i with
  | free n =>
    rw [use] at starts
    exact ⟨.free n, rfl, shows_.opens_free sound within use starts⟩
  | run n => exact ⟨.run n, rfl, shows_.opens_run sound within use⟩
  | interior =>
    rw [use] at starts
    exact absurd starts (Nat.lt_irrefl 0)
  | slab c taken =>
    obtain ⟨cls, _⟩ := sound.slab i within c taken use
    exact ⟨.slab c, rfl, (shows_.carvingOf?_iff sound within).mpr ⟨taken, use⟩, cls⟩

/-- From every page that lies within no segment on, the page table splits into
segments. -/
theorem Shows.split (shows_ : r.Shows m t) (sound : t.Sound r) {count : Nat}
    (left : i + count = r.pageCount) (outside : ∀ j < i, j + (t.use j).pages ≤ i) :
    ∃ segments, r.Split m i segments := by
  -- On the pages that are left. No segment from before reaches page `i`, so one starts there.
  induction count using Nat.strong_induction_on generalizing i with
  | _ count ih =>
    rcases Nat.eq_zero_or_pos count with rfl | some
    · exact ⟨[], left⟩
    · have within : i < r.pageCount := by omega
      obtain ⟨j, before, reach⟩ := sound.tiled.covered i within
      obtain rfl : j = i := by
        by_contra other
        have := outside j (by omega)
        omega
      have starts : 0 < (t.use j).pages := by omega
      have fits := sound.tiled.fits j within
      obtain ⟨s, pages, opens⟩ := shows_.opens sound within starts
      obtain ⟨rest, split⟩ := ih (count - (t.use j).pages) (by omega)
        (i := j + (t.use j).pages) (by omega) fun k below => by
          by_cases first : k < j
          · have := outside k first
            omega
          · by_cases same : k = j
            · rw [same]
            · rw [sound.tiled.later j within k (by omega) below, Use.pages_later]
              omega
      exact ⟨s :: rest, opens, by rwa [pages]⟩

end Region

theorem PoolState.Invariant.wellFormed {r : Region} {s : PoolState} (inv : s.Invariant r) :
    r.WellFormed s.memory s.live := by
  obtain ⟨t, shows_, sound, fits⟩ := inv
  refine ⟨shows_.split sound (Nat.zero_add _) nofun, ?_, ?_, ?_, ?_, ?_⟩
  · refine shows_.visits trivial fun i => ?_
    rw [sound.free]
    refine and_congr_right fun within => exists_congr fun n => ?_
    rw [shows_.free_iff sound within]
    exact Iff.rfl
  · intro index known
    refine shows_.visits known fun i => ?_
    rw [sound.slot index known]
    refine and_congr_right fun within => exists_congr fun c => ?_
    rw [shows_.carvingOf?_iff sound within]
    constructor
    · rintro ⟨taken, slab, same, room⟩
      exact ⟨⟨taken, slab⟩, same, (shows_.hasRoom_iff sound within slab).mpr room⟩
    · rintro ⟨⟨taken, slab⟩, same, room⟩
      exact ⟨taken, slab, same, (shows_.hasRoom_iff sound within slab).mp room⟩
  · intro i within c carved full
    obtain ⟨taken, slab⟩ := (shows_.carvingOf?_iff sound within).mp carved
    rw [shows_.hasRoom_iff sound within slab, not_not] at full
    exact shows_.linked.loose i within ((sound.unlisted_iff_full within slab).mpr full)
  · intro i within c carved
    obtain ⟨taken, slab⟩ := (shows_.carvingOf?_iff sound within).mp carved
    obtain ⟨_, kept⟩ := sound.slab i within c taken slab
    obtain ⟨k, caller, has⟩ := kept.used
    have lends : (t.use i).Lends r.geometry (k * 2 ^ c.shift) (2 ^ c.shift) := by
      rw [slab]
      exact ⟨k, caller, has, rfl, rfl⟩
    obtain ⟨b, listed, address, size⟩ := (fits.holds _ _).mp ⟨i, within, _, rfl, lends⟩
    rw [shows_.recordOf_eq within (sound.spelled within) slab]
    exact ⟨k, caller, has, b, listed, address, size⟩
  · intro i within c carved
    obtain ⟨taken, slab⟩ := (shows_.carvingOf?_iff sound within).mp carved
    obtain ⟨_, kept⟩ := sound.slab i within c taken slab
    rw [shows_.recordOf_eq within (sound.spelled within) slab]
    exact ⟨kept.reserved, kept.within⟩

/-- In every state that can be reached the tables are in order, and every call
is answered and leaves them in order. -/
theorem Reachable.tables_in_order {r : Region} {s : PoolState} (reached : Reachable r s) :
    r.WellFormed s.memory s.live ∧
      ∀ (pool : Pool) (c : Call), pool.region = r → c.Allowed r.geometry s.live →
        ∃ after, pool.perform s c = .ok after ∧ r.WellFormed after.memory after.live := by
  refine ⟨reached.invariant.wellFormed, fun pool c handle allowed => ?_⟩
  subst handle
  obtain ⟨after, run, inv⟩ := PoolState.invariant_perform reached.invariant allowed
  exact ⟨after, run, inv.wellFormed⟩

theorem tables_in_order_two_blocks : ∃ (pool : Pool) (s : PoolState),
    s.live = [⟨6144, 1500⟩, ⟨5136, 5⟩] ∧ pool.region.WellFormed s.memory s.live ∧
      ∃ after, pool.perform s (.write 6145 7) = .ok after ∧
        pool.region.WellFormed after.memory after.live := by
  obtain ⟨pool, _, s, _, _, _, live, reached⟩ := reachable_two_blocks
  have order := reached.tables_in_order
  refine ⟨pool, s, live, order.1, order.2 pool (.write 6145 7) rfl ?_⟩
  have size : 1500 ≤ pool.region.geometry.blockSize 1500 := Geometry.le_blockSize _ _
  rw [live]
  exact ⟨⟨6144, 1500⟩, List.mem_cons_self, by decide, by dsimp only; omega⟩

end SlabAllocator
