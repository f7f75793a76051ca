import SlabAllocator.Pool.Refusal
import SlabAllocator.Proofs.Placement

namespace SlabAllocator

/-- What the pages are used for after the pool took back a block of `size`
bytes at address `p`. -/
inductive PageMap.Freed (r : Region) (t : PageMap) : Nat → Nat → PageMap → Prop
  | run {i n : Nat} (within : i < r.pageCount) (use : t.use i = .run n) :
      Freed r t (r.pageAddress i) (n * r.pageSize) (t.returnRun i n)
  | chunk {c : Carving} {i k : Nat} {taken : ChunkSet} (within : i < r.pageCount)
      (slab : t.use i = .slab c taken) (caller : r.geometry.recordReserved c ≤ k)
      (has : taken.has k = true) :
      Freed r t (r.chunkAddress c.shift i k) (2 ^ c.shift) (t.settle r c i taken (taken.erase k))

namespace PageMap.Freed

variable {r : Region} {t next : PageMap} {p size : Nat}

theorem sound (freed : t.Freed r p size next) (sound : t.Sound r)
    (distinct : ∀ list, r.HasList list → (t.lists list).Nodup) : next.Sound r := by
  cases freed with
  | @run i n within use =>
    have length : (t.use i).pages = n := by rw [use, Use.pages]
    exact sound.returnRun within distinct (by rw [use]; rfl) length (sound.run_positive within use)
  | @chunk c i k taken within slab caller has =>
    obtain ⟨cls, kept⟩ := sound.slab i within c taken slab
    have fits := kept.erase caller
    -- The chunk that goes back is free afterwards, so the record left over is not full.
    have room : taken.erase k ≠ r.geometry.fullRecord c := by
      intro full
      have every := (fits.eq_full_iff cls r.valid).mp full k (kept.within k has)
      exact ((Geometry.has_erase taken k k).mp every).2 rfl
    exact sound.settle distinct within slab fits room

/-- The block that goes back was lent out, and no other block is affected. -/
theorem gains (freed : t.Freed r p size next) (sound : t.Sound r) (back : next.Sound r) :
    next.Gains r t p size := by
  cases freed with
  | run within use =>
    exact gains_returnRun sound back within use (sound.run_positive within use)
  | chunk within slab caller has => exact gains_settle sound back within slab caller has

theorem inRow {x : Nat} (freed : t.Freed r p size next) (sound : t.Sound r)
    (row : next.InRow r x) : t.InRow r x := by
  cases freed with
  | run within use => exact inRow_returnRun row
  | chunk within slab caller has =>
    obtain ⟨_, kept⟩ := sound.slab _ within _ _ slab
    exact inRow_settle slab (kept.length.trans (kept.erase caller).length.symm) row

end PageMap.Freed

/-- What the pool answers when the address `offset` bytes into a page is handed
back. -/
def Use.verdict (g : Geometry) (offset : Nat) : Use → Except ReleaseError Unit
  | .free _ => .error .pageAlreadyFree
  | .interior => .error .wrongPage
  | .run _ => if offset = 0 then .ok () else .error .wrongChunk
  | .slab c taken =>
    if offset % 2 ^ c.shift ≠ 0 ∨ offset / 2 ^ c.shift < g.recordReserved c then
      .error .wrongChunk
    else if taken.has (offset / 2 ^ c.shift) then .ok () else .error .chunkAlreadyFree

/-- What is answered when an address is handed back, and what the pages are used
for afterwards. -/
inductive PageMap.Returned (r : Region) (t : PageMap) :
    Nat → Except ReleaseError Unit → PageMap → Prop
  | outside {p : Nat}
      (beyond : ∀ i < r.pageCount, ∀ offset < r.pageSize, r.pageAddress i + offset ≠ p) :
      Returned r t p (.error .outsidePool) t
  | refused {i offset : Nat} {e : ReleaseError} (within : i < r.pageCount)
      (inside : offset < r.pageSize) (verdict : (t.use i).verdict r.geometry offset = .error e) :
      Returned r t (r.pageAddress i + offset) (.error e) t
  | accepted {i offset size : Nat} {next : PageMap} (within : i < r.pageCount)
      (inside : offset < r.pageSize) (verdict : (t.use i).verdict r.geometry offset = .ok ())
      (freed : t.Freed r (r.pageAddress i + offset) size next) :
      Returned r t (r.pageAddress i + offset) (.ok ()) next

/-- A page of small chunks that is emptied still holds a record in its row, that
of a page with none handed out. -/
def Region.LeavesEmpty (r : Region) (t next : PageMap) (after : Memory) : Prop :=
  ∀ i < r.pageCount, ∀ c taken, t.use i = .slab c taken → c.kind = .small →
    next.use i = .free 1 →
      after.words (r.pageAddress i) taken.words.length = (r.geometry.emptyRecord c).words

namespace Pool

variable {pool : Pool} {m : Memory} {t : PageMap} {i p offset size : Nat}

/-- The address of a block is accepted, and the pool lends out that block no
longer. The tables and the records change first; then junk goes to the block if
the handle asks for that. -/
def Reclaims (pool : Pool) (t : PageMap) (i p size : Nat) (m : Memory) : Prop :=
  ∃ between next, pool.releaseIn i p m = .ok (.ok (), pool.spoil p size between) ∧
    t.Freed pool.region p size next ∧ pool.region.Shows between next ∧
    pool.region.KeepsIdle t m between ∧ pool.region.LeavesEmpty t next between

/-- The address of a block is accepted, and the pool lends out that block no
longer. Beside it no byte changes but those of the tables and of the records. -/
def TakesBack (pool : Pool) (t : PageMap) (i p size : Nat) (m : Memory) : Prop :=
  ∃ after next, pool.releaseIn i p m = .ok (.ok (), after) ∧ t.Freed pool.region p size next ∧
    pool.region.Shows after next ∧ pool.region.KeepsBeside t p size m after

/-- Handing back an address in a page: the use of the page tells the answer, and
an accepted address was that of a block. -/
def Answers (pool : Pool) (t : PageMap) (i offset : Nat) (m : Memory) : Prop :=
  ∃ after, pool.releaseIn i (pool.region.pageAddress i + offset) m =
      .ok ((t.use i).verdict pool.region.geometry offset, after) ∧
    ((t.use i).verdict pool.region.geometry offset = .ok () →
      ∃ next size, t.Freed pool.region (pool.region.pageAddress i + offset) size next ∧
        pool.region.Shows after next ∧
        pool.region.KeepsBeside t (pool.region.pageAddress i + offset) size m after)

/-- Junk goes to the block that was taken back and nowhere else. -/
theorem spoil_freed {next : PageMap} {after : Memory} (freed : t.Freed pool.region p size next)
    (sound : t.Sound pool.region) (distinct : ∀ list, pool.region.HasList list →
      (t.lists list).Nodup) (shown : pool.region.Shows after next)
    (keeps : pool.region.KeepsIdle t m after) :
    pool.region.Shows (pool.spoil p size after) next ∧
      pool.region.KeepsBeside t p size m (pool.spoil p size after) := by
  have holds : t.Holds pool.region p size :=
    ((freed.gains sound (freed.sound sound distinct)).holds _ _).mpr (Or.inr ⟨rfl, rfl⟩)
  unfold spoil
  split
  · refine ⟨shown.fill (fun x lower upper => ?_) junkByte, fun x idle beside => ?_⟩
    · have idle := Region.idle_of_holds sound holds lower upper
      exact ⟨idle.1, fun row => idle.2 (freed.inRow sound row)⟩
    · rw [Memory.byte_fill, if_neg beside]
      exact keeps x idle
  · exact ⟨shown, fun x idle _ => keeps x idle⟩

theorem Reclaims.takesBack (reclaims : pool.Reclaims t i p size m)
    (shows_ : pool.region.Shows m t) (sound : t.Sound pool.region) :
    pool.TakesBack t i p size m := by
  obtain ⟨between, next, run, freed, shown, keeps, _⟩ := reclaims
  obtain ⟨spoiled, beside⟩ := spoil_freed freed sound shows_.linked.distinct shown keeps
  exact ⟨_, next, run, freed, spoiled, beside⟩

/-- The first page of a run goes back with all pages of the run. -/
theorem releaseIn_run (shows_ : pool.region.Shows m t) (sound : t.Sound pool.region)
    (within : i < pool.region.pageCount) {n : Nat} (run : t.use i = .run n) :
    pool.Reclaims t i (pool.region.pageAddress i) (n * pool.region.pageSize) m := by
  have positive := sound.run_positive within run
  have busy : (t.use i).later = .interior := by rw [run]; rfl
  have role := shows_.role_eq within (sound.spelled within)
  have reach := sound.tiled.fits i within
  rw [run] at role reach
  obtain ⟨after, back, shown⟩ := shows_.returnRun positive reach fun j lower upper =>
    (sound.later_busy within busy lower (by rwa [run])).2
  refine ⟨after, _, ?_, .run within run, shown, (Region.returnRun_tables back).keepsIdle t,
    fun j _ c taken slab _ free => ?_⟩
  · simp [releaseIn, within, role, Use.role, back]
  -- No page of chunks is touched.
  · have other : j ≠ i := by
      rintro rfl
      rw [run] at slab
      cases slab
    have outside : ¬(i < j ∧ j < i + n) := fun inner => by
      have later := (sound.later_busy within busy inner.1 (by rw [run]; exact inner.2)).1
      rw [slab] at later
      cases later
    rw [PageMap.use_returnRun_of_outside other outside, slab] at free
    cases free

theorem releaseIn_slab (shows_ : pool.region.Shows m t) (sound : t.Sound pool.region)
    (within : i < pool.region.pageCount) {c : Carving} {taken : ChunkSet}
    (slab : t.use i = .slab c taken) :
    pool.releaseIn i (pool.region.pageAddress i + offset) m = (do
      match ← pool.region.returnChunk c i offset m with
      | (.ok (), after) =>
        return (.ok (), pool.spoil (pool.region.pageAddress i + offset) (2 ^ c.shift) after)
      | (.error e, after) => return (.error e, after)) := by
  have role := shows_.role_eq within (sound.spelled within)
  obtain ⟨cls, _⟩ := sound.slab i within c taken slab
  rw [slab, Use.role] at role
  rw [releaseIn, Region.page_eq _ m within, ok_bind, role, Nat.add_sub_cancel_left]
  have shift := cls.exact_shift
  clear role slab cls
  obtain ⟨kind, own⟩ := c
  cases kind with
  | small => rfl
  | exact =>
    obtain rfl : own = _ := shift rfl
    rfl
  | big => rfl

theorem releaseIn_chunk (shows_ : pool.region.Shows m t) (sound : t.Sound pool.region)
    (within : i < pool.region.pageCount) {c : Carving} {taken : ChunkSet} {k : Nat}
    (slab : t.use i = .slab c taken) (caller : pool.region.geometry.recordReserved c ≤ k)
    (has : taken.has k = true) :
    pool.Reclaims t i (pool.region.chunkAddress c.shift i k) (2 ^ c.shift) m := by
  obtain ⟨after, store, back, shown, keeps⟩ := shows_.returnChunk_taken sound within slab caller has
  refine ⟨after, _, ?_, .chunk within slab caller has, shown, keeps,
    fun j _ d old cut small free => ?_⟩
  · simp [Region.chunkAddress, releaseIn_slab shows_ sound within slab, back]
  · by_cases here : j = i
    · subst here
      obtain ⟨rfl, rfl⟩ := Use.slab.inj (slab.symm.trans cut)
      have words := Region.settle_words store small
      rw [PageMap.use_settle_self] at free
      split at free
      · rename_i empty
        rw [empty] at words
        obtain ⟨_, kept⟩ := sound.slab j within c taken slab
        rwa [← empty, (kept.erase caller).length, ← kept.length, empty] at words
      · cases free
    · rw [PageMap.use_settle_of_ne here, cut] at free
      cases free

theorem releaseIn_slab_cases (shows_ : pool.region.Shows m t) (sound : t.Sound pool.region)
    (within : i < pool.region.pageCount) (inside : offset < pool.region.pageSize) {c : Carving}
    {taken : ChunkSet} (slab : t.use i = .slab c taken) : pool.Answers t i offset m := by
  obtain ⟨cls, kept⟩ := sound.slab i within c taken slab
  have size := Nat.two_pow_pos c.shift
  rw [Answers, slab, Use.verdict]
  by_cases aligned : offset % 2 ^ c.shift = 0
  · obtain ⟨k, rfl⟩ : ∃ k, offset = k * 2 ^ c.shift :=
      ⟨offset / 2 ^ c.shift, (Nat.div_mul_cancel (Nat.dvd_of_mod_eq_zero aligned)).symm⟩
    rw [Nat.mul_div_cancel _ size]
    by_cases record : k < pool.region.geometry.recordReserved c
    · rw [if_pos (Or.inr record)]
      refine ⟨m, ?_, nofun⟩
      rw [releaseIn_slab shows_ sound within slab, Region.returnChunk_reserved within cls record]
      rfl
    · rw [if_neg (not_or.mpr ⟨not_not.mpr aligned, record⟩)]
      by_cases has : taken.has k = true
      · obtain ⟨after, next, back, facts⟩ :=
          (releaseIn_chunk shows_ sound within slab (Nat.le_of_not_lt record) has).takesBack
            shows_ sound
        rw [if_pos has]
        exact ⟨after, back, fun _ => ⟨next, _, facts⟩⟩
      · have chunk : k < pool.region.geometry.chunks c.shift := by
          have whole := Geometry.chunks_mul (Nat.le_of_lt cls.2.2)
          rw [Region.pageSize, ← whole] at inside
          exact Nat.lt_of_mul_lt_mul_right inside
        rw [if_neg has]
        refine ⟨m, ?_, nofun⟩
        rw [releaseIn_slab shows_ sound within slab, shows_.returnChunk_free sound within slab
          (Nat.le_of_not_lt record) chunk (Bool.eq_false_iff.mpr has)]
        rfl
  · rw [if_pos (Or.inl aligned)]
    refine ⟨m, ?_, nofun⟩
    rw [releaseIn_slab shows_ sound within slab, Region.returnChunk_misaligned aligned]
    rfl

theorem releaseIn_cases (shows_ : pool.region.Shows m t) (sound : t.Sound pool.region)
    (within : i < pool.region.pageCount) (inside : offset < pool.region.pageSize) :
    pool.Answers t i offset m := by
  have role := shows_.role_eq within (sound.spelled within)
  cases use : t.use i with
  | free n =>
    rw [use, Use.role] at role
    rw [Answers, use]
    refine ⟨m, ?_, fun accepted => by cases accepted⟩
    simp [releaseIn, within, role, Use.verdict]
  | interior =>
    rw [use, Use.role] at role
    rw [Answers, use]
    refine ⟨m, ?_, fun accepted => by cases accepted⟩
    simp [releaseIn, within, role, Use.verdict]
  | run n =>
    rw [use, Use.role] at role
    rw [Answers, use, Use.verdict]
    by_cases first : offset = 0
    · obtain ⟨after, next, back, facts⟩ :=
        (releaseIn_run shows_ sound within use).takesBack shows_ sound
      rw [if_pos first, first, Nat.add_zero]
      exact ⟨after, back, fun _ => ⟨next, _, facts⟩⟩
    · rw [if_neg first]
      refine ⟨m, ?_, fun accepted => by cases accepted⟩
      simp [releaseIn, within, role, first]
  | slab c taken => exact releaseIn_slab_cases shows_ sound within inside use

/-- Addresses before the pages, behind the last one and behind the end of the
span are refused; these are the ones that the pool does not contain. -/
theorem release_outside (outside : pool.contains p = false) :
    pool.release p m = .ok (.error .outsidePool, m) := by
  have positive : 0 < pool.region.pageSize := Nat.two_pow_pos _
  rw [contains, Bool.and_eq_false_iff, decide_eq_false_iff_not, decide_eq_false_iff_not] at outside
  change ¬pool.region.start ≤ p ∨ ¬p < pool.region.start + _ at outside
  rw [release]
  refine if_pos ?_
  rcases outside with before | after
  · exact Or.inl (by omega)
  · by_cases before : p < pool.region.start
    · exact Or.inl before
    · exact Or.inr (Or.inr ((Nat.le_div_iff_mul_le positive).mpr (by omega)))

theorem release_inside (inside : pool.contains p = true) :
    ∃ i < pool.region.pageCount, ∃ offset < pool.region.pageSize,
      p = pool.region.pageAddress i + offset ∧ pool.release p m = pool.releaseIn i p m := by
  have positive : 0 < pool.region.pageSize := Nat.two_pow_pos _
  rw [contains, Bool.and_eq_true, decide_eq_true_iff, decide_eq_true_iff] at inside
  change pool.region.start ≤ p ∧ p < pool.region.start + _ at inside
  have page : (p - pool.region.start) / pool.region.pageSize < pool.region.pageCount :=
    (Nat.div_lt_iff_lt_mul positive).mpr (by omega)
  have span := Layout.pages_fit pool.region.planned (Nat.zero_lt_of_lt page)
  have split := Nat.div_add_mod (p - pool.region.start) pool.region.pageSize
  refine ⟨_, page, _, Nat.mod_lt (p - pool.region.start) positive, ?_, ?_⟩
  · rw [Region.pageAddress, Nat.add_assoc, Nat.mul_comm, split]
    omega
  · rw [release]
    refine if_neg ?_
    rintro (before | after | beyond)
    · omega
    · unfold Region.finish at after
      change _ ∧ p < pool.region.base + pool.region.layout.dataAt +
        pool.region.layout.pageCount * pool.region.geometry.pageSize at inside
      omega
    · omega

theorem contains_page (within : i < pool.region.pageCount) (inside : offset < pool.region.pageSize) :
    pool.contains (pool.region.pageAddress i + offset) = true := by
  have reach := Nat.mul_le_mul_right pool.region.pageSize (Nat.succ_le_of_lt within)
  rw [Nat.succ_mul] at reach
  rw [contains, Bool.and_eq_true, decide_eq_true_iff, decide_eq_true_iff]
  change pool.region.start ≤ _ ∧ _ < pool.region.start + _
  unfold Region.pageAddress
  omega

/-- An address that is handed back is answered as the map says. -/
theorem release_returned (shows_ : pool.region.Shows m t) (sound : t.Sound pool.region) (p : Nat) :
    ∃ verdict after next, pool.release p m = .ok (verdict, after) ∧
      t.Returned pool.region p verdict next ∧ pool.region.Shows after next := by
  cases contained : pool.contains p with
  | false =>
    refine ⟨_, m, t, release_outside contained, .outside fun i within offset small => ?_, shows_⟩
    rintro rfl
    rw [contains_page within small] at contained
    cases contained
  | true =>
    obtain ⟨i, within, offset, small, rfl, run⟩ := release_inside (m := m) contained
    obtain ⟨after, ran, back⟩ := releaseIn_cases shows_ sound within small
    cases verdict : (t.use i).verdict pool.region.geometry offset with
    | ok _ =>
      obtain ⟨next, size, freed, shown, _⟩ := back verdict
      rw [verdict] at ran
      exact ⟨_, after, next, run.trans ran, .accepted within small verdict freed, shown⟩
    | error e =>
      rw [verdict] at ran
      obtain rfl := releaseIn_refused ran
      exact ⟨_, after, t, run.trans ran, .refused within small verdict, shows_⟩

end Pool

end SlabAllocator
