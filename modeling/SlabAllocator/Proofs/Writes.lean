import SlabAllocator.Proofs.HeldBytes

namespace SlabAllocator

namespace Region

variable {r : Region} {x : Nat}

/-- A byte of one of the pages. -/
def InPages (r : Region) (x : Nat) : Prop :=
  r.start ≤ x ∧ x < r.start + r.pageCount * r.pageSize

/-- Two memories agree outside the tables and the pages. -/
def InsideOnly (r : Region) (m after : Memory) : Prop :=
  ∀ x, ¬r.InTables x → ¬r.InPages x → after.byte x = m.byte x

/-- The records of the pages lie in the pages. -/
theorem inPages_of_inRow {t : PageMap} (sound : t.Sound r) (row : t.InRow r x) : r.InPages x := by
  obtain ⟨i, within, lower, upper⟩ := row
  have length := sound.rows i within
  have reach := Nat.mul_le_mul_right r.pageSize (show i + 1 ≤ r.pageCount from within)
  rw [Nat.add_mul, Nat.one_mul] at reach
  unfold pageAddress at lower upper
  exact ⟨by omega, by omega⟩

theorem inPages_of_holds {t : PageMap} {p size : Nat} (sound : t.Sound r) (holds : t.Holds r p size)
    (lower : p ≤ x) (upper : x < p + size) : r.InPages x := by
  have bounds := sound.bounds holds
  unfold pageAddress at bounds
  exact ⟨by omega, by omega⟩

theorem idle_of_outside {t : PageMap} (sound : t.Sound r) (table : ¬r.InTables x)
    (page : ¬r.InPages x) : r.Idle t x :=
  ⟨table, fun row => page (inPages_of_inRow sound row)⟩

namespace InsideOnly

variable {m between after : Memory}

theorem refl (m : Memory) : r.InsideOnly m m := fun _ _ _ => rfl

theorem trans (one : r.InsideOnly m between) (two : r.InsideOnly between after) :
    r.InsideOnly m after :=
  fun x table page => (two x table page).trans (one x table page)

theorem fill {a count : Nat} (inside : ∀ x, a ≤ x → x < a + count → r.InPages x) (value : UInt8) :
    r.InsideOnly m (m.fill a count value) := fun x _ page => by
  rw [Memory.byte_fill, if_neg fun within => page (inside x within.1 within.2)]

end InsideOnly

section Format

variable {m : Memory} {first count : Nat}

theorem putHead_tables {list : PageList} (link : Link) (m : Memory) (known : r.HasList list) :
    r.TablesOnly m (r.putHead list link m) := fun x table =>
  r.byte_putHead link m (by
    by_contra inside
    exact table (Or.inl ⟨list, known, by omega, by omega⟩))

theorem putDescriptor_tables {i : Nat} (d : Descriptor) (m : Memory) (within : i < r.pageCount) :
    r.TablesOnly m (r.putDescriptor i d m) := fun x table =>
  r.byte_putDescriptor d m (by
    by_contra inside
    exact table (Or.inr ⟨i, within, by omega, by omega⟩))

theorem clearHeads_tables (inside : first + count ≤ r.slotCount) :
    r.TablesOnly m (r.clearHeads first count m) := by
  induction count generalizing first m with
  | zero => exact .refl m
  | succ count ih =>
    have known : r.HasList (.slot first) := show first < r.slotCount by omega
    exact (putHead_tables .nil m known).trans (ih (by omega))

theorem clearPages_tables (inside : first + count ≤ r.pageCount) :
    r.TablesOnly m (r.clearPages first count m) := by
  induction count generalizing first m with
  | zero => exact .refl m
  | succ count ih =>
    exact (putDescriptor_tables .blank m (by omega)).trans (ih (by omega))

/-- Behind the header a new pool is laid out by writing to its tables alone. -/
theorem format_tables : r.TablesOnly (r.freshHeader.store r.base m) (r.format m) := by
  have cleared : r.TablesOnly (r.freshHeader.store r.base m) (r.cleared m) :=
    (clearHeads_tables (by omega)).trans (clearPages_tables (by omega))
  change r.TablesOnly _ (if 0 < r.pageCount then
    r.putHead .free (.page 0) (r.putDescriptor 0 r.wholeRun (r.cleared m)) else r.cleared m)
  split
  · rename_i some
    exact (cleared.trans (putDescriptor_tables _ _ some)).trans
      (putHead_tables _ _ r.hasList_free)
  · exact cleared

end Format

end Region

/-- The bytes that a call may change: a caller writes in the pages, the pool in
the pages and the tables. -/
def Call.MayWrite (r : Region) (x : Nat) : Call → Prop
  | .allocate _ | .allocateZeroed _ | .release _ => r.InTables x ∨ r.InPages x
  | .write _ _ => r.InPages x
  | .setLockWord _ => r.base + Header.lockAt ≤ x ∧ x < r.base + Header.lockAt + 4
  | .setUserData _ => r.base + Header.userDataAt ≤ x ∧ x < r.base + Header.userDataAt + 8

namespace PoolState

variable {pool : Pool} {s : PoolState} {after : Memory}

theorem inside_allocate {size : Nat} {answer : Except PoolError Nat}
    (inv : s.Invariant pool.region) (run : pool.allocate size s.memory = .ok (answer, after)) :
    pool.region.InsideOnly s.memory after := by
  obtain ⟨t, shows_, sound, _⟩ := inv
  obtain ⟨found, last, next, ran, placed, _, keeps⟩ := Pool.place_placed shows_ sound size
  have good := placed.sound sound shows_.linked.distinct
  have same : after = last := by
    rw [Pool.allocate, ran] at run
    cases found <;> cases run <;> rfl
  intro x table page
  rw [same]
  exact keeps x (Region.idle_of_outside good table page)

theorem inside_allocateZeroed {size : Nat} {answer : Except PoolError Nat}
    (inv : s.Invariant pool.region)
    (run : pool.allocateZeroed size s.memory = .ok (answer, after)) :
    pool.region.InsideOnly s.memory after := by
  obtain ⟨⟨found, between⟩, placed, run⟩ := answer_of_bind run
  have first := inside_allocate inv placed
  cases found with
  | error e =>
    cases run
    exact first
  | ok p =>
    cases run
    -- The block that the request got is one of those in use afterwards.
    obtain ⟨_, _, ran, t, _, sound, fits⟩ := invariant_allocate inv size
    rw [placed] at ran
    cases ran
    have holds := (fits.holds p _).mpr ⟨⟨p, size⟩, List.mem_cons_self, rfl, rfl⟩
    have room := Geometry.le_blockSize pool.region.geometry size
    exact first.trans (.fill (fun x lower upper =>
      Region.inPages_of_holds sound holds lower (by dsimp only at room ⊢; omega)) 0)

theorem inside_release {p : Nat} {answer : Except ReleaseError Unit}
    (inv : s.Invariant pool.region) (run : pool.release p s.memory = .ok (answer, after)) :
    pool.region.InsideOnly s.memory after := by
  cases answer with
  | error e =>
    rw [Pool.release_refused run]
    exact .refl s.memory
  | ok _ =>
    obtain ⟨t, shows_, sound, _⟩ := inv
    have inside : pool.contains p = true := by
      by_contra outside
      rw [Pool.release_outside (Bool.eq_false_iff.mpr outside)] at run
      cases run
    obtain ⟨i, within, offset, small, rfl, same⟩ := Pool.release_inside (m := s.memory) inside
    obtain ⟨last, ran, back⟩ := Pool.releaseIn_cases shows_ sound within small
    rw [same, ran] at run
    obtain ⟨verdict, rfl⟩ := Prod.mk.inj (Except.ok.inj run)
    obtain ⟨next, size, freed, _, keeps⟩ := back verdict
    have gains := freed.gains sound (freed.sound sound shows_.linked.distinct)
    have lent := (gains.holds _ _).mpr (Or.inr ⟨rfl, rfl⟩)
    exact fun x table page => keeps x (Region.idle_of_outside sound table page) fun block =>
      page (Region.inPages_of_holds sound lent block.1 block.2)

/-- No byte changes but those that the call may change. -/
theorem perform_writes {c : Call} {next : PoolState} (inv : s.Invariant pool.region)
    (allowed : c.Allowed pool.region.geometry s.live) (run : pool.perform s c = .ok next) {x : Nat}
    (beyond : ¬c.MayWrite pool.region x) : next.memory.byte x = s.memory.byte x := by
  cases c with
  | allocate size =>
    obtain ⟨⟨answer, after⟩, ran, run⟩ := answer_of_bind run
    cases run
    exact inside_allocate inv ran x (not_or.mp beyond).1 (not_or.mp beyond).2
  | allocateZeroed size =>
    obtain ⟨⟨answer, after⟩, ran, run⟩ := answer_of_bind run
    cases run
    exact inside_allocateZeroed inv ran x (not_or.mp beyond).1 (not_or.mp beyond).2
  | release p =>
    obtain ⟨⟨answer, after⟩, ran, run⟩ := answer_of_bind run
    cases run
    exact inside_release inv ran x (not_or.mp beyond).1 (not_or.mp beyond).2
  | write y value =>
    cases run
    obtain ⟨t, _, sound, fits⟩ := inv
    obtain ⟨b, listed, lower, upper⟩ := allowed
    have page := Region.inPages_of_holds sound (fits.lends listed) lower upper
    exact s.memory.byte_setByte_of_ne value fun same => beyond (same ▸ page)
  | setLockWord word =>
    cases run
    exact s.memory.byte_write_of_outside _ (by unfold Call.MayWrite at beyond; omega)
  | setUserData data =>
    cases run
    exact s.memory.byte_write_of_outside _ (by unfold Call.MayWrite at beyond; omega)

end PoolState

end SlabAllocator
