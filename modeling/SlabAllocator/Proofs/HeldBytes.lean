import SlabAllocator.Proofs.LiveBlocks

namespace SlabAllocator

/-- A call that does not come from the holder of a block: it neither hands the
block back nor writes to it. -/
def Call.Spares (g : Geometry) (b : Block) : Call → Prop
  | .release p => p ≠ b.address
  | .write x _ => ¬b.Covers g x
  | _ => True

/-- Two memories agree on the bytes of a block. -/
def Block.Keeps (g : Geometry) (b : Block) (m after : Memory) : Prop :=
  ∀ x, b.Covers g x → after.byte x = m.byte x

namespace Block.Keeps

variable {g : Geometry} {b : Block} {m between after : Memory}

theorem refl (g : Geometry) (b : Block) (m : Memory) : b.Keeps g m m := fun _ _ => rfl

theorem trans (one : b.Keeps g m between) (two : b.Keeps g between after) : b.Keeps g m after :=
  fun x inside => (two x inside).trans (one x inside)

theorem fill {a count : Nat} (apart : b.Clear g a count) (value : UInt8) :
    b.Keeps g m (m.fill a count value) := fun x ⟨lower, upper⟩ => by
  unfold Block.Clear at apart
  rw [Memory.byte_fill, if_neg (by omega)]

theorem write {a width : Nat} (apart : b.Clear g a width) (value : Nat) :
    b.Keeps g m (m.write a width value) := fun x ⟨lower, upper⟩ => by
  unfold Block.Clear at apart
  exact m.byte_write_of_outside value (by omega)

end Block.Keeps

/-- The bytes of a block are idle. -/
theorem PageMap.Sound.keeps {r : Region} {t : PageMap} {b : Block} {m after : Memory}
    (sound : t.Sound r) (holds : t.Holds r b.address (r.geometry.blockSize b.size))
    (keeps : r.KeepsIdle t m after) : b.Keeps r.geometry m after :=
  fun x ⟨lower, upper⟩ => keeps x (Region.idle_of_holds sound holds lower upper)

/-- What was lent out before a request still is. -/
theorem PageMap.Placed.holds {r : Region} {t next : PageMap} {size q n : Nat} {found : Option Nat}
    (placed : t.Placed r size found next) (sound : t.Sound r) (holds : t.Holds r q n) :
    next.Holds r q n := by
  cases found with
  | none =>
    rw [placed.none_eq]
    exact holds
  | some p => exact ((placed.gains sound).holds q n).mpr (Or.inl holds)

/-- Memory that is asked for as zeros is zero, whatever it held before. -/
theorem Pool.allocateZeroed_zeros {pool : Pool} {m after : Memory} {size p : Nat}
    (run : pool.allocateZeroed size m = .ok (.ok p, after)) {x : Nat} (lower : p ≤ x)
    (upper : x < p + size) : after.byte x = 0 := by
  obtain ⟨⟨answer, between⟩, _, run⟩ := answer_of_bind run
  cases answer with
  | error e => cases run
  | ok q =>
    cases run
    rw [Memory.byte_fill, if_pos ⟨lower, upper⟩]

namespace PoolState

variable {pool : Pool} {s : PoolState} {b : Block} {after : Memory}

theorem mem_granted {answer : Except PoolError Nat} (size : Nat) (listed : b ∈ s.live) :
    b ∈ granted size s.live answer := by
  cases answer with
  | ok p => exact List.mem_cons_of_mem _ listed
  | error e => exact listed

/-- A request keeps the bytes of the blocks in use, and the block that it gets
is clear of them. -/
theorem keeps_allocate {size : Nat} {answer : Except PoolError Nat}
    (inv : s.Invariant pool.region) (listed : b ∈ s.live)
    (run : pool.allocate size s.memory = .ok (answer, after)) :
    b.Keeps pool.region.geometry s.memory after ∧ ∀ p, answer = .ok p →
      b.Clear pool.region.geometry p (pool.region.geometry.blockSize size) := by
  obtain ⟨t, shows_, sound, fits⟩ := inv
  have lent := fits.lends listed
  obtain ⟨found, last, next, ran, placed, shown, keeps⟩ := Pool.place_placed shows_ sound size
  have good := placed.sound sound shows_.linked.distinct
  have kept := good.keeps (placed.holds sound lent) keeps
  rw [Pool.allocate, ran] at run
  cases found with
  | none =>
    cases run
    refine ⟨kept, fun p same => ?_⟩
    cases same
  | some p =>
    cases run
    refine ⟨kept, fun q same => ?_⟩
    cases same
    have gains := placed.gains sound
    have other : b.address ≠ p := by
      rintro rfl
      exact gains.fresh _ lent
    exact good.apart ((gains.holds _ _).mpr (Or.inl lent)) ((gains.holds _ _).mpr (Or.inr ⟨rfl, rfl⟩))
      other

/-- Any other address that is handed back, accepted or not, is no business of
the block. -/
theorem keeps_release {p : Nat} {answer : Except ReleaseError Unit}
    (inv : s.Invariant pool.region) (listed : b ∈ s.live) (other : p ≠ b.address)
    (run : pool.release p s.memory = .ok (answer, after)) :
    b.Keeps pool.region.geometry s.memory after := by
  cases answer with
  | error e =>
    rw [Pool.release_refused run]
    exact .refl _ b s.memory
  | ok _ =>
    obtain ⟨t, shows_, sound, fits⟩ := inv
    have lent := fits.lends listed
    have inside : pool.contains p = true := by
      by_contra outside
      rw [Pool.release_outside (Bool.eq_false_iff.mpr outside)] at run
      cases run
    obtain ⟨i, within, offset, small, rfl, same⟩ := Pool.release_inside (m := s.memory) inside
    obtain ⟨last, ran, back⟩ := Pool.releaseIn_cases shows_ sound within small
    rw [same, ran] at run
    obtain ⟨verdict, rfl⟩ := Prod.mk.inj (Except.ok.inj run)
    obtain ⟨next, size, freed, _, keeps⟩ := back verdict
    -- The block that went back was lent out as well, so the two are apart.
    have gains := freed.gains sound (freed.sound sound shows_.linked.distinct)
    have apart := sound.apart lent ((gains.holds _ _).mpr (Or.inr ⟨rfl, rfl⟩)) other.symm
    exact fun x ⟨lower, upper⟩ => keeps x (Region.idle_of_holds sound lent lower upper) (by omega)

/-- The header lies before all blocks. -/
theorem clear_of_header (inv : s.Invariant pool.region) (listed : b ∈ s.live) {offset width : Nat}
    (inside : offset + width ≤ Layout.headerSize) :
    b.Clear pool.region.geometry (pool.region.base + offset) width := by
  obtain ⟨t, shows_, sound, fits⟩ := inv
  have bounds := sound.bounds (fits.lends listed)
  have start := pool.region.header_le_start
  exact Or.inr (by omega)

/-- One call that spares a block leaves it in use and keeps its bytes. -/
theorem keeps_perform {c : Call} {next : PoolState} (inv : s.Invariant pool.region)
    (listed : b ∈ s.live) (spares : c.Spares pool.region.geometry b)
    (run : pool.perform s c = .ok next) :
    b ∈ next.live ∧ b.Keeps pool.region.geometry s.memory next.memory := by
  cases c with
  | allocate size =>
    obtain ⟨⟨answer, after⟩, ran, run⟩ := answer_of_bind run
    cases run
    exact ⟨mem_granted size listed, (keeps_allocate inv listed ran).1⟩
  | allocateZeroed size =>
    obtain ⟨⟨answer, after⟩, ran, run⟩ := answer_of_bind run
    cases run
    refine ⟨mem_granted size listed, ?_⟩
    obtain ⟨⟨found, between⟩, placed, ran⟩ := answer_of_bind ran
    obtain ⟨kept, clear⟩ := keeps_allocate inv listed placed
    cases found with
    | error e =>
      cases ran
      exact kept
    | ok p =>
      cases ran
      refine kept.trans (.fill ?_ 0)
      have room := Geometry.le_blockSize pool.region.geometry size
      have apart := clear p rfl
      unfold Block.Clear at apart ⊢
      omega
  | release p =>
    obtain ⟨⟨answer, after⟩, ran, run⟩ := answer_of_bind run
    cases run
    refine ⟨?_, keeps_release inv listed spares ran⟩
    cases answer with
    | error e => exact listed
    | ok _ => exact List.mem_filter.mpr ⟨listed, decide_eq_true (Ne.symm spares)⟩
  | write x value =>
    cases run
    refine ⟨listed, fun y inside => ?_⟩
    exact s.memory.byte_setByte_of_ne value (by rintro rfl; exact spares inside)
  | setLockWord word =>
    cases run
    exact ⟨listed, .write (clear_of_header inv listed (by decide)) _⟩
  | setUserData data =>
    cases run
    exact ⟨listed, .write (clear_of_header inv listed (by decide)) _⟩

end PoolState

/-- What happens to a pool, through any of its handles, while one block is left
to its holder. -/
inductive Region.Spared (r : Region) (b : Block) : PoolState → PoolState → Prop
  | rest (s : PoolState) : Spared r b s s
  | call {pool : Pool} {s between after : PoolState} {c : Call} (before : Spared r b s between)
      (handle : pool.region = r) (allowed : c.Allowed r.geometry between.live)
      (spares : c.Spares r.geometry b) (run : pool.perform between c = .ok after) :
      Spared r b s after

/-- A caller finds in its block what it left there, however long it waits. -/
theorem Region.Spared.keeps {r : Region} {b : Block} {s after : PoolState}
    (spared : r.Spared b s after) (reached : Reachable r s) (listed : b ∈ s.live) :
    Reachable r after ∧ b ∈ after.live ∧ b.Keeps r.geometry s.memory after.memory := by
  induction spared with
  | rest s => exact ⟨reached, listed, .refl _ b s.memory⟩
  | call _ handle allowed spares run ih =>
    obtain ⟨there, still, kept⟩ := ih reached listed
    subst handle
    obtain ⟨held, same⟩ := PoolState.keeps_perform there.invariant still spares run
    exact ⟨there.call rfl allowed run, held, kept.trans same⟩

/-- In every state that can be reached, a call that spares a block in use is
answered, leaves the block in use and changes none of its bytes. A request for
zeros is answered as well, and what it gets is zero, whatever the memory held. -/
theorem Reachable.live_bytes_kept {pool : Pool} {s : PoolState} (reached : Reachable pool.region s) :
    (∀ b ∈ s.live, ∀ c : Call, c.Allowed pool.region.geometry s.live →
      c.Spares pool.region.geometry b →
      ∃ after, pool.perform s c = .ok after ∧ b ∈ after.live ∧
        ∀ x, b.Covers pool.region.geometry x → after.memory.byte x = s.memory.byte x) ∧
    ∀ size, (∃ answer after, pool.allocateZeroed size s.memory = .ok (answer, after)) ∧
      ∀ m p after, pool.allocateZeroed size m = .ok (.ok p, after) →
        ∀ x, p ≤ x → x < p + size → after.byte x = 0 := by
  constructor
  · intro b listed c allowed spares
    obtain ⟨after, run, _⟩ := reached.answered allowed
    exact ⟨after, run, PoolState.keeps_perform reached.invariant listed spares run⟩
  · intro size
    obtain ⟨answer, after, run, _⟩ := PoolState.invariant_allocateZeroed reached.invariant size
    exact ⟨⟨answer, after, run⟩, fun m p after ran x => Pool.allocateZeroed_zeros ran⟩

theorem live_bytes_kept_two_blocks : ∃ (pool : Pool) (s : PoolState),
    s.live = [⟨6144, 1500⟩, ⟨5136, 5⟩] ∧
      (∃ after, pool.perform s (.release 6144) = .ok after ∧ ⟨5136, 5⟩ ∈ after.live ∧
        ∀ x, 5136 ≤ x → x < 5144 → after.memory.byte x = s.memory.byte x) ∧
      ∃ after, pool.allocateZeroed 5 s.memory = .ok (.ok 5144, after) ∧
        ∀ x, 5144 ≤ x → x < 5149 → after.byte x = 0 := by
  obtain ⟨pool, m, s, created, ran, geometry, live, reached⟩ := reachable_two_blocks
  obtain ⟨spared, zeros⟩ := reached.live_bytes_kept
  refine ⟨pool, s, live, ?_, ?_⟩
  · have listed : (⟨5136, 5⟩ : Block) ∈ s.live := by rw [live]; simp
    have size : pool.region.geometry.blockSize 5 = 8 := by
      rw [geometry]
      decide
    obtain ⟨after, run, still, same⟩ := spared ⟨5136, 5⟩ listed (.release 6144) trivial
      (show 6144 ≠ 5136 by decide)
    exact ⟨after, run, still, fun x lower upper => same x ⟨lower, by rwa [size]⟩⟩
  · have outcome := twoBlocks_eq created ran
      (fun pool m => (pool.allocateZeroed 5 m).map Prod.fst) (.ok 5144) (by decide +kernel)
    obtain ⟨⟨answer, after, run⟩, zero⟩ := zeros 5
    rw [run] at outcome
    cases Except.ok.inj outcome
    exact ⟨after, run, zero s.memory 5144 after run⟩

end SlabAllocator
