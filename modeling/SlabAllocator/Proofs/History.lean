import SlabAllocator.Pool.Refusal
import SlabAllocator.Proofs.Formatted

namespace SlabAllocator

/-- A block that some caller holds: its address and the size that was asked
for. -/
structure Block where
  address : Nat
  size : Nat
  deriving DecidableEq, Repr

/-- The memory of a pool and the blocks that were handed out and not taken back
since. The pool knows nothing of the second. -/
structure PoolState where
  memory : Memory
  live : List Block

/-- What can happen to a pool. The locking form of a call is that call between
two changes of the word of the lock. -/
inductive Call where
  | allocate (size : Nat)
  | allocateZeroed (size : Nat)
  | release (p : Nat)
  /-- A caller writes a byte. -/
  | write (x : Nat) (value : UInt8)
  | setLockWord (word : UInt32)
  | setUserData (data : Nat)
  deriving DecidableEq, Repr

/-- A byte of a block. -/
def Block.Covers (g : Geometry) (b : Block) (x : Nat) : Prop :=
  b.address ≤ x ∧ x < b.address + g.blockSize b.size

/-- Callers write to the blocks that they hold; all else is up to them. -/
def Call.Allowed (g : Geometry) (live : List Block) : Call → Prop
  | .write x _ => ∃ b ∈ live, b.Covers g x
  | _ => True

/-- The blocks in use after a request was answered. -/
def granted (size : Nat) (live : List Block) : Except PoolError Nat → List Block
  | .ok p => ⟨p, size⟩ :: live
  | .error _ => live

/-- The blocks in use after an address was handed back. -/
def returned (p : Nat) (live : List Block) : Except ReleaseError Unit → List Block
  | .ok () => live.filter fun b => b.address ≠ p
  | .error _ => live

/-- One call through a handle. -/
def Pool.perform (pool : Pool) (s : PoolState) : Call → Except Fault PoolState
  | .allocate size => do
    let (answer, after) ← pool.allocate size s.memory
    return ⟨after, granted size s.live answer⟩
  | .allocateZeroed size => do
    let (answer, after) ← pool.allocateZeroed size s.memory
    return ⟨after, granted size s.live answer⟩
  | .release p => do
    let (answer, after) ← pool.release p s.memory
    return ⟨after, returned p s.live answer⟩
  | .write x value => return ⟨s.memory.setByte x value, s.live⟩
  | .setLockWord word => return ⟨pool.region.setLockWord word s.memory, s.live⟩
  | .setUserData data => return ⟨pool.region.setUserData data s.memory, s.live⟩

/-- The states that a pool over a region can get into, whatever its handles are
asked for. -/
inductive Reachable (r : Region) : PoolState → Prop
  | create {base length : Nat} {settings : Settings} {m after : Memory} {pool : Pool}
      (run : Pool.create base length settings m = (.ok pool, after)) (handle : pool.region = r) :
      Reachable r ⟨after, []⟩
  | call {pool : Pool} {s after : PoolState} {c : Call} (reached : Reachable r s)
      (handle : pool.region = r) (allowed : c.Allowed r.geometry s.live)
      (run : pool.perform s c = .ok after) : Reachable r after

/-- The states that a pool over a region can get into from a state on, whatever
its handles are asked for. -/
inductive Later (r : Region) (s : PoolState) : PoolState → Prop
  | rest : Later r s s
  | call {pool : Pool} {between after : PoolState} {c : Call} (later : Later r s between)
      (handle : pool.region = r) (allowed : c.Allowed r.geometry between.live)
      (run : pool.perform between c = .ok after) : Later r s after

theorem Later.reachable {r : Region} {s after : PoolState} (later : Later r s after)
    (reached : Reachable r s) : Reachable r after := by
  induction later with
  | rest => exact reached
  | call _ handle allowed run ih => exact ih.call handle allowed run

/-- The blocks that the map lends out are those in use, each at an address of
its own. -/
structure PageMap.Matches (t : PageMap) (r : Region) (live : List Block) : Prop where
  distinct : (live.map Block.address).Nodup
  holds : ∀ p n, t.Holds r p n ↔
    ∃ b ∈ live, b.address = p ∧ r.geometry.blockSize b.size = n

/-- What holds in every state: the tables say what some map says, the map is
sound, and it lends out the blocks in use. -/
def PoolState.Invariant (r : Region) (s : PoolState) : Prop :=
  ∃ t : PageMap, r.Shows s.memory t ∧ t.Sound r ∧ t.Matches r s.live

/-- The same of a map that is known. -/
structure PoolState.Shown (r : Region) (t : PageMap) (s : PoolState) : Prop where
  shows_ : r.Shows s.memory t
  sound : t.Sound r
  fits : t.Matches r s.live

theorem PoolState.Shown.invariant {r : Region} {t : PageMap} {s : PoolState}
    (shown : Shown r t s) : s.Invariant r :=
  ⟨t, shown.shows_, shown.sound, shown.fits⟩

theorem PoolState.Invariant.shown {r : Region} {s : PoolState} (inv : s.Invariant r) :
    ∃ t, Shown r t s := by
  obtain ⟨t, shows_, sound, fits⟩ := inv
  exact ⟨t, shows_, sound, fits⟩

/-- What a request for `size` bytes is answered once a place for it was looked
for. -/
def answerFor (size : Nat) : Option Nat → Except PoolError Nat
  | some p => .ok p
  | none => .error (.exhausted size)

namespace PageMap.Matches

variable {r : Region} {t next : PageMap} {live : List Block} {p n size : Nat}

theorem nil (none : ∀ p n, ¬t.Holds r p n) : t.Matches r [] where
  distinct := List.nodup_nil
  holds p n := iff_of_false (none p n) nofun

theorem grant (fits : t.Matches r live)
    (gains : t.Gains r next p (r.geometry.blockSize size)) :
    next.Matches r (⟨p, size⟩ :: live) where
  distinct := by
    refine List.nodup_cons.mpr ⟨fun member => ?_, fits.distinct⟩
    obtain ⟨b, listed, same⟩ := List.mem_map.mp member
    exact gains.fresh _ ((fits.holds p _).mpr ⟨b, listed, same, rfl⟩)
  holds q k := by
    rw [gains.holds, fits.holds]
    constructor
    · rintro (⟨b, listed, facts⟩ | ⟨rfl, rfl⟩)
      · exact ⟨b, List.mem_cons_of_mem _ listed, facts⟩
      · exact ⟨⟨q, size⟩, List.mem_cons_self, rfl, rfl⟩
    · rintro ⟨b, listed, address, bytes⟩
      rcases List.mem_cons.mp listed with rfl | listed
      · exact Or.inr ⟨address.symm, bytes.symm⟩
      · exact Or.inl ⟨b, listed, address, bytes⟩

theorem back (fits : t.Matches r live) (gains : next.Gains r t p n) :
    next.Matches r (live.filter fun b => b.address ≠ p) where
  distinct := fits.distinct.sublist (List.filter_sublist.map Block.address)
  holds q k := by
    -- The block at `p` is the only one that goes, and no other block starts there.
    have kept : next.Holds r q k ↔ t.Holds r q k ∧ q ≠ p := by
      rw [gains.holds]
      constructor
      · intro holds
        refine ⟨Or.inl holds, ?_⟩
        rintro rfl
        exact gains.fresh k holds
      · rintro ⟨holds | ⟨same, _⟩, other⟩
        · exact holds
        · exact absurd same other
    rw [kept, fits.holds]
    constructor
    · rintro ⟨⟨b, listed, rfl, bytes⟩, other⟩
      exact ⟨b, List.mem_filter.mpr ⟨listed, decide_eq_true other⟩, rfl, bytes⟩
    · rintro ⟨b, listed, rfl, bytes⟩
      obtain ⟨listed, other⟩ := List.mem_filter.mp listed
      exact ⟨⟨b, listed, rfl, bytes⟩, of_decide_eq_true other⟩

end PageMap.Matches

theorem PageMap.Placed.fits {r : Region} {t next : PageMap} {live : List Block} {size : Nat}
    {found : Option Nat} (placed : t.Placed r size found next) (sound : t.Sound r)
    (fits : t.Matches r live) : next.Matches r (granted size live (answerFor size found)) := by
  cases found with
  | none =>
    rw [placed.none_eq]
    exact fits
  | some p => exact fits.grant (placed.gains sound)

namespace PageMap.Returned

variable {r : Region} {t next : PageMap} {p : Nat} {verdict : Except ReleaseError Unit}

theorem sound (back : t.Returned r p verdict next) (sound : t.Sound r)
    (distinct : ∀ list, r.HasList list → (t.lists list).Nodup) : next.Sound r := by
  cases back with
  | outside => exact sound
  | refused => exact sound
  | accepted _ _ _ freed => exact freed.sound sound distinct

theorem fits {live : List Block} (back : t.Returned r p verdict next) (sound : t.Sound r)
    (good : next.Sound r) (fits : t.Matches r live) :
    next.Matches r (returned p live verdict) := by
  cases back with
  | outside => exact fits
  | refused => exact fits
  | accepted _ _ _ freed => exact fits.back (freed.gains sound good)

end PageMap.Returned

theorem Pool.create_eq_ok_iff {base length : Nat} {settings : Settings} {m after : Memory}
    {pool : Pool} : Pool.create base length settings m = (.ok pool, after) ↔
      ∃ r, Pool.plan base length settings = .ok r ∧ Pool.ofRegion r settings = pool ∧
        pool.spoil r.start (r.pageCount * r.pageSize) (r.format m) = after := by
  cases planned : plan base length settings with
  | error e =>
    simp only [create, planned, Prod.mk.injEq, reduceCtorEq, false_and, exists_false]
  | ok r =>
    rw [create, planned]
    constructor
    · intro run
      cases run
      exact ⟨r, rfl, rfl, rfl⟩
    · rintro ⟨_, same, rfl, rfl⟩
      cases same
      rfl

/-- What one call does to a map: it places a request, takes an address back, or
leaves the map alone. -/
inductive PageMap.Advances (t : PageMap) (r : Region) : PageMap → Prop
  | placed {size : Nat} {found : Option Nat} {next : PageMap}
      (placed : t.Placed r size found next) : Advances t r next
  | returned {p : Nat} {verdict : Except ReleaseError Unit} {next : PageMap}
      (back : t.Returned r p verdict next) : Advances t r next
  | same : Advances t r t

namespace PoolState

variable {r : Region} {pool : Pool} {s : PoolState} {t : PageMap}

/-- A new pool is one free run. With junk filling on, the pages are overwritten
once the tables are laid out. -/
theorem shown_create {base length : Nat} {settings : Settings} {m after : Memory}
    (run : Pool.create base length settings m = (.ok pool, after)) :
    Shown pool.region (PageMap.fresh pool.region) ⟨after, []⟩ := by
  obtain ⟨r, _, rfl, rfl⟩ := Pool.create_eq_ok_iff.mp run
  refine ⟨?_, PageMap.sound_fresh, .nil PageMap.not_holds_fresh⟩
  unfold Pool.spoil
  split
  · exact Region.shows_format.fill (fun x lower _ =>
      ⟨r.not_inTables_of_start_le lower, PageMap.not_inRow_fresh x⟩) Pool.junkByte
  · exact Region.shows_format

namespace Shown

theorem allocate (shown : Shown r t s) (handle : pool.region = r) (size : Nat) :
    ∃ found after next, pool.allocate size s.memory = .ok (answerFor size found, after) ∧
      t.Placed r size found next ∧
      Shown r next ⟨after, granted size s.live (answerFor size found)⟩ := by
  subst handle
  obtain ⟨found, after, next, run, placed, shows_, _⟩ :=
    Pool.place_placed shown.shows_ shown.sound size
  refine ⟨found, after, next, ?_, placed, shows_,
    placed.sound shown.sound shown.shows_.linked.distinct, placed.fits shown.sound shown.fits⟩
  rw [Pool.allocate, run]
  cases found <;> rfl

/-- The zeros go to the block that the request got. -/
theorem allocateZeroed (shown : Shown r t s) (handle : pool.region = r) (size : Nat) :
    ∃ found after next, pool.allocateZeroed size s.memory = .ok (answerFor size found, after) ∧
      t.Placed r size found next ∧
      Shown r next ⟨after, granted size s.live (answerFor size found)⟩ := by
  obtain ⟨found, after, next, run, placed, shows_, sound, fits⟩ := shown.allocate handle size
  rw [Pool.allocateZeroed, run]
  cases found with
  | none => exact ⟨none, after, next, rfl, placed, shows_, sound, fits⟩
  | some p =>
    refine ⟨some p, after.fill p size 0, next, rfl, placed,
      shows_.fill (fun x lower upper => ?_) 0, sound, fits⟩
    have holds := (fits.holds p _).mpr ⟨⟨p, size⟩, List.mem_cons_self, rfl, rfl⟩
    have room := Geometry.le_blockSize r.geometry size
    exact Region.idle_of_holds sound holds lower (by dsimp only at room ⊢; omega)

theorem release (shown : Shown r t s) (handle : pool.region = r) (p : Nat) :
    ∃ verdict after next, pool.release p s.memory = .ok (verdict, after) ∧
      t.Returned r p verdict next ∧ Shown r next ⟨after, returned p s.live verdict⟩ := by
  subst handle
  obtain ⟨verdict, after, next, run, back, shows_⟩ :=
    Pool.release_returned shown.shows_ shown.sound p
  have sound := back.sound shown.sound shown.shows_.linked.distinct
  exact ⟨verdict, after, next, run, back, shows_, sound,
    back.fits shown.sound sound shown.fits⟩

/-- The pool relies on no byte of a block in use. -/
theorem idle_of_covers {b : Block} {x : Nat} (shown : Shown r t s) (listed : b ∈ s.live)
    (covers : b.Covers r.geometry x) : r.Idle t x :=
  Region.idle_of_holds shown.sound ((shown.fits.holds b.address _).mpr ⟨b, listed, rfl, rfl⟩)
    covers.1 covers.2

theorem setLockWord (shown : Shown r t s) (word : UInt32) :
    Shown r t ⟨r.setLockWord word s.memory, s.live⟩ :=
  ⟨shown.shows_.setLockWord word, shown.sound, shown.fits⟩

/-- Every call is answered, and moves the map on. -/
theorem perform {c : Call} (shown : Shown r t s) (handle : pool.region = r)
    (allowed : c.Allowed r.geometry s.live) :
    ∃ after next, pool.perform s c = .ok after ∧ Shown r next after ∧ t.Advances r next := by
  cases c with
  | allocate size =>
    obtain ⟨_, _, next, run, placed, good⟩ := shown.allocate handle size
    exact ⟨_, next, by rw [Pool.perform, run]; rfl, good, .placed placed⟩
  | allocateZeroed size =>
    obtain ⟨_, _, next, run, placed, good⟩ := shown.allocateZeroed handle size
    exact ⟨_, next, by rw [Pool.perform, run]; rfl, good, .placed placed⟩
  | release p =>
    obtain ⟨_, _, next, run, back, good⟩ := shown.release handle p
    exact ⟨_, next, by rw [Pool.perform, run]; rfl, good, .returned back⟩
  | write x value =>
    obtain ⟨b, listed, covers⟩ := allowed
    have idle := shown.idle_of_covers listed covers
    exact ⟨_, t, rfl, ⟨shown.shows_.setByte idle value, shown.sound, shown.fits⟩, .same⟩
  | setLockWord word =>
    subst handle
    exact ⟨_, t, rfl, shown.setLockWord word, .same⟩
  | setUserData data =>
    subst handle
    exact ⟨_, t, rfl, ⟨shown.shows_.setUserData data, shown.sound, shown.fits⟩, .same⟩

end Shown

theorem invariant_create {base length : Nat} {settings : Settings} {m after : Memory}
    (run : Pool.create base length settings m = (.ok pool, after)) :
    Invariant pool.region ⟨after, []⟩ :=
  (shown_create run).invariant

theorem invariant_allocate (inv : s.Invariant pool.region) (size : Nat) :
    ∃ answer after, pool.allocate size s.memory = .ok (answer, after) ∧
      Invariant pool.region ⟨after, granted size s.live answer⟩ := by
  obtain ⟨t, shown⟩ := inv.shown
  obtain ⟨_, after, _, run, _, shown⟩ := shown.allocate rfl size
  exact ⟨_, after, run, shown.invariant⟩

theorem invariant_allocateZeroed (inv : s.Invariant pool.region) (size : Nat) :
    ∃ answer after, pool.allocateZeroed size s.memory = .ok (answer, after) ∧
      Invariant pool.region ⟨after, granted size s.live answer⟩ := by
  obtain ⟨t, shown⟩ := inv.shown
  obtain ⟨_, after, _, run, _, shown⟩ := shown.allocateZeroed rfl size
  exact ⟨_, after, run, shown.invariant⟩

theorem invariant_release (inv : s.Invariant pool.region) (p : Nat) :
    ∃ answer after, pool.release p s.memory = .ok (answer, after) ∧
      Invariant pool.region ⟨after, returned p s.live answer⟩ := by
  obtain ⟨t, shown⟩ := inv.shown
  obtain ⟨_, after, _, run, _, shown⟩ := shown.release rfl p
  exact ⟨_, after, run, shown.invariant⟩

/-- Every call is answered, and the invariant holds afterwards. -/
theorem invariant_perform {c : Call} (inv : s.Invariant pool.region)
    (allowed : c.Allowed pool.region.geometry s.live) :
    ∃ after, pool.perform s c = .ok after ∧ after.Invariant pool.region := by
  obtain ⟨t, shown⟩ := inv.shown
  obtain ⟨after, _, run, next, _⟩ := shown.perform rfl allowed
  exact ⟨after, run, next.invariant⟩

end PoolState

theorem Reachable.invariant {r : Region} {s : PoolState} (reached : Reachable r s) :
    s.Invariant r := by
  induction reached with
  | create run handle =>
    subst handle
    exact PoolState.invariant_create run
  | call _ handle allowed run inv =>
    subst handle
    obtain ⟨after, ran, next⟩ := PoolState.invariant_perform inv allowed
    rw [run] at ran
    obtain rfl := Except.ok.inj ran
    exact next

/-- In such a state every call that is allowed is answered. -/
theorem Reachable.answered {pool : Pool} {s : PoolState} {c : Call}
    (reached : Reachable pool.region s) (allowed : c.Allowed pool.region.geometry s.live) :
    ∃ after, pool.perform s c = .ok after ∧ Reachable pool.region after := by
  obtain ⟨after, run, _⟩ := PoolState.invariant_perform reached.invariant allowed
  exact ⟨after, run, reached.call rfl allowed run⟩

/-- Any sequence of calls that need no permission leads to a later state. -/
theorem Later.calls {pool : Pool} {s between after : PoolState} {calls : List Call}
    (later : Later pool.region s between)
    (allowed : ∀ c ∈ calls, ∀ live, c.Allowed pool.region.geometry live)
    (run : calls.foldlM pool.perform between = .ok after) : Later pool.region s after := by
  induction calls generalizing between with
  | nil =>
    cases run
    exact later
  | cons c rest ih =>
    obtain ⟨next, first, others⟩ := answer_of_bind run
    exact ih (later.call rfl (allowed c List.mem_cons_self between.live) first)
      (fun d member => allowed d (List.mem_cons_of_mem c member)) others

/-- A call under the lock is that call between two changes of the lock's word. -/
theorem Later.withLock {α : Type} {pool : Pool} {s between : PoolState} {c : Call} {after : Memory}
    {work : Memory → Except Fault (α × Memory)} {live : α → List Block} {answer : α}
    (later : Later pool.region s between)
    (allowed : c.Allowed pool.region.geometry between.live)
    (form : ∀ m, pool.perform ⟨m, between.live⟩ c = do
      let (answer, after) ← work m
      return ⟨after, live answer⟩)
    (run : pool.withLock work between.memory = .ok (some (answer, after))) :
    Later pool.region s ⟨after, live answer⟩ := by
  unfold Pool.withLock at run
  cases lock : pool.lock? between.memory with
  | none =>
    rw [lock] at run
    cases run
  | some locked =>
    rw [lock] at run
    obtain ⟨⟨_, done⟩, worked, run⟩ := answer_of_bind run
    cases run
    obtain ⟨held, _, rfl⟩ := Option.map_eq_some_iff.mp lock
    have taken := later.call rfl trivial (c := .setLockWord held.word) rfl
    have called : Later pool.region s ⟨done, live answer⟩ := by
      refine taken.call rfl allowed ?_
      rw [form, show work (pool.region.setLockWord held.word between.memory) = _ from worked]
      rfl
    exact called.call rfl trivial (c := .setLockWord (pool.mutex done).unlock.word) rfl

/-- The locking forms of the three calls lead to later states. -/
theorem Later.locking_forms {pool : Pool} {s between : PoolState} {after : Memory}
    (later : Later pool.region s between) (size p : Nat) :
    (∀ answer, pool.withLock (pool.allocate size) between.memory = .ok (some (answer, after)) →
      Later pool.region s ⟨after, granted size between.live answer⟩) ∧
    (∀ answer, pool.withLock (pool.allocateZeroed size) between.memory = .ok (some (answer, after)) →
      Later pool.region s ⟨after, granted size between.live answer⟩) ∧
    (∀ answer, pool.withLock (pool.release p) between.memory = .ok (some (answer, after)) →
      Later pool.region s ⟨after, returned p between.live answer⟩) :=
  ⟨fun _ => later.withLock (c := .allocate size) trivial fun _ => rfl,
    fun _ => later.withLock (c := .allocateZeroed size) trivial fun _ => rfl,
    fun _ => later.withLock (c := .release p) trivial fun _ => rfl⟩

/-- What is answered by a look at a new pool. -/
def inNewPool {α : Type} (base length : Nat) (settings : Settings) (m : Memory)
    (look : Pool → Memory → Except Fault α) : Option α :=
  match Pool.create base length settings m with
  | (.error _, _) => none
  | (.ok pool, fresh) => (look pool fresh).toOption

theorem of_inNewPool {α : Type} {base length : Nat} {settings : Settings} {m : Memory}
    {look : Pool → Memory → Except Fault α} {answer : α}
    (outcome : inNewPool base length settings m look = some answer) :
    ∃ pool fresh, Pool.create base length settings m = (.ok pool, fresh) ∧
      look pool fresh = .ok answer := by
  unfold inNewPool at outcome
  split at outcome
  · cases outcome
  · rename_i pool fresh created
    exact ⟨pool, fresh, created, ok_of_toOption outcome⟩

/-- What is answered by a look at a new pool with pages of 1024 bytes after some
calls. -/
def trial {α : Type} (base length : Nat) (calls : List Call)
    (look : Pool → PoolState → Except Fault α) : Option α :=
  inNewPool base length ⟨3, 1024, 0, false, ""⟩ (Memory.uniform 0 0 0) fun pool m => do
    let s ← calls.foldlM pool.perform ⟨m, []⟩
    look pool s

section Trial

variable {α : Type} {base length : Nat} {calls : List Call} {pool : Pool} {m : Memory}
  {s : PoolState}

theorem of_trial (base length : Nat) (calls : List Call) (look : Pool → PoolState → Except Fault α)
    (answer : α) (outcome : trial base length calls look = some answer) : ∃ pool m s,
    Pool.create base length ⟨3, 1024, 0, false, ""⟩ (Memory.uniform 0 0 0) = (.ok pool, m) ∧
      calls.foldlM pool.perform ⟨m, []⟩ = .ok s ∧ look pool s = .ok answer := by
  obtain ⟨pool, m, created, run⟩ := of_inNewPool outcome
  obtain ⟨s, ran, looked⟩ := answer_of_bind run
  exact ⟨pool, m, s, created, ran, looked⟩

theorem trial_eq (look : Pool → PoolState → Except Fault α) (answer : α)
    (created : Pool.create base length ⟨3, 1024, 0, false, ""⟩ (Memory.uniform 0 0 0) = (.ok pool, m))
    (ran : calls.foldlM pool.perform ⟨m, []⟩ = .ok s)
    (outcome : trial base length calls look = some answer) : look pool s = .ok answer := by
  obtain ⟨_, _, _, again, also, run⟩ := of_trial base length calls look answer outcome
  rw [created] at again
  cases again
  rw [ran] at also
  cases also
  exact run

theorem reachable_trial
    (created : Pool.create base length ⟨3, 1024, 0, false, ""⟩ (Memory.uniform 0 0 0) = (.ok pool, m))
    (ran : calls.foldlM pool.perform ⟨m, []⟩ = .ok s)
    (allowed : ∀ c ∈ calls, ∀ live, c.Allowed pool.region.geometry live) :
    Reachable pool.region s :=
  (Later.rest.calls allowed ran).reachable (.create created rfl)

end Trial

/-- A pool of three pages after a small and a large request. -/
theorem reachable_two_blocks : ∃ (pool : Pool) (m : Memory) (s : PoolState),
    Pool.create 4096 4096 ⟨3, 1024, 0, false, ""⟩ (Memory.uniform 0 0 0) = (.ok pool, m) ∧
      [Call.allocate 5, .allocate 1500].foldlM pool.perform ⟨m, []⟩ = .ok s ∧
      pool.region.geometry = ⟨10, 3⟩ ∧ s.live = [⟨6144, 1500⟩, ⟨5136, 5⟩] ∧
      Reachable pool.region s := by
  obtain ⟨pool, m, s, created, ran, facts⟩ := of_trial 4096 4096 [.allocate 5, .allocate 1500]
    (fun pool s => .ok (pool.region.geometry, s.live)) (⟨10, 3⟩, [⟨6144, 1500⟩, ⟨5136, 5⟩])
    (by decide +kernel)
  obtain ⟨geometry, live⟩ := Prod.mk.inj (Except.ok.inj facts)
  exact ⟨pool, m, s, created, ran, geometry, live,
    reachable_trial created ran (by simp [Call.Allowed])⟩

/-- What a computation answers in that state. -/
def twoBlocks {α : Type} (work : Pool → Memory → Except Fault α) : Option α :=
  trial 4096 4096 [.allocate 5, .allocate 1500] fun pool s => work pool s.memory

theorem twoBlocks_eq {α : Type} {pool : Pool} {m : Memory} {s : PoolState}
    (created : Pool.create 4096 4096 ⟨3, 1024, 0, false, ""⟩ (Memory.uniform 0 0 0) = (.ok pool, m))
    (ran : [Call.allocate 5, .allocate 1500].foldlM pool.perform ⟨m, []⟩ = .ok s)
    (work : Pool → Memory → Except Fault α) (answer : α) (outcome : twoBlocks work = some answer) :
    work pool s.memory = .ok answer :=
  trial_eq (fun pool s => work pool s.memory) answer created ran outcome

end SlabAllocator
