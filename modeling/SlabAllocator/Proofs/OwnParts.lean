import SlabAllocator.Proofs.Attaching

namespace SlabAllocator

theorem Header.byte_store_of_outside (h : Header) (m : Memory) {base x : Nat}
    (outside : x < base ∨ base + Layout.headerSize ≤ x) :
    (h.store base m).byte x = m.byte x := by
  unfold Layout.headerSize at outside
  unfold store lockAt freeAt userDataAt
  simp (disch := omega) only [Memory.byte_write_of_outside]

/-- The parts that a span is laid out in. -/
inductive Part where
  | header
  | heads
  | descriptors
  | pages
  deriving DecidableEq, Repr

namespace Region

/-- The address of the first byte of a part. -/
def partStart (r : Region) : Part → Nat
  | .header => r.base
  | .heads => r.base + r.layout.slotsAt
  | .descriptors => r.base + r.layout.descriptorsAt
  | .pages => r.start

/-- The bytes of a part. -/
def partSize (r : Region) : Part → Nat
  | .header => Layout.headerSize
  | .heads => r.slotCount * Layout.headSize
  | .descriptors => r.pageCount * Layout.descriptorSize
  | .pages => r.pageCount * r.pageSize

/-- A byte of a part. -/
def InPart (r : Region) (part : Part) (x : Nat) : Prop :=
  r.partStart part ≤ x ∧ x < r.partStart part + r.partSize part

/-- A byte of the link to the first free run. -/
def InFreeHead (r : Region) (x : Nat) : Prop :=
  r.base + Header.freeAt ≤ x ∧ x < r.base + Header.freeAt + 4

/-- A byte of the word of the lock. -/
def InLock (r : Region) (x : Nat) : Prop :=
  r.base + Header.lockAt ≤ x ∧ x < r.base + Header.lockAt + 4

variable {r : Region} {part other : Part} {x : Nat}

/-- Each part begins where the one before ended, or later. -/
theorem parts_ordered (r : Region) :
    r.partStart .header + r.partSize .header ≤ r.partStart .heads ∧
      r.partStart .heads + r.partSize .heads ≤ r.partStart .descriptors ∧
      r.partStart .descriptors + r.partSize .descriptors ≤ r.partStart .pages := by
  have slots := r.header_le_slots
  have heads := Layout.heads_fit r.planned
  have tables := Layout.descriptors_fit r.planned
  simp only [partStart, partSize, start, slotCount, pageCount]
  omega

theorem InPart.unique (one : r.InPart part x) (two : r.InPart other x) : part = other := by
  obtain ⟨first, second, third⟩ := r.parts_ordered
  unfold InPart at one two
  cases part <;> cases other <;> first | rfl | omega

/-- No part ends behind the span, not even where no page has room. -/
theorem InPart.inside (inside : r.InPart part x) : r.base ≤ x ∧ x < r.base + r.length := by
  obtain ⟨first, second, third⟩ := r.parts_ordered
  have tables := r.descriptors_le_finish
  unfold finish at tables
  unfold InPart at inside
  have lower : r.partStart .header ≤ x := by
    cases part <;> omega
  refine ⟨lower, ?_⟩
  rcases Nat.eq_zero_or_pos r.pageCount with none | some
  · have descriptors : r.partSize .descriptors = 0 := by rw [partSize, none, Nat.zero_mul]
    have pages : r.partSize .pages = 0 := by rw [partSize, none, Nat.zero_mul]
    have begin : r.partStart .descriptors = r.base + r.layout.descriptorsAt := rfl
    cases part <;> omega
  · have room : r.partStart .pages + r.partSize .pages ≤ r.base + r.length := by
      have fit := Layout.pages_fit r.planned some
      simp only [partStart, partSize, start, pageSize, pageCount]
      omega
    cases part <;> omega

theorem InFreeHead.inPart (head : r.InFreeHead x) : r.InPart .header x := by
  unfold InFreeHead Header.freeAt at head
  simp only [InPart, partStart, partSize, Layout.headerSize]
  omega

theorem InLock.inPart (lock : r.InLock x) : r.InPart .header x := by
  unfold InLock Header.lockAt at lock
  simp only [InPart, partStart, partSize, Layout.headerSize]
  omega

/-- The tables are the link to the first free run, the other list heads and the
descriptors. -/
theorem inPart_of_inTables (table : r.InTables x) :
    r.InFreeHead x ∨ r.InPart .heads x ∨ r.InPart .descriptors x := by
  rcases table with ⟨list, known, lower, upper⟩ | ⟨i, within, lower, upper⟩
  · cases list with
    | free => exact Or.inl ⟨lower, upper⟩
    | slot s =>
      have below : s < r.slotCount := known
      refine Or.inr (Or.inl ?_)
      simp only [headAddress, Layout.headSize] at lower upper
      simp only [InPart, partStart, partSize, Layout.headSize]
      omega
  · refine Or.inr (Or.inr ?_)
    simp only [descriptorAddress, Layout.descriptorSize] at lower upper
    simp only [InPart, partStart, partSize, Layout.descriptorSize]
    omega

/-- What a call may change: the link to the first free run, the list heads, the
descriptors and the pages, and under the lock the word of the lock. What the
header says of the layout stays, and so does what the users share. -/
structure Serves (r : Region) (locking : Bool) (m after : Memory) : Prop where
  bytes : ∀ x, after.byte x ≠ m.byte x → (locking = true ∧ r.InLock x) ∨ r.InFreeHead x ∨
    ∃ part, part ≠ .header ∧ r.InPart part x
  stamp : (Header.load after r.base).stamp = (Header.load m r.base).stamp
  userData : r.userData after = r.userData m

theorem Serves.of_bytes {locking : Bool} {m after : Memory}
    (same : ∀ x, ¬(locking = true ∧ r.InLock x) → ¬r.InTables x → ¬r.InPages x →
      after.byte x = m.byte x) : r.Serves locking m after := by
  have fixed : ∀ k, Header.Own k → ¬r.InLock (r.base + k) →
      after.byte (r.base + k) = m.byte (r.base + k) := fun k own free =>
    same _ (fun lock => free lock.2) (not_inTables_of_own own) (not_inPages_of_own own)
  refine ⟨fun x changed => ?_, Header.stamp_load_congr fun k inside => fixed k inside.own ?_, ?_⟩
  · by_contra! beyond
    obtain ⟨lock, free, parts⟩ := beyond
    refine changed (same x (fun both => lock both.1 both.2) (fun table => ?_)
      (parts .pages (by simp)))
    rcases inPart_of_inTables table with head | slot | descriptor
    · exact free head
    · exact parts .heads (by simp) slot
    · exact parts .descriptors (by simp) descriptor
  · unfold Header.Fixed Header.lockAt Header.freeAt Header.userDataAt at inside
    unfold InLock Header.lockAt
    omega
  · refine Memory.read_congr fun i within => ?_
    rw [Nat.add_assoc]
    refine fixed (Header.userDataAt + i) ?_ ?_
    · unfold Header.Own Header.userDataAt Header.freeAt Layout.headerSize
      omega
    · unfold InLock Header.userDataAt Header.lockAt
      omega

end Region

/-- Whatever a call changes lies in the span. -/
theorem Call.MayWrite.inside {r : Region} {c : Call} {x : Nat} (writes : c.MayWrite r x) :
    r.base ≤ x ∧ x < r.base + r.length := by
  have table (table : r.InTables x) : r.base ≤ x ∧ x < r.base + r.length := by
    rcases Region.inPart_of_inTables table with head | slot | descriptor
    · exact head.inPart.inside
    · exact slot.inside
    · exact descriptor.inside
  have page (page : r.InPages x) : r.base ≤ x ∧ x < r.base + r.length :=
    Region.InPart.inside (show r.InPart .pages x from page)
  cases c with
  | allocate | allocateZeroed | release => exact writes.elim table page
  | write => exact page writes
  | setLockWord => exact (show r.InLock x from writes).inPart.inside
  | setUserData =>
    have room := r.header_le_length
    unfold MayWrite Header.userDataAt at writes
    unfold Layout.headerSize at room
    omega

namespace Pool

variable {pool : Pool} {s : PoolState} {α : Type}

/-- A call and its locking form are answered and change no more than they may.
The locking form does nothing where it would have to wait. -/
def KeepsToParts (pool : Pool) (work : Memory → Except Fault (α × Memory)) (m : Memory) : Prop :=
  (∃ answer after, work m = .ok (answer, after) ∧ pool.region.Serves false m after) ∧
  ∃ result, pool.withLock work m = .ok result ∧
    ∀ answer after, result = some (answer, after) → pool.region.Serves true m after

theorem keepsToParts {work : Memory → Except Fault (α × Memory)}
    (inv : s.Invariant pool.region)
    (each : ∀ s : PoolState, s.Invariant pool.region → ∃ answer after,
      work s.memory = .ok (answer, after) ∧ pool.region.InsideOnly s.memory after) :
    pool.KeepsToParts work s.memory := by
  constructor
  · obtain ⟨answer, after, run, inside⟩ := each s inv
    exact ⟨answer, after, run, .of_bytes fun x _ table page => inside x table page⟩
  · unfold withLock
    cases lock : pool.lock? s.memory with
    | none => exact ⟨none, rfl, nofun⟩
    | some locked =>
      obtain ⟨held, _, rfl⟩ := Option.map_eq_some_iff.mp lock
      obtain ⟨_, taken, good⟩ := PoolState.invariant_perform inv
        (c := .setLockWord held.word) trivial
      cases taken
      obtain ⟨answer, between, run, inside⟩ := each _ good
      refine ⟨some (answer, pool.unlock between), ?_, ?_⟩
      · dsimp only
        rw [setMutex, run]
        rfl
      · rintro _ _ ⟨⟩
        -- The word of the lock is written before the work and after it.
        refine .of_bytes fun x free table page => ?_
        have aside : x < pool.region.base + Header.lockAt ∨
            pool.region.base + Header.lockAt + 4 ≤ x := by
          have outside : ¬pool.region.InLock x := fun lock => free ⟨rfl, lock⟩
          unfold Region.InLock at outside
          omega
        rw [unlock, setMutex, Region.setLockWord, Memory.byte_write_of_outside _ _ aside,
          inside x table page]
        exact Memory.byte_write_of_outside _ _ aside

/-- Laying out a pool writes its header, its list heads and its descriptors, and
with junk filling on its pages. -/
theorem part_of_create {base length : Nat} {settings : Settings} {m after : Memory} {x : Nat}
    (run : Pool.create base length settings m = (.ok pool, after))
    (changed : after.byte x ≠ m.byte x) :
    ∃ part, pool.region.InPart part x ∧ (part = .pages → settings.junk = true) := by
  obtain ⟨r, _, rfl, rfl⟩ := Pool.create_eq_ok_iff.mp run
  by_contra! beyond
  have header : ¬r.InPart .header x := fun inside => by simpa using beyond .header inside
  have table : ¬r.InTables x := by
    intro table
    rcases Region.inPart_of_inTables table with head | slot | descriptor
    · exact header head.inPart
    · simpa using beyond .heads slot
    · simpa using beyond .descriptors descriptor
  have formatted : (r.format m).byte x = m.byte x := by
    rw [Region.format_tables x table]
    refine Header.byte_store_of_outside _ m ?_
    simp only [Region.InPart, Region.partStart, Region.partSize] at header
    omega
  unfold spoil at changed
  split at changed
  · rename_i junk
    have page : ¬(r.start ≤ x ∧ x < r.start + r.pageCount * r.pageSize) := fun inside =>
      (beyond .pages inside).2 junk
    rw [Memory.byte_fill, if_neg page] at changed
    exact changed formatted
  · exact changed formatted

end Pool

/-- A pool that could not be laid out leaves the memory of a session alone. -/
theorem Session.create_failed {v : Session} {o : Opening} {e : SetupError} {after : Memory}
    (failed : Pool.create (v.base + o.shift) (o.length?.getD (v.length - o.shift)) o.settings
      v.memory = (.error e, after)) : ∃ outcome, v.create o = .ok outcome ∧
        outcome.reply = .failed (.setup e) ∧ outcome.session.memory = v.memory := by
  rw [Session.create, failed]
  exact ⟨_, rfl, rfl, (Pool.create_failed failed).1⟩

namespace Later

variable {r : Region} {s after : PoolState}

/-- Nothing that happens to a pool changes a byte outside its span. -/
theorem byte_outside (later : Later r s after) (reached : Reachable r s) {x : Nat}
    (outside : x < r.base ∨ r.base + r.length ≤ x) : after.memory.byte x = s.memory.byte x := by
  induction later with
  | rest => rfl
  | @call pool between after c later handle allowed run ih =>
    subst handle
    rw [← ih]
    refine PoolState.perform_writes (later.reachable reached).invariant allowed run fun writes => ?_
    have inside := writes.inside
    omega

end Later

theorem PoolState.Invariant.keepsToParts {s : PoolState} {pool : Pool}
    (inv : s.Invariant pool.region) (size p : Nat) :
    pool.KeepsToParts (pool.allocate size) s.memory ∧
      pool.KeepsToParts (pool.allocateZeroed size) s.memory ∧
      pool.KeepsToParts (pool.release p) s.memory := by
  refine ⟨Pool.keepsToParts inv fun s good => ?_, Pool.keepsToParts inv fun s good => ?_,
    Pool.keepsToParts inv fun s good => ?_⟩
  · obtain ⟨answer, after, run, _⟩ := PoolState.invariant_allocate good size
    exact ⟨answer, after, run, PoolState.inside_allocate good run⟩
  · obtain ⟨answer, after, run, _⟩ := PoolState.invariant_allocateZeroed good size
    exact ⟨answer, after, run, PoolState.inside_allocateZeroed good run⟩
  · obtain ⟨answer, after, run, _⟩ := PoolState.invariant_release good p
    exact ⟨answer, after, run, PoolState.inside_release good run⟩

/-- All writes stay in their own part of the span: none happens where a pool
cannot be laid out; laying one out writes to its parts, which are apart from each
other and lie in the span; and so does all that happens to it afterwards. -/
theorem Pool.writes_own_parts {base length : Nat} {settings : Settings} {m : Memory} :
    (∀ (e : SetupError) (after : Memory),
      Pool.create base length settings m = (.error e, after) → ∀ x, after.byte x = m.byte x) ∧
    (∀ (v : Session) (o : Opening) (e : SetupError) (after : Memory),
      Pool.create (v.base + o.shift) (o.length?.getD (v.length - o.shift)) o.settings v.memory =
          (.error e, after) →
        ∃ outcome, v.create o = .ok outcome ∧ outcome.reply = .failed (.setup e) ∧
          outcome.session.memory = v.memory) ∧
    ∀ (pool : Pool) (fresh : Memory), Pool.create base length settings m = (.ok pool, fresh) →
      (∀ x part, pool.region.InPart part x → base ≤ x ∧ x < base + length ∧
        ∀ other, pool.region.InPart other x → other = part) ∧
      (∀ x, fresh.byte x ≠ m.byte x →
        ∃ part, pool.region.InPart part x ∧ (part = .pages → settings.junk = true)) ∧
      ∀ s, Later pool.region ⟨fresh, []⟩ s →
        (∀ x, (x < base ∨ base + length ≤ x) → s.memory.byte x = m.byte x) ∧
        ∀ handle : Pool, handle.region = pool.region → ∀ size p,
          handle.KeepsToParts (handle.allocate size) s.memory ∧
            handle.KeepsToParts (handle.allocateZeroed size) s.memory ∧
            handle.KeepsToParts (handle.release p) s.memory := by
  refine ⟨fun e after failed x => ?_, fun v o e after => Session.create_failed,
    fun pool fresh created => ?_⟩
  · rw [(create_failed failed).1]
  have new : Reachable pool.region ⟨fresh, []⟩ := .create created rfl
  obtain ⟨rfl, rfl, _⟩ := plan_of_create created
  refine ⟨fun x part inside => ⟨inside.inside.1, inside.inside.2, fun other => (·.unique inside)⟩,
    fun x => part_of_create created, fun s later => ⟨fun x outside => ?_, fun handle same => ?_⟩⟩
  · rw [later.byte_outside new outside]
    by_contra changed
    obtain ⟨part, inside, _⟩ := part_of_create created changed
    have inside := inside.inside
    omega
  · have inv := (later.reachable new).invariant
    rw [← same] at inv
    exact inv.keepsToParts

theorem writes_own_parts_two_blocks : ∃ (pool : Pool) (s : PoolState),
    s.live = [⟨6144, 1500⟩, ⟨5136, 5⟩] ∧
      (∀ x, (x < 4096 ∨ 8192 ≤ x) → s.memory.byte x = (Memory.uniform 0 0 0).byte x) ∧
      pool.KeepsToParts (pool.release 5136) s.memory := by
  obtain ⟨pool, m, s, created, ran, _, live, _⟩ := reachable_two_blocks
  obtain ⟨_, _, ever⟩ := Pool.writes_own_parts.2.2 pool m created
  obtain ⟨outside, keeps⟩ := ever s (Later.rest.calls (by simp [Call.Allowed]) ran)
  exact ⟨pool, s, live, fun x beyond => outside x beyond, (keeps pool rfl 0 5136).2.2⟩

end SlabAllocator
