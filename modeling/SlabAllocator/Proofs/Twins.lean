import SlabAllocator.Proofs.QuietFailures
import SlabAllocator.Proofs.Responses
import SlabAllocator.Proofs.Stamp

namespace SlabAllocator

/-- A byte that is written does not depend on what was there, and no other byte
does more than it did. -/
theorem Memory.byte_write_congr {m seen : Memory} {a width x : Nat} (value : Nat)
    (same : ¬(a ≤ x ∧ x < a + width) → seen.byte x = m.byte x) :
    (seen.write a width value).byte x = (m.write a width value).byte x := by
  by_cases inside : a ≤ x ∧ x < a + width
  · exact seen.byte_write_of_inside m value inside.1 inside.2
  · rw [seen.byte_write_of_outside value (by omega), m.byte_write_of_outside value (by omega)]
    exact same inside

namespace Header

/-- The offsets of the bytes that are spelled out with a header, but for the link
to the first free run, which is one of the tables. -/
def Spelled (k : Nat) : Prop := k < freeAt ∨ freeAt + 8 ≤ k ∧ k < Layout.headerSize

theorem Spelled.own {k : Nat} (spelled : Spelled k) : Own k := by
  unfold Spelled freeAt Layout.headerSize at spelled
  unfold Own freeAt Layout.headerSize
  omega

theorem byte_store_congr (h : Header) (base : Nat) (m seen : Memory) {k : Nat}
    (spelled : Spelled k) : (h.store base seen).byte (base + k) = (h.store base m).byte (base + k) := by
  unfold Spelled freeAt Layout.headerSize at spelled
  unfold store lockAt freeAt userDataAt
  -- From the last number that is written to the first: one of them holds the byte.
  iterate 11 refine Memory.byte_write_congr _ fun _ => ?_
  omega

theorem load_congr {m seen : Memory} {base : Nat}
    (same : ∀ k, Spelled k → seen.byte (base + k) = m.byte (base + k))
    (free : seen.read (base + freeAt) 4 = m.read (base + freeAt) 4) : load seen base = load m base := by
  have spelled (k width : Nat) (inside : ∀ i < width, Spelled (k + i)) :
      seen.read (base + k) width = m.read (base + k) width :=
    Memory.read_congr fun i within => by
      rw [Nat.add_assoc]
      exact same (k + i) (inside i within)
  unfold Spelled freeAt Layout.headerSize at spelled
  have magic := spelled 0 8 (by omega)
  rw [Nat.add_zero] at magic
  unfold load lockAt userDataAt
  rw [magic, spelled 8 4 (by omega), spelled 12 4 (by omega), spelled 16 4 (by omega),
    spelled 20 4 (by omega), spelled 24 4 (by omega), spelled 28 4 (by omega), free,
    spelled 40 8 (by omega), spelled 48 8 (by omega), spelled 56 8 (by omega)]

end Header

/-- Callers write where the tables and the records are not. -/
theorem PoolState.Shown.written {r : Region} {t : PageMap} {live : List Block} {m after : Memory}
    (shown : Shown r t ⟨m, live⟩)
    (same : ∀ x, (∀ b ∈ live, ¬b.Covers r.geometry x) → after.byte x = m.byte x) :
    Shown r t ⟨after, live⟩ ∧ r.InsideOnly m after := by
  refine ⟨⟨shown.shows_.congr_idle fun x busy => ?_, shown.sound, shown.fits⟩, fun x _ outside => ?_⟩
  · exact same x fun b listed covers => busy (shown.idle_of_covers listed covers)
  · exact same x fun b listed covers => outside
      (Region.inPages_of_holds shown.sound (shown.fits.lends listed) covers.1 covers.2)

/-- Where the lock is free, work under it is the work between two changes of its
word. -/
theorem Pool.withLock_free {α : Type} {pool : Pool} {m after : Memory}
    {work : Memory → Except Fault (α × Memory)} {answer : α} (free : pool.region.lockWord m = 0)
    (run : work (pool.region.setLockWord 1 m) = .ok (answer, after)) :
    pool.withLock work m = .ok (some (answer, pool.region.setLockWord 0 after)) := by
  have lock : pool.lock? m = some (pool.region.setLockWord 1 m) := by
    rw [lock?, mutex, free]
    rfl
  rw [withLock, lock]
  dsimp only
  rw [run, ok_bind, unlock, Mutex.unlock_eq]
  rfl

namespace Pool

variable {pool : Pool} {m after : Memory} {q : Request} {response : Response}

theorem turn_plain (run : pool.respond m q = .ok (response, after)) :
    pool.turn ⟨false, q⟩ m = .ok (some response, after) := by
  rw [turn, run]
  rfl

theorem turn_locking (free : pool.region.lockWord m = 0)
    (run : pool.respond (pool.region.setLockWord 1 m) q = .ok (response, after)) :
    pool.turn ⟨true, q⟩ m = .ok (some response, pool.region.setLockWord 0 after) := by
  rw [turn, if_pos rfl, withLock_free free run]
  rfl

end Pool

namespace Region

variable {r : Region} {m seen after left : Memory}

theorem lockWord_congr
    (same : ∀ k, Header.Spelled k → seen.byte (r.base + k) = m.byte (r.base + k)) :
    r.lockWord seen = r.lockWord m := by
  unfold lockWord
  refine congrArg UInt32.ofNat (Memory.read_congr fun i within => ?_)
  rw [Nat.add_assoc]
  exact same _ (Or.inl (by unfold Header.lockAt Header.freeAt; omega))

theorem InsideOnly.lockWord (inside : r.InsideOnly m after) : r.lockWord after = r.lockWord m :=
  lockWord_congr fun _ spelled => inside.own spelled.own

/-- Two memories of a region with the same blocks in use, which one map
describes. What the blocks hold, and what no table speaks of, may differ. -/
structure Twins (r : Region) (t : PageMap) (live : List Block) (m seen : Memory) : Prop where
  one : PoolState.Shown r t ⟨m, live⟩
  two : PoolState.Shown r t ⟨seen, live⟩
  header : ∀ k, Header.Spelled k → seen.byte (r.base + k) = m.byte (r.base + k)

namespace Twins

variable {t : PageMap} {live : List Block} {pool other : Pool}

theorem lockWord (twins : r.Twins t live m seen) : r.lockWord seen = r.lockWord m :=
  lockWord_congr twins.header

theorem load_eq (twins : r.Twins t live m seen) : Header.load seen r.base = Header.load m r.base := by
  refine Header.load_congr twins.header ?_
  have same := congrArg (fun link => link.raw.toNat)
    (twins.one.shows_.headOf_eq twins.two.shows_ r.hasList_free)
  simp only [headOf, headAddress, UInt32.toNat_ofNat'] at same
  have first := m.read_lt (r.base + Header.freeAt) 4
  have second := seen.read_lt (r.base + Header.freeAt) 4
  omega

theorem setLockWord (twins : r.Twins t live m seen) (word : UInt32) :
    r.Twins t live (r.setLockWord word m) (r.setLockWord word seen) where
  one := twins.one.setLockWord word
  two := twins.two.setLockWord word
  header k spelled := Memory.byte_write_congr _ fun _ => twins.header k spelled

theorem follow {next : PageMap} {now : List Block} (twins : r.Twins t live m seen)
    (one : PoolState.Shown r next ⟨after, now⟩) (two : PoolState.Shown r next ⟨left, now⟩)
    (inside : r.InsideOnly m after) (within : r.InsideOnly seen left) :
    r.Twins next now after left where
  one := one
  two := two
  header k spelled := (within.own spelled.own).trans
    ((twins.header k spelled).trans (inside.own spelled.own).symm)

/-- A request through any two handles is answered alike and leaves twins. -/
theorem respond (twins : r.Twins t live m seen) (here : pool.region = r)
    (there : other.region = r) (q : Request) :
    ∃ response after left next, pool.respond m q = .ok (response, after) ∧
      other.respond seen q = .ok (response, left) ∧
      r.Twins next (q.held r.base live response) after left ∧
      r.lockWord after = r.lockWord m := by
  subst here
  obtain ⟨response, after, next, run, responds, shown, inside⟩ := twins.one.respond q
  have two := twins.two
  rw [← there] at two
  obtain ⟨echo, left, last, ran, echoes, shows_, within⟩ := two.respond q
  rw [there] at echoes shows_ within
  obtain ⟨rfl, rfl⟩ := responds.unique echoes twins.one.sound
  exact ⟨response, after, left, next, run, ran, twins.follow shown shows_ inside within,
    inside.lockWord⟩

/-- So is a turn where the lock is free, in either form, and the lock is free
again. -/
theorem turn (twins : r.Twins t live m seen) (free : r.lockWord m = 0) (here : pool.region = r)
    (there : other.region = r) (turn : Turn) :
    ∃ response after left next, pool.turn turn m = .ok (some response, after) ∧
      other.turn turn seen = .ok (some response, left) ∧
      r.Twins next (turn.request.held r.base live response) after left ∧
      r.lockWord after = 0 := by
  obtain ⟨locking, q⟩ := turn
  cases locking with
  | false =>
    obtain ⟨response, after, left, next, run, ran, alike, word⟩ := twins.respond here there q
    exact ⟨response, after, left, next, Pool.turn_plain run, Pool.turn_plain ran, alike,
      word.trans free⟩
  | true =>
    obtain ⟨response, after, left, next, run, ran, alike, _⟩ :=
      (twins.setLockWord 1).respond here there q
    subst here
    have free' := twins.lockWord.trans free
    rw [← there] at free' ran
    have ends := Pool.turn_locking free' ran
    rw [there] at ends
    exact ⟨response, _, _, next, Pool.turn_locking free run, ends, alike.setLockWord 0,
      Pool.lockWord_setLockWord 0⟩

/-- What callers write to the blocks that they hold makes no difference. -/
theorem written (twins : r.Twins t live m seen)
    (one : ∀ x, (∀ b ∈ live, ¬b.Covers r.geometry x) → after.byte x = m.byte x)
    (two : ∀ x, (∀ b ∈ live, ¬b.Covers r.geometry x) → left.byte x = seen.byte x) :
    r.Twins t live after left ∧ r.lockWord after = r.lockWord m := by
  obtain ⟨shown, inside⟩ := twins.one.written one
  obtain ⟨shows_, within⟩ := twins.two.written two
  exact ⟨twins.follow shown shows_ inside within, inside.lockWord⟩

end Twins

end Region

namespace Pool

variable {base length : Nat} {settings other : Settings} {m seen after left : Memory}
  {pool second : Pool}

/-- Where a pool is laid out depends on the page size and on the least chunk
alone. -/
theorem plan_congr (size : other.pageSize = settings.pageSize)
    (least : other.minShift = settings.minShift) :
    plan base length other = plan base length settings := by
  obtain ⟨_, _, _, _, _⟩ := settings
  obtain ⟨_, _, _, _, _⟩ := other
  cases size
  cases least
  rfl

theorem create_refused_congr {e : SetupError} (size : other.pageSize = settings.pageSize)
    (least : other.minShift = settings.minShift) (seen : Memory)
    (run : create base length settings m = (.error e, after)) :
    create base length other seen = (.error e, seen) := by
  rw [create, plan_congr size least, (create_failed run).2]

theorem create_congr (size : other.pageSize = settings.pageSize)
    (least : other.minShift = settings.minShift) (seen : Memory)
    (run : create base length settings m = (.ok pool, after)) :
    ∃ second left, create base length other seen = (.ok second, left) ∧
      second.region = pool.region := by
  obtain ⟨r, planned, rfl, _⟩ := create_eq_ok_iff.mp run
  have again := (plan_congr size least).trans planned
  exact ⟨ofRegion r other, _, create_eq_ok_iff.mpr ⟨r, again, rfl, rfl⟩, rfl⟩

/-- A region is laid out alike whatever was in the memory. -/
theorem twins_create (one : create base length settings m = (.ok pool, after))
    (two : create base length other seen = (.ok second, left)) (same : second.region = pool.region) :
    pool.region.Twins (PageMap.fresh pool.region) [] after left ∧
      pool.region.lockWord after = 0 := by
  have shown := PoolState.shown_create two
  rw [same] at shown
  have here (k : Nat) (own : Header.Own k) : after.byte (pool.region.base + k) =
      (pool.region.freshHeader.store pool.region.base m).byte (pool.region.base + k) :=
    byte_create one own
  have there (k : Nat) (own : Header.Own k) : left.byte (pool.region.base + k) =
      (pool.region.freshHeader.store pool.region.base seen).byte (pool.region.base + k) := by
    rw [← same]
    exact byte_create two own
  refine ⟨⟨PoolState.shown_create one, shown, fun k spelled => ?_⟩, ?_⟩
  · rw [here k spelled.own, there k spelled.own]
    exact Header.byte_store_congr _ _ m seen spelled
  · have stored := congrArg Header.lock
      (Header.load_store pool.region.freshHeader pool.region.base m)
    rw [Region.lockWord_congr fun k spelled => here k spelled.own]
    exact congrArg UInt32.ofNat stored

end Pool

end SlabAllocator
