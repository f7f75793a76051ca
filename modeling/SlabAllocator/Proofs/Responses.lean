import SlabAllocator.Pool.Script
import SlabAllocator.Proofs.Determined
import SlabAllocator.Proofs.Writes

namespace SlabAllocator

namespace Request

/-- The blocks in use once a request got its response. -/
def held (base : Nat) (live : List Block) : Request → Response → List Block
  | .allocate size, .placed distance => ⟨(base + distance).toNat, size⟩ :: live
  | .allocateZeroed size, .placed distance => ⟨(base + distance).toNat, size⟩ :: live
  | .release distance, .released => live.filter fun b => b.address ≠ (base + distance).toNat
  | _, _ => live

end Request

namespace Response

/-- The response to a request for memory. -/
def ofAnswer (base : Nat) : Except PoolError Nat → Response
  | .ok p => .placed (p - base)
  | .error e => .failed e

/-- The response when an address is handed back. -/
def ofVerdict : Except ReleaseError Unit → Response
  | .ok () => .released
  | .error e => .failed (.refused e)

variable {base size : Nat} {distance : Int} {live : List Block}

theorem held_ofAnswer (answer : Except PoolError Nat) :
    (Request.allocate size).held base live (ofAnswer base answer) = granted size live answer ∧
      (Request.allocateZeroed size).held base live (ofAnswer base answer) =
        granted size live answer := by
  cases answer with
  | error e => exact ⟨rfl, rfl⟩
  | ok p =>
    have address : ((base : Int) + (p - base)).toNat = p := by omega
    simp only [ofAnswer, Request.held, granted, address, and_self]

theorem held_ofVerdict (verdict : Except ReleaseError Unit) :
    (Request.release distance).held base live (ofVerdict verdict) =
      returned (base + distance).toNat live verdict := by
  cases verdict <;> rfl

end Response

/-- How a request is answered where a map describes the pool, and what the pages
are used for afterwards. -/
inductive PageMap.Responds (r : Region) (t : PageMap) : Request → Response → PageMap → Prop
  | allocate {size : Nat} {found : Option Nat} {next : PageMap} (placed : t.Placed r size found next) :
      Responds r t (.allocate size) (.ofAnswer r.base (answerFor size found)) next
  | allocateZeroed {size : Nat} {found : Option Nat} {next : PageMap}
      (placed : t.Placed r size found next) :
      Responds r t (.allocateZeroed size) (.ofAnswer r.base (answerFor size found)) next
  | release {distance : Int} {verdict : Except ReleaseError Unit} {next : PageMap}
      (back : t.Returned r (r.base + distance).toNat verdict next) :
      Responds r t (.release distance) (.ofVerdict verdict) next
  | usage {m : Memory} {counts : Usage} (shows_ : r.Shows m t) (run : r.usage m = .ok counts) :
      Responds r t .usage (.usage counts) t
  | snapshot {m : Memory} {tables : Snapshot} (shows_ : r.Shows m t)
      (run : r.snapshot m = .ok tables) : Responds r t .snapshot (.snapshot tables) t

/-- The map alone decides how a request is answered. -/
theorem PageMap.Responds.unique {r : Region} {t next after : PageMap} {q : Request}
    {response echo : Response} (one : t.Responds r q response next)
    (two : t.Responds r q echo after) (sound : t.Sound r) : response = echo ∧ next = after := by
  cases one with
  | allocate placed =>
    cases two with
    | allocate also =>
      obtain ⟨rfl, rfl⟩ := placed.unique also
      exact ⟨rfl, rfl⟩
  | allocateZeroed placed =>
    cases two with
    | allocateZeroed also =>
      obtain ⟨rfl, rfl⟩ := placed.unique also
      exact ⟨rfl, rfl⟩
  | release back =>
    cases two with
    | release also =>
      obtain ⟨rfl, rfl⟩ := back.unique also rfl sound
      exact ⟨rfl, rfl⟩
  | usage shows_ run =>
    cases two with
    | usage sees ran =>
      rw [sees.usage_same shows_ sound, ran] at run
      exact ⟨congrArg Response.usage (Except.ok.inj run).symm, rfl⟩
  | snapshot shows_ run =>
    cases two with
    | snapshot sees ran =>
      rw [sees.snapshot_same shows_, ran] at run
      exact ⟨congrArg Response.snapshot (Except.ok.inj run).symm, rfl⟩

namespace PoolState.Shown

variable {pool : Pool} {s : PoolState} {t : PageMap}

/-- Every request is answered as the map says, and outside the tables and the
pages no byte changes. -/
theorem respond (shown : Shown pool.region t s) (q : Request) :
    ∃ response after next, pool.respond s.memory q = .ok (response, after) ∧
      t.Responds pool.region q response next ∧
      Shown pool.region next ⟨after, q.held pool.region.base s.live response⟩ ∧
      pool.region.InsideOnly s.memory after := by
  cases q with
  | allocate size =>
    obtain ⟨found, after, next, run, placed, there⟩ := shown.allocate rfl size
    have inside := inside_allocate shown.invariant run
    refine ⟨_, after, next, ?_, .allocate placed, ?_, inside⟩
    · rw [Pool.respond, run]
      cases found <;> rfl
    · rwa [(Response.held_ofAnswer _).1]
  | allocateZeroed size =>
    obtain ⟨found, after, next, run, placed, there⟩ := shown.allocateZeroed rfl size
    have inside := inside_allocateZeroed shown.invariant run
    refine ⟨_, after, next, ?_, .allocateZeroed placed, ?_, inside⟩
    · rw [Pool.respond, run]
      cases found <;> rfl
    · rwa [(Response.held_ofAnswer _).2]
  | release distance =>
    obtain ⟨verdict, after, next, run, back, there⟩ :=
      shown.release rfl (pool.region.base + distance).toNat
    have inside := inside_release shown.invariant run
    refine ⟨_, after, next, ?_, .release back, ?_, inside⟩
    · rw [Pool.respond, run]
      cases verdict <;> rfl
    · rwa [Response.held_ofVerdict]
  | usage =>
    have run := shown.shows_.usage_eq shown.sound rfl
    refine ⟨_, s.memory, t, ?_, .usage shown.shows_ run, shown, .refl s.memory⟩
    rw [Pool.respond, run]
    rfl
  | snapshot =>
    have run := shown.shows_.snapshot_eq
    refine ⟨_, s.memory, t, ?_, .snapshot shown.shows_ run, shown, .refl s.memory⟩
    rw [Pool.respond, run]
    rfl

/-- A turn is taken, or nothing happens because the lock is held. -/
theorem turn (shown : Shown pool.region t s) (turn : Turn) :
    ∃ response after next live, pool.turn turn s.memory = .ok (response, after) ∧
      Shown pool.region next ⟨after, live⟩ := by
  obtain ⟨locking, q⟩ := turn
  cases locking with
  | false =>
    obtain ⟨response, after, next, run, _, there, _⟩ := shown.respond q
    refine ⟨some response, after, next, _, ?_, there⟩
    rw [Pool.turn, run]
    rfl
  | true =>
    rw [Pool.turn, if_pos rfl, Pool.withLock]
    cases lock : pool.lock? s.memory with
    | none => exact ⟨none, s.memory, t, s.live, rfl, shown⟩
    | some locked =>
      obtain ⟨taken, _, rfl⟩ := Option.map_eq_some_iff.mp lock
      obtain ⟨response, between, next, run, _, there, _⟩ := (shown.setLockWord taken.word).respond q
      refine ⟨some response, pool.unlock between, next, _, ?_, there.setLockWord _⟩
      dsimp only [Pool.setMutex]
      rw [run]
      rfl

theorem script (shown : Shown pool.region t s) (turns : List Turn) :
    ∃ trace, pool.script turns s.memory = .ok trace := by
  induction turns generalizing s t with
  | nil => exact ⟨[], rfl⟩
  | cons turn rest ih =>
    obtain ⟨response, after, next, live, run, there⟩ := shown.turn turn
    obtain ⟨trace, others⟩ := ih there
    refine ⟨(response, after) :: trace, ?_⟩
    rw [Pool.script, run, ok_bind]
    exact congrArg (fun found => found >>= _) others

end PoolState.Shown

end SlabAllocator
