import SlabAllocator.Proofs.Attaching
import SlabAllocator.Proofs.MirroredCalls
import SlabAllocator.Proofs.Responses

namespace SlabAllocator

namespace Pool

variable {pool : Pool} {base : Nat} {m seen : Memory}
  {fit : Layout.plan base pool.region.length pool.region.geometry = .ok pool.region.layout}

/-- Blocks at the same spot are the same distance away. -/
theorem placed_alike {x y : Except Fault (Except PoolError Nat × Memory)}
    (alike : Alike (pool.region.Echoes base (Alike (pool.region.SameSpot base))) x y) :
    Alike (pool.region.Echoes base Eq)
      (do
        match ← x with
        | (.ok p, m) => return (Response.placed (p - pool.region.base), m)
        | (.error e, m) => return (.failed e, m))
      (do
        match ← y with
        | (.ok p, m) => return (Response.placed (p - base), m)
        | (.error e, m) => return (.failed e, m)) := by
  refine .bind alike fun one other placed => ?_
  obtain ⟨found, after⟩ := one
  obtain ⟨again, left⟩ := other
  obtain ⟨spots, same⟩ := placed
  cases spots with
  | error e => exact .answer ⟨rfl, same⟩
  | answer spot =>
    unfold Region.SameSpot at spot
    exact .answer ⟨congrArg Response.placed (by omega), same⟩

theorem respond_alike (mirrored : pool.region.Mirrored base m seen) {q : Request}
    (here : q.InRange pool.region.base) (there : q.InRange base) :
    Alike (pool.region.Echoes base Eq) (pool.respond m q) ((pool.moved base fit).respond seen q) := by
  cases q with
  | allocate size => exact placed_alike (allocate_alike mirrored size)
  | allocateZeroed size => exact placed_alike (allocateZeroed_alike mirrored size)
  | release distance =>
    have address : ((pool.moved base fit).region.base : Int) = base := rfl
    have spot : pool.region.SameSpot base (pool.region.base + distance).toNat
        ((pool.moved base fit).region.base + distance).toNat := by
      unfold Request.InRange at here there
      unfold Region.SameSpot
      omega
    refine .bind (release_alike mirrored spot) fun one other back => ?_
    obtain ⟨verdict, after⟩ := one
    obtain ⟨_, left⟩ := other
    obtain ⟨rfl, same⟩ := back
    cases verdict with
    | ok _ => exact .answer ⟨rfl, same⟩
    | error e => exact .answer ⟨rfl, same⟩
  | usage => exact .bind_eq mirrored.usage fun counts _ => .answer ⟨rfl, mirrored⟩
  | snapshot => exact .bind_eq mirrored.snapshot fun tables _ => .answer ⟨rfl, mirrored⟩

theorem mutex_moved (mirrored : pool.region.Mirrored base m seen) :
    (pool.moved base fit).mutex seen = pool.mutex m :=
  congrArg Mutex.mk mirrored.lockWord

theorem unlock_mirrored (mirrored : pool.region.Mirrored base m seen) :
    pool.region.Mirrored base (pool.unlock m) ((pool.moved base fit).unlock seen) := by
  rw [unlock, unlock, mutex_moved mirrored]
  exact mirrored.setLockWord _

/-- Work under the lock comes out alike where the work does. -/
theorem withLock_alike {α : Type} {R : α → α → Prop}
    {work other : Memory → Except Fault (α × Memory)} (mirrored : pool.region.Mirrored base m seen)
    (alike : ∀ m seen, pool.region.Mirrored base m seen →
      Alike (pool.region.Echoes base R) (work m) (other seen)) :
    Alike (Option.Rel (pool.region.Echoes base R)) (pool.withLock work m)
      ((pool.moved base fit).withLock other seen) := by
  unfold withLock lock?
  rw [mutex_moved mirrored]
  cases (pool.mutex m).tryLock? with
  | none => exact .answer .none
  | some held =>
    refine .bind (alike _ _ (mirrored.setLockWord held.word)) fun one another done => ?_
    exact .answer (.some ⟨done.1, unlock_mirrored done.2⟩)

theorem turn_alike (mirrored : pool.region.Mirrored base m seen) {t : Turn}
    (here : t.request.InRange pool.region.base) (there : t.request.InRange base) :
    Alike (pool.region.Echoes base Eq) (pool.turn t m) ((pool.moved base fit).turn t seen) := by
  unfold turn
  split
  · refine .bind (withLock_alike mirrored fun m seen mirrored =>
      respond_alike mirrored here there) fun one other done => ?_
    cases done with
    | none => exact .answer ⟨rfl, mirrored⟩
    | some echo => exact .answer ⟨congrArg some echo.1, echo.2⟩
  · refine .bind (respond_alike mirrored here there) fun one other done => ?_
    exact .answer ⟨congrArg some done.1, done.2⟩

theorem script_alike (mirrored : pool.region.Mirrored base m seen) {turns : List Turn}
    (inRange : ∀ t ∈ turns, t.request.InRange pool.region.base ∧ t.request.InRange base) :
    Alike (List.Forall₂ (pool.region.Echoes base Eq)) (pool.script turns m)
      ((pool.moved base fit).script turns seen) := by
  induction turns generalizing m seen with
  | nil => exact .answer .nil
  | cons t rest ih =>
    obtain ⟨first, others⟩ := List.forall_mem_cons.mp inRange
    refine .bind (turn_alike mirrored first.1 first.2) fun one other taken => ?_
    refine .bind (ih taken.2 others) fun _ _ run => ?_
    exact .answer (.cons taken run)

/-- A handle is its region and whether it overwrites what is released; the rest
is for waiters and for the log. -/
theorem turn_congr {second : Pool} (region : second.region = pool.region)
    (junk : second.junk = pool.junk) (t : Turn) (m : Memory) : second.turn t m = pool.turn t m := by
  obtain ⟨r, j, spin, label⟩ := pool
  obtain ⟨_, _, spin', label'⟩ := second
  cases region
  cases junk
  rfl

end Pool

namespace Pool

variable {base other length : Nat} {settings : Settings} {m seen fresh : Memory} {pool : Pool}

/-- Laying out the same bytes equally far behind a page boundary makes the same
pool of them. -/
theorem create_moved (created : create base length settings m = (.ok pool, fresh))
    (congruent : other % settings.pageSize = base % settings.pageSize)
    (mirrored : pool.region.Mirrored other m seen) :
    ∃ fit clean, create other length settings seen = (.ok (pool.moved other fit), clean) ∧
      pool.region.Mirrored other fresh clean := by
  obtain ⟨r, planned, rfl, rfl⟩ := create_eq_ok_iff.mp created
  obtain ⟨rfl, rfl, chosen⟩ := plan_eq_ok_iff.mp planned
  rw [← (Settings.pageSize_eq chosen).1] at congruent
  have fit := Layout.plan_congr r.valid congruent r.planned
  have there : plan other r.length settings = .ok (r.moved other fit) :=
    plan_eq_ok_iff.mpr ⟨rfl, rfl, chosen⟩
  have formatted : (ofRegion r settings).region.Mirrored other (r.format m)
    ((r.moved other fit).format seen) := Region.Mirrored.format mirrored
  exact ⟨fit, _, create_eq_ok_iff.mpr ⟨_, there, rfl, rfl⟩,
    spoil_mirrored formatted (Region.start_moved fit) _⟩

end Pool

/-- Somebody who sees the bytes of a region from `base` on has opened it there,
in whatever state it was then. -/
def Region.OpenedAt (r : Region) (base : Nat) (handle : Pool) : Prop :=
  ∃ (s : PoolState) (view : Memory) (length : Nat) (settings : Settings),
    Reachable r s ∧ r.Mirrored base s.memory view ∧
      base + length + settings.pageSize < 2 ^ 64 ∧
      Pool.attach base length settings view = .ok handle

/-- Such a handle is one on the region where it is seen. -/
theorem Region.OpenedAt.moved {r : Region} {base : Nat} {handle : Pool}
    (opened : r.OpenedAt base handle) (word : r.length < 2 ^ 64) :
    ∃ fit, handle.region = r.moved base fit := by
  obtain ⟨s, view, length, settings, reached, mirrored, room, attached⟩ := opened
  obtain ⟨chosen, rfl, congruent, _⟩ := reached.stamped.of_attach mirrored word room attached
  obtain ⟨region, planned, _, rfl⟩ := Pool.attach_eq_ok_iff.mp attached
  have fit := Layout.plan_congr r.valid congruent r.planned
  have same : Pool.plan base r.length settings = .ok (r.moved base fit) :=
    Pool.plan_eq_ok_iff.mpr ⟨rfl, rfl, chosen⟩
  exact ⟨fit, Except.ok.inj (planned.symm.trans same)⟩

/-- A script has the same answers and leaves the same bytes behind, turn by turn,
wherever the span lies, as long as that is equally far behind a page boundary.
And in every state it makes no difference whether a turn is taken through the
first handle or through another one that somebody opened, there or elsewhere, if
only both overwrite what is released or both do not. -/
theorem Pool.position_independent {base length : Nat} {settings : Settings} {m fresh : Memory}
    {pool : Pool} (created : Pool.create base length settings m = (.ok pool, fresh))
    (word : length < 2 ^ 64) :
    (∀ other seen, other % settings.pageSize = base % settings.pageSize →
      pool.region.Mirrored other m seen →
      ∃ moved clean, Pool.create other length settings seen = (.ok moved, clean) ∧
        pool.region.Mirrored other fresh clean ∧
        ∀ turns : List Turn,
          (∀ t ∈ turns, t.request.InRange base ∧ t.request.InRange other) →
          ∃ trace echo, pool.script turns fresh = .ok trace ∧ moved.script turns clean = .ok echo ∧
            List.Forall₂ (pool.region.Echoes other Eq) trace echo) ∧
    ∀ (s : PoolState) (other : Nat) (seen : Memory) (second : Pool) (t : Turn),
      Reachable pool.region s → pool.region.OpenedAt other second → second.junk = pool.junk →
      pool.region.Mirrored other s.memory seen →
      t.request.InRange base → t.request.InRange other →
      ∃ response after echo, pool.turn t s.memory = .ok (response, after) ∧
        second.turn t seen = .ok (response, echo) ∧ pool.region.Mirrored other after echo := by
  obtain ⟨rfl, rfl, _⟩ := Pool.plan_of_create created
  constructor
  · intro other seen congruent mirrored
    obtain ⟨fit, clean, there, same⟩ := Pool.create_moved created congruent mirrored
    refine ⟨pool.moved other fit, clean, there, same, fun turns inRange => ?_⟩
    obtain ⟨trace, run⟩ := (PoolState.shown_create created).script turns
    obtain ⟨echo, ran, echoes⟩ := (Pool.script_alike same inRange).of_ok run
    exact ⟨trace, echo, run, ran, echoes⟩
  · intro s other seen second t reached opened junk mirrored here inside
    obtain ⟨fit, region⟩ := opened.moved word
    obtain ⟨map, shows_, sound, fits⟩ := reached.invariant
    obtain ⟨response, after, _, _, run, _⟩ := PoolState.Shown.turn ⟨shows_, sound, fits⟩ t
    obtain ⟨⟨_, echo⟩, ran, rfl, same⟩ := (Pool.turn_alike mirrored here inside).of_ok run
    have there : second.region = (pool.moved other fit).region := region
    have alike := Pool.turn_congr there junk t seen
    exact ⟨response, after, echo, run, alike.trans ran, same⟩

/-- Five pages further on, a request of one byte and the return of its chunk. -/
theorem Pool.position_independent_two_turns : ∃ (pool moved : Pool) (fresh clean : Memory)
    (trace echo : List (Option Response × Memory)),
    Pool.create 4096 4096 ⟨3, 1024, 0, true, ""⟩ (Memory.uniform 0 0 0) = (.ok pool, fresh) ∧
      Pool.create 9216 4096 ⟨3, 1024, 0, true, ""⟩ (Memory.uniform 0 0 0) = (.ok moved, clean) ∧
      pool.script [⟨false, .allocate 1⟩, ⟨true, .release 1040⟩] fresh = .ok trace ∧
      moved.script [⟨false, .allocate 1⟩, ⟨true, .release 1040⟩] clean = .ok echo ∧
      trace.map Prod.fst = [some (.placed 1040), some .released] ∧
      List.Forall₂ (pool.region.Echoes 9216 Eq) trace echo := by
  have outcome : inNewPool 4096 4096 ⟨3, 1024, 0, true, ""⟩ (Memory.uniform 0 0 0)
      (fun pool fresh => do
        let trace ← pool.script [⟨false, .allocate 1⟩, ⟨true, .release 1040⟩] fresh
        return trace.map Prod.fst) = some [some (.placed 1040), some .released] := by
    decide +kernel
  obtain ⟨pool, fresh, created, answered⟩ := of_inNewPool outcome
  have blank : ∀ x, (Memory.uniform 0 0 0).byte x = 0 := fun x =>
    dif_neg fun inside => Nat.not_lt_zero _ inside.2
  obtain ⟨everywhere, _⟩ := Pool.position_independent created (by decide)
  obtain ⟨moved, clean, there, _, runs⟩ :=
    everywhere 9216 (Memory.uniform 0 0 0) rfl fun k _ => (blank _).trans (blank _).symm
  obtain ⟨trace, echo, run, ran, echoes⟩ :=
    runs [⟨false, .allocate 1⟩, ⟨true, .release 1040⟩] (by simp [Request.InRange])
  rw [run] at answered
  exact ⟨pool, moved, fresh, clean, trace, echo, created, there, run, ran,
    Except.ok.inj answered, echoes⟩

end SlabAllocator
