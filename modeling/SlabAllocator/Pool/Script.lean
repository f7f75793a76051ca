import SlabAllocator.Pool.Locked

namespace SlabAllocator

/-- What a user asks of a pool. Somebody else may see the pool at another
address, so a pointer is named by its distance from the base of the span. -/
inductive Request where
  | allocate (size : Nat)
  | allocateZeroed (size : Nat)
  | release (distance : Int)
  | usage
  | snapshot
  deriving DecidableEq, Repr

/-- What a request is answered with. -/
inductive Response where
  | placed (distance : Int)
  | released
  | failed (cause : PoolError)
  | usage (counts : Usage)
  | snapshot (tables : Snapshot)
  deriving DecidableEq, Repr

/-- The address that a request names exists over a span at this base. -/
def Request.InRange (base : Nat) : Request → Prop
  | .release distance => 0 ≤ base + distance ∧ base + distance < 2 ^ 64
  | _ => True

/-- One request of a script and whether it is made in the form that takes the
lock for itself. -/
structure Turn where
  locking : Bool
  request : Request
  deriving DecidableEq, Repr

namespace Pool

/-- Answers a request without a look at the lock. -/
def respond (pool : Pool) (m : Memory) : Request → Except Fault (Response × Memory)
  | .allocate size => do
    match ← pool.allocate size m with
    | (.ok p, m) => return (.placed (p - pool.region.base), m)
    | (.error e, m) => return (.failed e, m)
  | .allocateZeroed size => do
    match ← pool.allocateZeroed size m with
    | (.ok p, m) => return (.placed (p - pool.region.base), m)
    | (.error e, m) => return (.failed e, m)
  | .release distance => do
    match ← pool.release (pool.region.base + distance).toNat m with
    | (.ok (), m) => return (.released, m)
    | (.error e, m) => return (.failed (.refused e), m)
  | .usage => do return (.usage (← pool.region.usage m), m)
  | .snapshot => do return (.snapshot (← pool.region.snapshot m), m)

/-- Takes one turn of a script. Nothing is answered where it would have to wait
for the lock. -/
def turn (pool : Pool) (t : Turn) (m : Memory) : Except Fault (Option Response × Memory) := do
  if t.locking then
    match ← pool.withLock (fun m => pool.respond m t.request) m with
    | some (response, m) => return (some response, m)
    | none => return (none, m)
  else
    let (response, m) ← pool.respond m t.request
    return (some response, m)

/-- Runs a script: the answer to each of its turns, and the memory after it. -/
def script (pool : Pool) : List Turn → Memory → Except Fault (List (Option Response × Memory))
  | [], _ => .ok []
  | t :: rest, m => do
    let result ← pool.turn t m
    let others ← pool.script rest result.2
    return result :: others

end Pool

end SlabAllocator
