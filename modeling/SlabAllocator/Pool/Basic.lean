import SlabAllocator.Region.Chunk
import SlabAllocator.Region.Format
import SlabAllocator.Settings.Basic

namespace SlabAllocator

/-- A handle on a region. The state of the pool is all in the memory of the
region, so any number of handles may share it. -/
structure Pool where
  region : Region
  junk : Bool
  spin : UInt32
  label : String

namespace Pool

/-- The value that released memory is overwritten with. -/
def junkByte : UInt8 := 0xA5

/-- The region that the settings ask for over a span. -/
def plan (base length : Nat) (s : Settings) : Except SetupError Region :=
  match chosen : s.geometry with
  | .ok g => Region.plan base length g (Settings.geometry_valid chosen)
  | .error e => .error e

/-- A handle on a region with the given settings. -/
def ofRegion (r : Region) (s : Settings) : Pool := ⟨r, s.junk, s.spin, s.label⟩

/-- Lays out a new pool over a span. Answers the pool, or why there is none, and
the memory after that. -/
def create (base length : Nat) (s : Settings) (m : Memory) : Except SetupError Pool × Memory :=
  match plan base length s with
  | .error e => (.error e, m)
  | .ok r =>
    let m := r.format m
    let m := if s.junk then m.fill r.start (r.pageCount * r.pageSize) junkByte else m
    (.ok (ofRegion r s), m)

/-- Opens the pool that another handle created over the same span. -/
def attach (base length : Nat) (s : Settings) (m : Memory) : Except SetupError Pool := do
  let r ← plan base length s
  match r.mismatch? m with
  | some what => .error (.incompatible what)
  | none => .ok (ofRegion r s)

/-- The first byte of the first page. -/
def start (pool : Pool) : Nat := pool.region.start

/-- The end of the span. -/
def finish (pool : Pool) : Nat := pool.region.finish

/-- Whether an address lies in one of the pages. -/
def contains (pool : Pool) (p : Nat) : Bool :=
  pool.start ≤ p && p < pool.start + pool.region.pageCount * pool.region.pageSize

/-- The line that is logged for a refusal. -/
def logLine (pool : Pool) (e : PoolError) : String := e.message ++ pool.label

/-- The place that is found for a request, if there is one. -/
def place (pool : Pool) (size : Nat) (m : Memory) : Except Fault (Option Nat × Memory) := do
  if pool.region.geometry.maxSize ≤ size then
    let (found, m) ← pool.region.takeRun (pool.region.geometry.pagesFor size) m
    return (found.map pool.region.pageAddress, m)
  else
    pool.region.takeChunk size m

/-- Allocates `size` bytes and answers their address. Requests of half a page
or more take whole pages; others are rounded up to a power of two. The caller
holds the lock. -/
def allocate (pool : Pool) (size : Nat) (m : Memory) :
    Except Fault (Except PoolError Nat × Memory) := do
  match ← pool.place size m with
  | (some p, m) => return (.ok p, m)
  | (none, m) => return (.error (.exhausted size), m)

/-- Allocates `size` bytes and sets them to zero. The caller holds the lock. -/
def allocateZeroed (pool : Pool) (size : Nat) (m : Memory) :
    Except Fault (Except PoolError Nat × Memory) := do
  match ← pool.allocate size m with
  | (.ok p, m) => return (.ok p, m.fill p size 0)
  | (.error e, m) => return (.error e, m)

/-- Overwrites released memory, if the handle asks for that. -/
def spoil (pool : Pool) (p size : Nat) (m : Memory) : Memory :=
  if pool.junk then m.fill p size junkByte else m

/-- Takes back the memory at an address in page `i`. -/
def releaseIn (pool : Pool) (i p : Nat) (m : Memory) :
    Except Fault (Except ReleaseError Unit × Memory) := do
  let r := pool.region
  let d ← r.page i m
  match d.role with
  | .interior => return (.error .wrongPage, m)
  | .free _ => return (.error .pageAlreadyFree, m)
  | .run pages =>
    if p ≠ r.pageAddress i then
      return (.error .wrongChunk, m)
    else
      let m ← r.returnRun i pages m
      return (.ok (), pool.spoil p (pages * r.pageSize) m)
  | role =>
    match r.carvingOf? role with
    | none => return (.error .wrongPage, m)
    | some c =>
      match ← r.returnChunk c i (p - r.pageAddress i) m with
      | (.ok (), m) => return (.ok (), pool.spoil p (2 ^ c.shift) m)
      | (.error e, m) => return (.error e, m)

/-- Takes back the memory at an address that `allocate` answered. Any other
address is refused. The caller holds the lock. -/
def release (pool : Pool) (p : Nat) (m : Memory) :
    Except Fault (Except ReleaseError Unit × Memory) :=
  let r := pool.region
  let i := (p - r.start) / r.pageSize
  if p < r.start ∨ r.finish ≤ p ∨ r.pageCount ≤ i then
    .ok (.error .outsidePool, m)
  else
    pool.releaseIn i p m

end Pool

end SlabAllocator
