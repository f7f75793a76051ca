import SlabAllocator.Machine.Region
import SlabAllocator.Pool.Usage

namespace SlabAllocator

namespace Machine

/-- The number of pages for a request. -/
def pagesFor (g : Geometry) (size : Nat) : Except Fault Nat := do
  let page ← pageSize g
  let low ← sub page 1
  let whole ← shiftRight size g.pageShift
  add whole (if size &&& low = 0 then 0 else 1)

/-- The place that is found for a request, if there is one. -/
def place (pool : Pool) (size : Nat) (m : Memory) : Except Fault (Option Nat × Memory) := do
  let r := pool.region
  let bound ← maxSize r.geometry
  if bound ≤ size then
    let n ← pagesFor r.geometry size
    match ← takeRun r n m with
    | (none, m) => return (none, m)
    | (some i, m) =>
      let p ← pageAddress r i
      return (some p, m)
  else
    takeChunk r size m

/-- Allocates `size` bytes and answers their address. -/
def allocate (pool : Pool) (size : Nat) (m : Memory) :
    Except Fault (Except PoolError Nat × Memory) := do
  match ← place pool size m with
  | (some p, m) => return (.ok p, m)
  | (none, m) => return (.error (.exhausted size), m)

/-- Allocates `size` bytes and sets them to zero. -/
def allocateZeroed (pool : Pool) (size : Nat) (m : Memory) :
    Except Fault (Except PoolError Nat × Memory) := do
  match ← allocate pool size m with
  | (.ok p, m) => return (.ok p, m.fill p size 0)
  | (.error e, m) => return (.error e, m)

/-- Takes back a chunk of page `i`. -/
def releaseChunk (pool : Pool) (c : Carving) (i p : Nat) (m : Memory) :
    Except Fault (Except ReleaseError Unit × Memory) := do
  match ← returnChunk pool.region c i p m with
  | (.ok (), m) =>
    let size ← shiftLeft 1 c.shift
    return (.ok (), pool.spoil p size m)
  | (.error e, m) => return (.error e, m)

/-- Takes back the memory at an address in page `i`. -/
def releaseIn (pool : Pool) (i p : Nat) (m : Memory) :
    Except Fault (Except ReleaseError Unit × Memory) := do
  let r := pool.region
  let d ← r.page i m
  match d.role with
  | .interior => return (.error .wrongPage, m)
  | .free _ => return (.error .pageAlreadyFree, m)
  | .run pages =>
    let first ← pageAddress r i
    if p ≠ first then
      return (.error .wrongChunk, m)
    else
      let m ← returnRun r i pages m
      let size ← shiftLeft pages r.geometry.pageShift
      return (.ok (), pool.spoil p size m)
  | role =>
    match r.carvingOf? role with
    | none => return (.error .wrongPage, m)
    | some c => releaseChunk pool c i p m

/-- Takes back the memory at an address that `allocate` answered. -/
def release (pool : Pool) (p : Nat) (m : Memory) :
    Except Fault (Except ReleaseError Unit × Memory) :=
  let r := pool.region
  if p < r.start ∨ r.finish ≤ p then
    .ok (.error .outsidePool, m)
  else do
    let offset ← sub p r.start
    let i ← shiftRight offset r.geometry.pageShift
    if r.pageCount ≤ i then
      return (.error .outsidePool, m)
    else
      releaseIn pool i p m

/-- The list of the class in a slot; a byte names it. -/
def slotList (r : Region) (m : Memory) (slot : Nat) : Except Fault (List Nat) := do
  let name ← fit 8 slot
  r.members (.slot name) m

/-- The tables as they are. -/
def snapshot (r : Region) (m : Memory) : Except Fault Snapshot := do
  let freeList ← r.members .free m
  let slotLists ← (List.range r.slotCount).mapM (slotList r m)
  let descriptors ← (List.range r.pageCount).mapM fun i => r.page i m
  return ⟨freeList, slotLists, descriptors⟩

/-- The counts of the class in a slot before any page is counted. -/
def freshSlot (r : Region) (m : Memory) (slot : Nat) : Except Fault SlotUsage := do
  let index ← fit 32 slot
  let shift ← fit 32 (r.geometry.minShift + index)
  let chunkSize ← shiftLeft 1 shift
  let listed ← slotList r m slot
  let candidates ← fit 64 listed.length
  return { chunkSize, candidates }

/-- The chunks that a page adds to those of its class. -/
def roomOf (r : Region) (shift : Nat) : Except Fault Nat :=
  match r.geometry.kindOf shift with
  | .small => usableChunks r shift
  | .exact | .big => chunks r.geometry shift

/-- Adds one page of a class, with what is used of it, to the counts of the
class. -/
def countSlab (r : Region) (c : Carving) (used : Nat) (slots : List SlotUsage) :
    Except Fault (List SlotUsage) := do
  let index ← r.slotIndex c.shift
  match slots[index]? with
  | none => .error .indexOutOfRange
  | some slot =>
    let room ← roomOf r c.shift
    let pages ← add slot.pages 1
    let used ← add slot.used used
    let capacity ← add slot.capacity room
    return slots.set index { slot with pages, used, capacity }

/-- Counts page `i` by its role. -/
def countPage (r : Region) (m : Memory) (counts : Nat × List SlotUsage) (i : Nat) :
    Except Fault (Nat × List SlotUsage) := do
  let (runPages, slots) := counts
  let d ← r.page i m
  match d.role with
  | .run pages =>
    let runPages ← add runPages pages
    return (runPages, slots)
  | .free _ | .interior => return (runPages, slots)
  | role =>
    match r.carvingOf? role with
    | none => return (runPages, slots)
    | some c =>
      let taken ← record r c i m
      let held ← card taken
      let used ← sub held (r.geometry.recordReserved c)
      let slots ← countSlab r c used slots
      return (runPages, slots)

/-- Counts what is in use. -/
def usage (r : Region) (m : Memory) : Except Fault Usage := do
  let pageSize ← pageSize r.geometry
  let runs ← r.freeRuns m
  let freeRuns ← fit 64 runs.length
  let freePages ← sum 64 runs
  let slots ← (List.range r.slotCount).mapM (freshSlot r m)
  let (runPages, slots) ← (List.range r.pageCount).foldlM (countPage r m) (0, slots)
  return {
    pageSize
    pages := r.pageCount
    freePages
    freeRuns
    largestFreeRun := runs.foldl max 0
    runPages
    slots }

end Machine

end SlabAllocator
