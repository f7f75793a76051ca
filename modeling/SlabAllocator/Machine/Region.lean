import SlabAllocator.Machine.Record

namespace SlabAllocator

namespace Machine

/-- The address of page `i`. -/
def pageAddress (r : Region) (i : Nat) : Except Fault Nat := do
  require (i < r.pageCount) .indexOutOfRange
  let offset ← shiftLeft i r.geometry.pageShift
  add r.start offset

def chunkAddress (r : Region) (shift i chunk : Nat) : Except Fault Nat := do
  let page ← pageAddress r i
  let offset ← shiftLeft chunk shift
  add page offset

/-- The place of a class in the slot table, as the byte that names its list. -/
def slotByte (r : Region) (shift : Nat) : Except Fault Nat := do
  let slot ← r.slotIndex shift
  fit 8 slot

/-- Takes the first `n` pages of the free run of `run` pages at page `i` off
the list of free runs. -/
def cutRun (r : Region) (i run n : Nat) (m : Memory) : Except Fault Memory :=
  if n < run then do
    let rest ← add i n
    let left ← sub run n
    let m ← r.modifyPage rest (fun d => d.asFreeRun left) m
    r.substitute i rest m
  else
    r.detach i m

/-- Changes the descriptors of the pages behind page `i`, up to `n` pages from
it on. -/
def modifyLater (r : Region) (i n : Nat) (change : Descriptor → Descriptor) (m : Memory) :
    Except Fault Memory := do
  let first ← add i 1
  let behind ← add i n
  require (first ≤ behind ∧ behind ≤ r.pageCount) .indexOutOfRange
  let count ← sub behind first
  r.modifyPages first change count m

/-- Allocates `n` pages from the first free run that is long enough. -/
def takeRun (r : Region) (n : Nat) (m : Memory) : Except Fault (Option Nat × Memory) := do
  require (0 < n) .brokenPromise
  match ← r.searchList .free m (r.freeRun? m n) with
  | none => return (none, m)
  | some (i, run) =>
    let m ← cutRun r i run n m
    let m ← r.modifyPage i (fun d => d.asRun n) m
    let m ← modifyLater r i n Descriptor.asInterior m
    return (some i, m)

/-- Makes the `n` pages from page `i` on a free run at the front of the list of
free runs. -/
def returnRun (r : Region) (i n : Nat) (m : Memory) : Except Fault Memory := do
  let m ← r.detach i m
  let m ← modifyLater r i n (fun _ => .blank) m
  let m ← r.modifyPage i (fun d => d.asFreeRun n) m
  r.pushFront .free i m

/-- The record of page `i`. The record of small chunks is reached through the
address of the page. -/
def record (r : Region) (c : Carving) (i : Nat) (m : Memory) : Except Fault ChunkSet :=
  match c.kind with
  | .small => do
    let count ← chunks r.geometry c.shift
    let reserved ← reservedChunks r c.shift
    let page ← pageAddress r i
    let capacity ← mul (count / Word.width) Word.width
    require (reserved < capacity) .brokenPromise
    return ⟨m.words page (count / Word.width)⟩
  | .exact | .big => r.record c i m

def setRecord (r : Region) (c : Carving) (i : Nat) (s : ChunkSet) (m : Memory) :
    Except Fault Memory :=
  match c.kind with
  | .small => do
    let page ← pageAddress r i
    return m.setWords page s.words
  | .exact | .big => r.setRecord c i s m

/-- The lowest free chunk of a listed page of a class, if it has one, with the
record that results from taking it. -/
def vacancy? (r : Region) (shift : Nat) (m : Memory) (i : Nat) :
    Except Fault (Option (Carving × Nat × ChunkSet)) := do
  match r.listedCarving? shift i m with
  | none => return none
  | some c =>
    let taken ← record r c i m
    let full ← fullRecord r c
    if taken = full then
      return none
    else
      let found ← takeLowest? taken
      return found.map fun (chunk, after) => (c, chunk, after)

/-- Makes page `i`, which was just allocated, a page of a class, with its first
chunk handed out. -/
def carve (r : Region) (shift i : Nat) (m : Memory) : Except Fault (Nat × Memory) := do
  let c := r.geometry.carving shift
  let m ← r.markCarved c i m
  let (chunk, taken) ← firstChunk r c
  let m ← setRecord r c i taken m
  let slot ← slotByte r shift
  let m ← r.pushFront (.slot slot) i m
  return (chunk, m)

/-- Stores the record of a listed page after a chunk was added to it. -/
def occupy (r : Region) (c : Carving) (i : Nat) (taken : ChunkSet) (m : Memory) :
    Except Fault Memory := do
  let m ← setRecord r c i taken m
  let full ← fullRecord r c
  if taken = full then
    r.detach i m
  else
    return m

/-- The zero bits before the first one bit of a number of 64 bits. -/
def leadingZeros (n : Nat) : Nat := if n = 0 then 64 else 63 - n.log2

/-- The least exponent whose power of two is not below `value`. -/
def ceilLog2 (value : Nat) : Except Fault Nat :=
  if value ≤ 1 then
    return 0
  else do
    let below ← sub value 1
    sub 64 (leadingZeros below)

/-- The chunk size that serves a request below `maxSize`, as a binary
logarithm. -/
def shiftFor (g : Geometry) (size : Nat) : Except Fault Nat := do
  let bound ← maxSize g
  require (size < bound) .brokenPromise
  let exponent ← ceilLog2 size
  return max exponent g.minShift

/-- Allocates a chunk for a request below `maxSize` and answers its address. -/
def takeChunk (r : Region) (size : Nat) (m : Memory) : Except Fault (Option Nat × Memory) := do
  let shift ← shiftFor r.geometry size
  let slot ← r.slotIndex shift
  match ← r.searchList (.slot slot) m (vacancy? r shift m) with
  | some (i, c, chunk, taken) =>
    let m ← occupy r c i taken m
    let p ← chunkAddress r shift i chunk
    return (some p, m)
  | none =>
    match ← takeRun r 1 m with
    | (none, m) => return (none, m)
    | (some i, m) =>
      let (chunk, m) ← carve r shift i m
      let p ← chunkAddress r shift i chunk
      return (some p, m)

/-- Stores the record of page `i` after a chunk was taken out of it. -/
def settle (r : Region) (c : Carving) (i : Nat) (left : ChunkSet) (m : Memory) :
    Except Fault Memory := do
  let m ← setRecord r c i left m
  let empty ← emptyRecord r c
  if left = empty then
    returnRun r i 1 m
  else if (r.descriptor i m).list = PageList.detachedCode then do
    let slot ← slotByte r c.shift
    r.pushFront (.slot slot) i m
  else
    return m

/-- Takes back the chunk of page `i` that starts at an address in that page. -/
def returnChunk (r : Region) (c : Carving) (i p : Nat) (m : Memory) :
    Except Fault (Except ReleaseError Unit × Memory) := do
  let page ← pageAddress r i
  let offset ← sub p page
  let size ← shiftLeft 1 c.shift
  let low ← sub size 1
  if offset &&& low ≠ 0 then
    return (.error .wrongChunk, m)
  else
    let chunk ← shiftRight offset c.shift
    let taken ← record r c i m
    if chunk < r.geometry.recordReserved c then
      return (.error .wrongChunk, m)
    else
      match ← release? r.geometry c taken chunk with
      | none => return (.error .chunkAlreadyFree, m)
      | some left =>
        let m ← settle r c i left m
        return (.ok (), m)

end Machine

end SlabAllocator
