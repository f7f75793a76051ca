import SlabAllocator.Error
import SlabAllocator.Region.PageRun

namespace SlabAllocator

namespace Region

def chunkAddress (r : Region) (shift i chunk : Nat) : Nat :=
  r.pageAddress i + chunk * 2 ^ shift

/-- The place in the slot table of a class, if the table has it. -/
def slotIndex (r : Region) (shift : Nat) : Except Fault Nat := do
  require (r.geometry.minShift ≤ shift) .overflow
  require (r.geometry.slotOf shift < r.slotCount) .indexOutOfRange
  return r.geometry.slotOf shift

/-- What has to hold before the record of a carved page can be opened. Only
the record of small chunks asks for anything. -/
def checkRecord (r : Region) (c : Carving) : Except Fault Unit :=
  match c.kind with
  | .small => do
    require (c.shift ≤ r.geometry.pageShift) .overflow
    let _ ← r.slotIndex c.shift
    require (r.geometry.recordReserved c < r.geometry.recordChunks c) .brokenPromise
  | .exact | .big => .ok ()

def recordOf (r : Region) (c : Carving) (i : Nat) (m : Memory) : ChunkSet :=
  match c.kind with
  | .small => ⟨m.words (r.pageAddress i) (r.geometry.bitmapWords c.shift)⟩
  | .exact => ⟨[(r.descriptor i m).word]⟩
  | .big => ⟨[(r.descriptor i m).upperMap]⟩

/-- The record of page `i`, which holds the chunks that are taken. -/
def record (r : Region) (c : Carving) (i : Nat) (m : Memory) : Except Fault ChunkSet := do
  r.checkRecord c
  require (i < r.pageCount) .indexOutOfRange
  return r.recordOf c i m

def setRecord (r : Region) (c : Carving) (i : Nat) (s : ChunkSet) (m : Memory) :
    Except Fault Memory :=
  match c.kind with
  | .small => .ok (m.setWords (r.pageAddress i) s.words)
  | .exact => r.modifyPage i (fun d => d.asExact (s.words.headD 0)) m
  | .big => r.modifyPage i (fun d => d.asBig c.shift (s.words.headD 0)) m

/-- The carving that a listed page of a class is searched by. A page of big
chunks goes by what its own status word says; it is passed over when it is not
marked as one. -/
def listedCarving? (r : Region) (shift i : Nat) (m : Memory) : Option Carving :=
  match r.geometry.kindOf shift with
  | .big =>
    match (r.descriptor i m).role with
    | .big own _ => some ⟨.big, own⟩
    | _ => none
  | kind => some ⟨kind, shift⟩

/-- The lowest free chunk of a listed page of a class, if it has one, with the
record that results from taking it. -/
def vacancy? (r : Region) (shift : Nat) (m : Memory) (i : Nat) :
    Except Fault (Option (Carving × Nat × ChunkSet)) := do
  match r.listedCarving? shift i m with
  | none => return none
  | some c =>
    require (c.shift ≤ r.geometry.pageShift) .overflow
    require (c.kind = .big → r.geometry.chunks c.shift ≤ 32) .brokenPromise
    let taken ← r.record c i m
    if taken = r.geometry.fullRecord c then
      return none
    else
      return taken.takeLowest?.map fun (chunk, after) => (c, chunk, after)

/-- Marks page `i` as carved. Where the status word is the record, storing the
record does that. -/
def markCarved (r : Region) (c : Carving) (i : Nat) (m : Memory) : Except Fault Memory :=
  match c.kind with
  | .small => r.modifyPage i (fun d => d.asSmall c.shift) m
  | .exact | .big => .ok m

/-- The first chunk of a page with none handed out, and the record once it is
taken. -/
def firstChunk (r : Region) (c : Carving) : Nat × ChunkSet :=
  let empty := r.geometry.emptyRecord c
  empty.takeLowest?.getD (r.geometry.recordReserved c, empty)

/-- Makes page `i`, which was just allocated, a page of a class, with its first
chunk handed out. Answers that chunk. -/
def carve (r : Region) (shift i : Nat) (m : Memory) : Except Fault (Nat × Memory) := do
  let c := r.geometry.carving shift
  r.checkRecord c
  let m ← r.markCarved c i m
  let m ← r.setRecord c i (r.firstChunk c).2 m
  let slot ← r.slotIndex shift
  let m ← r.pushFront (.slot slot) i m
  return ((r.firstChunk c).1, m)

/-- Stores the record of a listed page after a chunk was added to it. A page
that is now full leaves its list. -/
def occupy (r : Region) (c : Carving) (i : Nat) (taken : ChunkSet) (m : Memory) :
    Except Fault Memory := do
  let m ← r.setRecord c i taken m
  if taken = r.geometry.fullRecord c then
    r.detach i m
  else
    return m

/-- Allocates a chunk for a request below `maxSize` and answers its address.
The pages of the class are tried in the order of its list; a page that becomes
full leaves the list. When none has room a fresh page is carved. -/
def takeChunk (r : Region) (size : Nat) (m : Memory) : Except Fault (Option Nat × Memory) := do
  let shift := r.geometry.shiftFor size
  let slot ← r.slotIndex shift
  match ← r.searchList (.slot slot) m (r.vacancy? shift m) with
  | some (i, c, chunk, taken) =>
    let m ← r.occupy c i taken m
    return (some (r.chunkAddress shift i chunk), m)
  | none =>
    match ← r.takeRun 1 m with
    | (none, m) => return (none, m)
    | (some i, m) =>
      let (chunk, m) ← r.carve shift i m
      return (some (r.chunkAddress shift i chunk), m)

/-- The carving of a page, if its descriptor marks it as cut into chunks. -/
def carvingOf? (r : Region) : Role → Option Carving
  | .small shift => some ⟨.small, shift⟩
  | .exact _ => some ⟨.exact, r.geometry.exactShift⟩
  | .big shift _ => some ⟨.big, shift⟩
  | .free _ | .run _ | .interior => none

/-- Stores the record of page `i` after a chunk was taken out of it. An empty
page becomes a free run; a page that was full goes back to the front of its
list. -/
def settle (r : Region) (c : Carving) (i : Nat) (left : ChunkSet) (m : Memory) :
    Except Fault Memory := do
  let m ← r.setRecord c i left m
  if left = r.geometry.emptyRecord c then
    r.returnRun i 1 m
  else if (r.descriptor i m).list = PageList.detachedCode then do
    let slot ← r.slotIndex c.shift
    r.pushFront (.slot slot) i m
  else
    return m

/-- Takes back the chunk of page `i` that starts `offset` bytes into the page.
Nothing changes when the answer is an error. -/
def returnChunk (r : Region) (c : Carving) (i offset : Nat) (m : Memory) :
    Except Fault (Except ReleaseError Unit × Memory) := do
  if offset % 2 ^ c.shift ≠ 0 then
    return (.error .wrongChunk, m)
  else
    let chunk := offset / 2 ^ c.shift
    let taken ← r.record c i m
    if chunk < r.geometry.recordReserved c then
      return (.error .wrongChunk, m)
    else
      require (chunk < taken.capacity) .overflow
      match taken.release? chunk with
      | none => return (.error .chunkAlreadyFree, m)
      | some left =>
        let m ← r.settle c i left m
        return (.ok (), m)

end Region

end SlabAllocator
