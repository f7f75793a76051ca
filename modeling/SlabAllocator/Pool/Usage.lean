import SlabAllocator.Pool.Basic

namespace SlabAllocator

/-- The use that one size class makes of the pool. -/
structure SlotUsage where
  chunkSize : Nat
  /-- The pages that are cut into chunks of this class. -/
  pages : Nat := 0
  /-- The pages on the list of the class. -/
  candidates : Nat := 0
  /-- The chunks that are handed out. -/
  used : Nat := 0
  /-- The chunks that the pages of the class can hand out in all. -/
  capacity : Nat := 0
  deriving DecidableEq, Repr

/-- The use that is made of a pool at one moment. -/
structure Usage where
  pageSize : Nat
  pages : Nat
  freePages : Nat
  freeRuns : Nat
  largestFreeRun : Nat
  /-- The pages in allocated runs. -/
  runPages : Nat
  slots : List SlotUsage
  deriving DecidableEq, Repr

/-- The chunks that are handed out, over all classes. -/
def Usage.usedChunks (u : Usage) : Nat := (u.slots.map SlotUsage.used).foldr (· + ·) 0

/-- The tables of a pool at one moment: the order of each list and all
descriptors. -/
structure Snapshot where
  freeList : List Nat
  slotLists : List (List Nat)
  descriptors : List Descriptor
  deriving DecidableEq, Repr

/-- The descriptors that are not blank, each with the number of its page. -/
def Snapshot.marked (t : Snapshot) : List (Nat × Descriptor) :=
  (t.descriptors.mapIdx fun i d => (i, d)).filter fun entry => entry.2 != .blank

namespace Region

/-- The lists of the size classes, in the order of the slot table. -/
def slotMembers (r : Region) (m : Memory) : Except Fault (List (List Nat)) :=
  (List.range r.slotCount).mapM fun slot => r.members (.slot slot) m

/-- The tables as they are. -/
def snapshot (r : Region) (m : Memory) : Except Fault Snapshot := do
  let freeList ← r.members .free m
  let slotLists ← r.slotMembers m
  return ⟨freeList, slotLists, (List.range r.pageCount).map fun i => r.descriptor i m⟩

/-- The lengths of the listed free runs, in the order of the list. -/
def freeRuns (r : Region) (m : Memory) : Except Fault (List Nat) := do
  let listed ← r.members .free m
  return listed.filterMap fun i =>
    match (r.descriptor i m).role with
    | .free run => some run
    | _ => none

/-- Adds one page of a class, with what is used of it, to the counts of the
class. -/
def countSlab (r : Region) (c : Carving) (used : Nat) (slots : List SlotUsage) :
    Except Fault (List SlotUsage) := do
  let slot ← r.slotIndex c.shift
  let capacity :=
    match r.geometry.kindOf c.shift with
    | .small => r.geometry.usableChunks c.shift
    | .exact | .big => r.geometry.chunks c.shift
  return slots.modify slot fun s =>
    { s with pages := s.pages + 1, used := s.used + used, capacity := s.capacity + capacity }

/-- Counts page `i` by its role. The pages of allocated runs are counted at
the start of the run. -/
def countPage (r : Region) (m : Memory) (counts : Nat × List SlotUsage) (i : Nat) :
    Except Fault (Nat × List SlotUsage) := do
  let (runPages, slots) := counts
  match (r.descriptor i m).role with
  | .run pages => return (runPages + pages, slots)
  | .free _ | .interior => return (runPages, slots)
  | role =>
    match r.carvingOf? role with
    | none => return (runPages, slots)
    | some c =>
      let taken ← r.record c i m
      require (r.geometry.recordReserved c ≤ taken.card) .overflow
      let slots ← r.countSlab c (taken.card - r.geometry.recordReserved c) slots
      return (runPages, slots)

/-- Counts what is in use. The free runs come from their list, the rest from a
scan of all descriptors. -/
def usage (r : Region) (m : Memory) : Except Fault Usage := do
  let runs ← r.freeRuns m
  let listed ← r.slotMembers m
  let slots := listed.mapIdx fun slot pages =>
    { chunkSize := 2 ^ (r.geometry.minShift + slot), candidates := pages.length : SlotUsage }
  let (runPages, slots) ← (List.range r.pageCount).foldlM (r.countPage m) (0, slots)
  return {
    pageSize := r.pageSize
    pages := r.pageCount
    freePages := runs.foldr (· + ·) 0
    freeRuns := runs.length
    largestFreeRun := runs.foldl max 0
    runPages
    slots }

end Region

end SlabAllocator
