import SlabAllocator.PowerOfTwo
import SlabAllocator.ChunkSet

namespace SlabAllocator

/-- How a slab page records which of its chunks are taken. -/
inductive SlabKind where
  /-- Small chunks: a row of words at the start of the page itself. -/
  | small
  /-- As many chunks as a word has bits: the status word of the page. -/
  | exact
  /-- Few, big chunks: the upper half of the status word, with the logarithm
  of the chunk size below it. -/
  | big
  deriving DecidableEq, Repr

/-- The way a page is cut into chunks of `2 ^ shift` bytes. -/
structure Carving where
  kind : SlabKind
  shift : Nat
  deriving DecidableEq, Repr

/-- The binary logarithms of the page size and of the smallest chunk. They fix
the table of size classes. -/
structure Geometry where
  pageShift : Nat
  minShift : Nat
  deriving DecidableEq, Repr

namespace Geometry

/-- The geometries that a pool may have: pages of 256 to 65536 bytes and at
least one size class, whose chunks are no single bytes. -/
def Valid (g : Geometry) : Prop :=
  8 ≤ g.pageShift ∧ g.pageShift ≤ 16 ∧ 1 ≤ g.minShift ∧ g.minShift < g.pageShift

instance (g : Geometry) : Decidable g.Valid :=
  inferInstanceAs (Decidable (_ ∧ _ ∧ _ ∧ _))

def pageSize (g : Geometry) : Nat := 2 ^ g.pageShift

def minSize (g : Geometry) : Nat := 2 ^ g.minShift

/-- Requests of this size or more take whole pages. -/
def maxSize (g : Geometry) : Nat := g.pageSize / 2

def pagesFor (g : Geometry) (size : Nat) : Nat :=
  size / g.pageSize + if size % g.pageSize = 0 then 0 else 1

/-- The binary logarithm of `exactSize`: a page has 64 chunks of that size. -/
def exactShift (g : Geometry) : Nat := g.pageShift - 6

/-- The chunk size at which a page has one chunk for each bit of a word. -/
def exactSize (g : Geometry) : Nat := 2 ^ g.exactShift

def slotCount (g : Geometry) : Nat := g.pageShift - g.minShift

/-- The chunk size that serves a request below `maxSize`, as a binary
logarithm. -/
def shiftFor (g : Geometry) (size : Nat) : Nat := max (ceilLog2 size) g.minShift

/-- The place in the slot table of the class of chunks of `2 ^ shift` bytes. -/
def slotOf (g : Geometry) (shift : Nat) : Nat := shift - g.minShift

/-- The record that pages of a class keep, by the size of its chunks. -/
def kindOf (g : Geometry) (shift : Nat) : SlabKind :=
  if shift < g.exactShift then .small else if shift = g.exactShift then .exact else .big

def carving (g : Geometry) (shift : Nat) : Carving := ⟨g.kindOf shift, shift⟩

/-- The number of chunks of `2 ^ shift` bytes in a page. -/
def chunks (g : Geometry) (shift : Nat) : Nat := 2 ^ (g.pageShift - shift)

/-- The chunks at the start of a page of small chunks that hold the record of
the page; none in other pages. -/
def reservedChunks (g : Geometry) (shift : Nat) : Nat :=
  if shift < g.exactShift then
    max 1 ((g.chunks shift / 8 + 2 ^ shift - 1) / 2 ^ shift)
  else
    0

/-- The chunks of a page that a caller can receive. -/
def usableChunks (g : Geometry) (shift : Nat) : Nat := g.chunks shift - g.reservedChunks shift

/-- The words that a row with one bit for each chunk takes. -/
def bitmapWords (g : Geometry) (shift : Nat) : Nat := g.chunks shift / Word.width

def recordWords (g : Geometry) (c : Carving) : Nat :=
  match c.kind with
  | .small => g.bitmapWords c.shift
  | .exact | .big => 1

/-- The chunks that the record of a carved page has room for. -/
def recordChunks (g : Geometry) (c : Carving) : Nat :=
  match c.kind with
  | .small => Word.width * g.bitmapWords c.shift
  | .exact => Word.width
  | .big => g.chunks c.shift

/-- The chunks of a carved page that its own record takes up. -/
def recordReserved (g : Geometry) (c : Carving) : Nat :=
  match c.kind with
  | .small => g.reservedChunks c.shift
  | .exact | .big => 0

def fullRecord (g : Geometry) (c : Carving) : ChunkSet :=
  ChunkSet.initial (g.recordWords c) (g.recordChunks c)

def emptyRecord (g : Geometry) (c : Carving) : ChunkSet :=
  ChunkSet.initial (g.recordWords c) (g.recordReserved c)

end Geometry

end SlabAllocator
