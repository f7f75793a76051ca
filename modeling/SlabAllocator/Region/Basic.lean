import SlabAllocator.Descriptor.Basic
import SlabAllocator.Fault
import SlabAllocator.Header

namespace SlabAllocator

/-- A place in memory that is laid out as a pool. All that changes is in the
memory; the region only says where each part of it is. -/
structure Region where
  base : Nat
  length : Nat
  geometry : Geometry
  layout : Layout
  valid : geometry.Valid
  planned : Layout.plan base length geometry = .ok layout

namespace Region

/-- The region over a span, if the span can be laid out. -/
def plan (base length : Nat) (g : Geometry) (valid : g.Valid) : Except SetupError Region :=
  match planned : Layout.plan base length g with
  | .ok layout => .ok ⟨base, length, g, layout, valid, planned⟩
  | .error e => .error e

/-- The number of pages. -/
def pageCount (r : Region) : Nat := r.layout.pageCount

/-- The number of size classes. -/
def slotCount (r : Region) : Nat := r.layout.slotCount

/-- The bytes of a page. -/
def pageSize (r : Region) : Nat := r.geometry.pageSize

/-- The address of the first page. -/
def start (r : Region) : Nat := r.base + r.layout.dataAt

/-- The address after the last byte of the span. -/
def finish (r : Region) : Nat := r.base + r.length

/-- The address of page `i`. -/
def pageAddress (r : Region) (i : Nat) : Nat := r.start + i * r.pageSize

/-- The address of the link to the first page of a list. -/
def headAddress (r : Region) : PageList → Nat
  | .free => r.base + Header.freeAt
  | .slot index => r.base + r.layout.slotsAt + index * Layout.headSize

/-- The address of the descriptor of page `i`. -/
def descriptorAddress (r : Region) (i : Nat) : Nat :=
  r.base + r.layout.descriptorsAt + i * Layout.descriptorSize

/-- Whether the region has a list of this name. -/
def HasList (r : Region) : PageList → Prop
  | .free => True
  | .slot index => index < r.slotCount

instance (r : Region) : (list : PageList) → Decidable (r.HasList list)
  | .free => inferInstanceAs (Decidable True)
  | .slot index => inferInstanceAs (Decidable (index < r.slotCount))

/-- The stored link to the first page of a list. -/
def headOf (r : Region) (list : PageList) (m : Memory) : Link :=
  ⟨UInt32.ofNat (m.read (r.headAddress list) 4)⟩

def descriptor (r : Region) (i : Nat) (m : Memory) : Descriptor :=
  m.descriptor (r.descriptorAddress i)

def putHead (r : Region) (list : PageList) (link : Link) (m : Memory) : Memory :=
  m.write (r.headAddress list) 4 link.raw.toNat

def putDescriptor (r : Region) (i : Nat) (d : Descriptor) (m : Memory) : Memory :=
  m.setDescriptor (r.descriptorAddress i) d

/-- The link to the first page of a list that the region has. -/
def head (r : Region) (list : PageList) (m : Memory) : Except Fault Link := do
  require (r.HasList list) .indexOutOfRange
  return r.headOf list m

def setHead (r : Region) (list : PageList) (link : Link) (m : Memory) : Except Fault Memory := do
  require (r.HasList list) .indexOutOfRange
  return r.putHead list link m

/-- The descriptor of a page that the region has. -/
def page (r : Region) (i : Nat) (m : Memory) : Except Fault Descriptor := do
  require (i < r.pageCount) .indexOutOfRange
  return r.descriptor i m

def setPage (r : Region) (i : Nat) (d : Descriptor) (m : Memory) : Except Fault Memory := do
  require (i < r.pageCount) .indexOutOfRange
  return r.putDescriptor i d m

def modifyPage (r : Region) (i : Nat) (change : Descriptor → Descriptor) (m : Memory) :
    Except Fault Memory := do
  let d ← r.page i m
  r.setPage i (change d) m

/-- Changes the descriptors of `count` pages from `first` on. -/
def modifyPages (r : Region) (first : Nat) (change : Descriptor → Descriptor) :
    Nat → Memory → Except Fault Memory
  | 0, m => .ok m
  | count + 1, m => do
    let m ← r.modifyPage first change m
    r.modifyPages (first + 1) change count m

def lockWord (r : Region) (m : Memory) : UInt32 :=
  UInt32.ofNat (m.read (r.base + Header.lockAt) 4)

def setLockWord (r : Region) (word : UInt32) (m : Memory) : Memory :=
  m.write (r.base + Header.lockAt) 4 word.toNat

/-- A number that the users of a region share; the region attaches no meaning
to it. -/
def userData (r : Region) (m : Memory) : Nat := m.read (r.base + Header.userDataAt) 8

def setUserData (r : Region) (data : Nat) (m : Memory) : Memory :=
  m.write (r.base + Header.userDataAt) 8 data

end Region

end SlabAllocator
