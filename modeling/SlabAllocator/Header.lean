import SlabAllocator.Layout
import SlabAllocator.Memory.Basic

namespace SlabAllocator

/-- The record at the base of a region. `free` is the raw link to the first
free run. -/
structure Header where
  magic : Nat
  lock : Nat
  wordBits : Nat
  pageShift : Nat
  minShift : Nat
  slotCount : Nat
  pageCount : Nat
  free : Nat
  dataAt : Nat
  length : Nat
  userData : Nat
  deriving DecidableEq, Repr

namespace Header

/-- The number that marks a region: the text SHMSLAB1 in eight bytes. -/
def mark : Nat := ofLittleEndian ("SHMSLAB1".toList.map fun c => UInt8.ofNat c.toNat)

/-- The offset of the word that the lock is kept in. -/
def lockAt : Nat := 8

/-- The offset of the link to the first free run. -/
def freeAt : Nat := 32

/-- The offset of the word that the users of a region share. -/
def userDataAt : Nat := 56

def load (m : Memory) (base : Nat) : Header where
  magic := m.read base 8
  lock := m.read (base + lockAt) 4
  wordBits := m.read (base + 12) 4
  pageShift := m.read (base + 16) 4
  minShift := m.read (base + 20) 4
  slotCount := m.read (base + 24) 4
  pageCount := m.read (base + 28) 4
  free := m.read (base + freeAt) 4
  dataAt := m.read (base + 40) 8
  length := m.read (base + 48) 8
  userData := m.read (base + userDataAt) 8

/-- Spells a header out. The four bytes before `dataAt` are left alone. -/
def store (h : Header) (base : Nat) (m : Memory) : Memory :=
  let m := m.write base 8 h.magic
  let m := m.write (base + lockAt) 4 h.lock
  let m := m.write (base + 12) 4 h.wordBits
  let m := m.write (base + 16) 4 h.pageShift
  let m := m.write (base + 20) 4 h.minShift
  let m := m.write (base + 24) 4 h.slotCount
  let m := m.write (base + 28) 4 h.pageCount
  let m := m.write (base + freeAt) 4 h.free
  let m := m.write (base + 40) 8 h.dataAt
  let m := m.write (base + 48) 8 h.length
  m.write (base + userDataAt) 8 h.userData

/-- The first part of a header that does not fit a layout, in the order in
which they are compared. -/
def mismatch? (h : Header) (g : Geometry) (layout : Layout) : Option Mismatch :=
  if h.magic ≠ mark then some .magic
  else if h.wordBits ≠ Word.width then some .wordWidth
  else if h.pageShift ≠ g.pageShift then some .pageSize
  else if h.minShift ≠ g.minShift ∨ h.slotCount ≠ layout.slotCount then some .sizeClasses
  else if h.length ≠ layout.length ∨ h.pageCount ≠ layout.pageCount ∨ h.dataAt ≠ layout.dataAt then
    some .regionSize
  else none

end Header

end SlabAllocator
