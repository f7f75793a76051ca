import SlabAllocator.Region.Basic

namespace SlabAllocator

namespace Region

def freshHeader (r : Region) : Header where
  magic := Header.mark
  lock := 0
  wordBits := Word.width
  pageShift := r.geometry.pageShift
  minShift := r.geometry.minShift
  slotCount := r.slotCount
  pageCount := r.pageCount
  free := Link.nil.raw.toNat
  dataAt := r.layout.dataAt
  length := r.length
  userData := 0

/-- Empties the lists of `count` size classes from `first` on. -/
def clearHeads (r : Region) (first : Nat) : Nat → Memory → Memory
  | 0, m => m
  | count + 1, m =>
    r.clearHeads (first + 1) count (r.putHead (.slot first) .nil m)

/-- Makes the descriptors of `count` pages from `first` on blank. -/
def clearPages (r : Region) (first : Nat) : Nat → Memory → Memory
  | 0, m => m
  | count + 1, m =>
    r.clearPages (first + 1) count (r.putDescriptor first .blank m)

/-- The descriptor of a first page whose free run is the whole pool. -/
def wholeRun (r : Region) : Descriptor :=
  { Descriptor.blank.asFreeRun r.pageCount with list := PageList.free.code }

/-- Writes the tables of a new pool. All pages are one free run; the pages
themselves are not touched. -/
def format (r : Region) (m : Memory) : Memory :=
  let m := r.freshHeader.store r.base m
  let m := r.clearHeads 0 r.slotCount m
  let m := r.clearPages 0 r.pageCount m
  if 0 < r.pageCount then
    r.putHead .free (.page 0) (r.putDescriptor 0 r.wholeRun m)
  else
    m

/-- What keeps the bytes at the base of the region from being the header of
this very layout. -/
def mismatch? (r : Region) (m : Memory) : Option Mismatch :=
  (Header.load m r.base).mismatch? r.geometry r.layout

end Region

end SlabAllocator
