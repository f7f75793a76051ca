import SlabAllocator.Geometry
import SlabAllocator.Memory.Basic

namespace SlabAllocator

/-- A stored link to a page: the number of the page, or all ones for none. -/
structure Link where
  raw : UInt32
  deriving DecidableEq, Repr

namespace Link

def nil : Link := ⟨0xFFFFFFFF⟩

def page (i : Nat) : Link := ⟨UInt32.ofNat i⟩

def target? (l : Link) : Option Nat := if l = nil then none else some l.raw.toNat

end Link

/-- The lists that a page can be on: the free runs, or the pages of a size
class that have room. -/
inductive PageList where
  | free
  | slot (index : Nat)
  deriving DecidableEq, Repr

namespace PageList

def detachedCode : UInt8 := 255

def code : PageList → UInt8
  | free => 254
  | slot index => UInt8.ofNat index

/-- The list that a stored name stands for. -/
def ofCode? (stored : UInt8) : Option PageList :=
  if stored = detachedCode then none
  else if stored = 254 then some free
  else some (slot stored.toNat)

end PageList

/-- The kind that is stored with a page. -/
inductive PageKind where
  /-- Part of a run of whole pages, free or allocated. -/
  | whole
  | slab (kind : SlabKind)
  deriving DecidableEq, Repr

namespace PageKind

/-- Only the low two bits of a stored kind count. -/
def ofCode (stored : UInt8) : PageKind :=
  match stored.toNat % 4 with
  | 0 => whole
  | 1 => slab .big
  | 2 => slab .exact
  | _ => slab .small

def code : PageKind → UInt8
  | whole => 0
  | slab .big => 1
  | slab .exact => 2
  | slab .small => 3

end PageKind

/-- What a page is in use for, as its descriptor says. -/
inductive Role where
  /-- Free; `run` is the length of the free run that starts here, or zero. -/
  | free (run : Nat)
  /-- The first of `pages` allocated pages. -/
  | run (pages : Nat)
  /-- A later page of an allocated run. -/
  | interior
  | small (shift : Nat)
  | exact (map : Word)
  | big (shift : Nat) (map : Word)
  deriving DecidableEq, Repr

/-- The entry of one page in the page table. -/
structure Descriptor where
  /-- The status word; `kind` says how to read it. -/
  word : Word
  next : Link
  prev : Link
  kind : UInt8
  list : UInt8
  /-- Two bytes without a meaning. -/
  spare : UInt16
  deriving DecidableEq, Repr

namespace Descriptor

/-- A free page that starts no run and is on no list. -/
def blank : Descriptor := ⟨0, .nil, .nil, PageKind.whole.code, PageList.detachedCode, 0⟩

/-- The mark of the first page of an allocated run. -/
def runMark : Word := 0x8000000000000000

def pageKind (d : Descriptor) : PageKind := .ofCode d.kind

def list? (d : Descriptor) : Option PageList := PageList.ofCode? d.list

/-- The chunk size in the low bits of a status word, as a binary logarithm. -/
def storedShift (d : Descriptor) : Nat := (d.word &&& 0xF).toNat

/-- The record in the upper half of a status word. -/
def upperMap (d : Descriptor) : Word := d.word >>> 32

/-- What the kind and the status word say together. In a run, all ones mark a
later page and the highest bit marks the first one. -/
def role (d : Descriptor) : Role :=
  match d.pageKind with
  | .whole =>
    if d.word = Word.full then .interior
    else if d.word &&& runMark ≠ 0 then .run (d.word &&& ~~~runMark).toNat
    else .free d.word.toNat
  | .slab .small => .small d.storedShift
  | .slab .exact => .exact d.word
  | .slab .big => .big d.storedShift d.upperMap

def detached (d : Descriptor) : Descriptor :=
  { d with next := .nil, prev := .nil, list := PageList.detachedCode }

def asFreeRun (d : Descriptor) (pages : Nat) : Descriptor :=
  { d with word := UInt64.ofNat pages, kind := PageKind.whole.code }

def asRun (d : Descriptor) (pages : Nat) : Descriptor :=
  { d with word := UInt64.ofNat pages ||| runMark, kind := PageKind.whole.code }.detached

def asInterior (d : Descriptor) : Descriptor :=
  { d with word := Word.full, kind := PageKind.whole.code }.detached

/-- A page of small chunks; its record is in the page. -/
def asSmall (d : Descriptor) (shift : Nat) : Descriptor :=
  { d with word := UInt64.ofNat shift, kind := (PageKind.slab .small).code }

/-- A page whose status word is its record. -/
def asExact (d : Descriptor) (map : Word) : Descriptor :=
  { d with word := map, kind := (PageKind.slab .exact).code }

/-- A page of big chunks: the record in the upper half of the status word, the
chunk size below it. -/
def asBig (d : Descriptor) (shift : Nat) (map : Word) : Descriptor :=
  { d with word := (map <<< 32) ||| UInt64.ofNat shift, kind := (PageKind.slab .big).code }

end Descriptor

namespace Memory

def descriptor (m : Memory) (a : Nat) : Descriptor where
  word := UInt64.ofNat (m.read a 8)
  next := ⟨UInt32.ofNat (m.read (a + 8) 4)⟩
  prev := ⟨UInt32.ofNat (m.read (a + 12) 4)⟩
  kind := m.byte (a + 16)
  list := m.byte (a + 17)
  spare := UInt16.ofNat (m.read (a + 18) 2)

def setDescriptor (m : Memory) (a : Nat) (d : Descriptor) : Memory :=
  let m := m.write a 8 d.word.toNat
  let m := m.write (a + 8) 4 d.next.raw.toNat
  let m := m.write (a + 12) 4 d.prev.raw.toNat
  let m := m.setByte (a + 16) d.kind
  let m := m.setByte (a + 17) d.list
  m.write (a + 18) 2 d.spare.toNat

def words (m : Memory) (a : Nat) : Nat → List Word
  | 0 => []
  | count + 1 => UInt64.ofNat (m.read a 8) :: m.words (a + 8) count

def setWords (m : Memory) (a : Nat) : List Word → Memory
  | [] => m
  | w :: rest => (m.write a 8 w.toNat).setWords (a + 8) rest

end Memory

end SlabAllocator
