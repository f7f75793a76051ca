import SlabAllocator.Memory.LittleEndian

namespace SlabAllocator

/-- The bytes at all addresses. The span in use is stored densely from
`origin` on; `outside` answers for every other address. -/
structure Memory where
  origin : Nat
  dense : ByteArray
  outside : Nat → UInt8

namespace Memory

/-- A memory that holds one value everywhere, dense on `length` bytes from
`origin` on. -/
def uniform (origin length : Nat) (value : UInt8) : Memory :=
  ⟨origin, ⟨Array.replicate length value⟩, fun _ => value⟩

def byte (m : Memory) (a : Nat) : UInt8 :=
  if within : m.origin ≤ a ∧ a - m.origin < m.dense.size then
    m.dense.get (a - m.origin) within.2
  else
    m.outside a

@[irreducible] def setByte : Memory → Nat → UInt8 → Memory
  | ⟨origin, dense, outside⟩, a, value =>
    if within : origin ≤ a ∧ a - origin < dense.size then
      ⟨origin, dense.set (a - origin) value within.2, outside⟩
    else
      ⟨origin, dense, fun x => if x = a then value else outside x⟩

def bytes (m : Memory) (a : Nat) : Nat → List UInt8
  | 0 => []
  | count + 1 => m.byte a :: m.bytes (a + 1) count

/-- The memory with the bytes from an address on replaced by a list. -/
def setBytes (m : Memory) (a : Nat) : List UInt8 → Memory
  | [] => m
  | value :: rest => (m.setByte a value).setBytes (a + 1) rest

/-- The memory with `count` bytes from an address on set to one value. -/
def fill (m : Memory) (a count : Nat) (value : UInt8) : Memory :=
  match count with
  | 0 => m
  | count + 1 => (m.setByte a value).fill (a + 1) count value

/-- The number in the `width` bytes from an address on. -/
def read (m : Memory) (a width : Nat) : Nat := ofLittleEndian (m.bytes a width)

/-- The memory with a number stored in the `width` bytes from an address on. -/
def write (m : Memory) (a width value : Nat) : Memory := m.setBytes a (littleEndian width value)

end Memory

end SlabAllocator
