import SlabAllocator.Text

namespace SlabAllocator

/-- The part of a region's header that differs from what a handle expects. -/
inductive Mismatch where
  | magic | wordWidth | pageSize | sizeClasses | regionSize
  deriving DecidableEq, Repr

def Mismatch.message : Mismatch → String
  | .magic => "bad magic"
  | .wordWidth => "word width"
  | .pageSize => "page size"
  | .sizeClasses => "size classes"
  | .regionSize => "region size"

/-- Why a span cannot be laid out or opened as a pool. -/
inductive SetupError where
  /-- The tables need `need` bytes and the span has `length`. -/
  | spanTooSmall (length need : Nat)
  | misalignedSpan (base align : Nat)
  | pageSize (size : Nat)
  | minShift (least pageShift : Nat)
  | incompatible (what : Mismatch)
  deriving DecidableEq, Repr

def SetupError.message : SetupError → String
  | .spanTooSmall length need =>
    s!"span of {length} bytes cannot hold the pool header and slot table ({need} bytes)"
  | .misalignedSpan base align => s!"span base 0x{hexText base} is not aligned to {align}"
  | .pageSize size => s!"page size {size} must be a power of two between 256 and 65536"
  | .minShift least pageShift => s!"minimum chunk shift {least} must be in 1..{pageShift}"
  | .incompatible what => s!"region layout mismatch: {what.message}"

/-- Why a pointer handed back to a pool is refused. -/
inductive ReleaseError where
  | outsidePool | wrongChunk | chunkAlreadyFree | pageAlreadyFree | wrongPage
  deriving DecidableEq, Repr

def ReleaseError.message : ReleaseError → String
  | .outsidePool => "outside of pool"
  | .wrongChunk => "pointer to wrong chunk"
  | .chunkAlreadyFree => "chunk is already free"
  | .pageAlreadyFree => "page is already free"
  | .wrongPage => "pointer to wrong page"

/-- Why shared memory cannot be mapped. -/
inductive MappingError where
  | zeroSized
  /-- The kernel gave this reason. -/
  | refused (reason : String)
  deriving DecidableEq, Repr

def MappingError.message : MappingError → String
  | .zeroSized => "zero-sized shared memory"
  | .refused reason => reason

/-- Everything that a pool can refuse. -/
inductive PoolError where
  /-- No free pages can serve a request of `size` bytes. -/
  | exhausted (size : Nat)
  | refused (cause : ReleaseError)
  | setup (cause : SetupError)
  | mapping (cause : MappingError)
  deriving DecidableEq, Repr

/-- The text of an error, with what was being done in front. -/
def PoolError.message : PoolError → String
  | .exhausted size => s!"slab alloc({size}) failed: no memory"
  | .refused cause => s!"slab free(): {cause.message}"
  | .setup cause => s!"slab init: {cause.message}"
  | .mapping cause => s!"shared memory mapping failed: {cause.message}"

end SlabAllocator
