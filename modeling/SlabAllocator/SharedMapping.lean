import SlabAllocator.Error
import SlabAllocator.PowerOfTwo

namespace SlabAllocator

/-- The kernel of a machine, as far as shared memory goes. -/
structure Kernel where
  /-- The page size of the machine. -/
  pageSize : Nat
  /-- Why it maps no piece of so many bytes, where it does not. -/
  refusal? : Nat → Option String

/-- A named piece of zeroed memory that several processes see. -/
structure SharedMapping where
  name : String
  size : Nat
  deriving DecidableEq, Repr

namespace SharedMapping

/-- Maps at least `size` bytes, in whole pages of the machine. -/
def request (kernel : Kernel) (name : String) (size : Nat) : Except MappingError SharedMapping :=
  let rounded := alignUp size kernel.pageSize
  if size = 0 then
    .error .zeroSized
  else
    match kernel.refusal? rounded with
    | some reason => .error (.refused reason)
    | none => .ok ⟨name, rounded⟩

/-- The line that is logged for a request that failed. An empty request is
refused without one. -/
def failureLine? (kernel : Kernel) (name : String) (size : Nat) : MappingError → Option String
  | .zeroSized => none
  | .refused reason =>
    let rounded := alignUp size kernel.pageSize
    some s!"mmap(MAP_ANON|MAP_SHARED, {rounded}) \"{name}\" failed: {reason}"

/-- What is mapped is as long as it has to be, in whole pages and by less than a
page. -/
theorem size_of_request {kernel : Kernel} {name : String} {size : Nat} {mapping : SharedMapping}
    (pages : 0 < kernel.pageSize) (mapped : request kernel name size = .ok mapping) :
    0 < size ∧ size ≤ mapping.size ∧ mapping.size < size + kernel.pageSize ∧
      kernel.pageSize ∣ mapping.size ∧ mapping.name = name := by
  unfold request at mapped
  dsimp only at mapped
  split at mapped
  · cases mapped
  · rename_i asked
    split at mapped
    · cases mapped
    · cases mapped
      exact ⟨Nat.pos_of_ne_zero asked, le_alignUp size pages, alignUp_lt size pages,
        dvd_alignUp size _, rfl⟩

end SharedMapping

end SlabAllocator
