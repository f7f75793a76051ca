import SlabAllocator.Region.Chain

namespace SlabAllocator

namespace Region

/-- The length of the free run that starts at page `i`, if it has `n` pages or
more. -/
def freeRun? (r : Region) (m : Memory) (n i : Nat) : Except Fault (Option Nat) := do
  let d ← r.page i m
  match d.role with
  | .free run => return if n ≤ run then some run else none
  | _ => return none

/-- Takes the first `n` pages of the free run of `run` pages at page `i` off
the list of free runs. What is left of the run keeps its place in the list. -/
def cutRun (r : Region) (i run n : Nat) (m : Memory) : Except Fault Memory :=
  if n < run then do
    let m ← r.modifyPage (i + n) (fun d => d.asFreeRun (run - n)) m
    r.substitute i (i + n) m
  else
    r.detach i m

/-- Marks the `n` pages from page `i` on as an allocated run. -/
def markRun (r : Region) (i n : Nat) (m : Memory) : Except Fault Memory := do
  let m ← r.modifyPage i (fun d => d.asRun n) m
  require (1 ≤ n ∧ i + n ≤ r.pageCount) .indexOutOfRange
  r.modifyPages (i + 1) Descriptor.asInterior (n - 1) m

/-- Allocates `n` pages from the first free run that is long enough. Answers
the number of the first page, or nothing when no run is long enough. -/
def takeRun (r : Region) (n : Nat) (m : Memory) : Except Fault (Option Nat × Memory) := do
  match ← r.searchList .free m (r.freeRun? m n) with
  | none => return (none, m)
  | some (i, run) =>
    let m ← r.cutRun i run n m
    let m ← r.markRun i n m
    return (some i, m)

/-- Makes the `n` pages from page `i` on a free run at the front of the list of
free runs. Page `i` may still be on the list of its size class. -/
def returnRun (r : Region) (i n : Nat) (m : Memory) : Except Fault Memory := do
  let m ← r.detach i m
  require (1 ≤ n ∧ i + n ≤ r.pageCount) .indexOutOfRange
  let m ← r.modifyPages (i + 1) (fun _ => .blank) (n - 1) m
  let m ← r.modifyPage i (fun d => d.asFreeRun n) m
  r.pushFront .free i m

end Region

end SlabAllocator
