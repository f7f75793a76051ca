import SlabAllocator.Region.Basic

namespace SlabAllocator

namespace Region

/-- The stored link to a page that the region has. -/
def linkTo (i : Nat) : Except Fault Link := do
  require (i < 2 ^ 32 - 1) .overflow
  return .page i

/-- Makes what stands before a place in a list lead to `link`: the head of the
list where `prev` leads nowhere, else the page that `prev` leads to. -/
def setNextAfter (r : Region) (list : PageList) (prev link : Link) (m : Memory) :
    Except Fault Memory :=
  match prev.target? with
  | none => r.setHead list link m
  | some i => r.modifyPage i (fun d => { d with next := link }) m

/-- Makes the page that `next` leads to, if any, lead back to `link`. -/
def setPrevBefore (r : Region) (next link : Link) (m : Memory) : Except Fault Memory :=
  match next.target? with
  | none => .ok m
  | some i => r.modifyPage i (fun d => { d with prev := link }) m

def pushFront (r : Region) (list : PageList) (i : Nat) (m : Memory) : Except Fault Memory := do
  let first ← r.head list m
  let link ← linkTo i
  let m ← r.modifyPage i (fun d => { d with next := first, prev := .nil, list := list.code }) m
  let m ← r.setPrevBefore first link m
  r.setHead list link m

/-- Takes page `i` off the list that it is on, if any. -/
def detach (r : Region) (i : Nat) (m : Memory) : Except Fault Memory := do
  let d ← r.page i m
  match d.list? with
  | none => return m
  | some list =>
    let m ← r.setNextAfter list d.prev d.next m
    let m ← r.setPrevBefore d.next d.prev m
    r.modifyPage i Descriptor.detached m

/-- Puts page `new` into the place that page `old` has in its list and takes
`old` off. -/
def substitute (r : Region) (old new : Nat) (m : Memory) : Except Fault Memory := do
  let d ← r.page old m
  match d.list? with
  | none => .error .brokenPromise
  | some list =>
    let link ← linkTo new
    let m ← r.modifyPage new
      (fun e => { e with next := d.next, prev := d.prev, list := d.list }) m
    let m ← r.setNextAfter list d.prev link m
    let m ← r.setPrevBefore d.next link m
    r.modifyPage old Descriptor.detached m

/-- The pages from a link on, in their order, for at most `fuel` pages. -/
def follow (r : Region) (m : Memory) : Nat → Link → Except Fault (List Nat)
  | fuel, link =>
    match link.target?, fuel with
    | none, _ => .ok []
    | some _, 0 => .error .endlessWalk
    | some i, fuel + 1 => do
      let d ← r.page i m
      let rest ← r.follow m fuel d.next
      return i :: rest

def members (r : Region) (list : PageList) (m : Memory) : Except Fault (List Nat) := do
  let first ← r.head list m
  r.follow m r.pageCount first

/-- The first page from a link on for which `accept` has an answer, with that
answer. -/
def search {β : Type} (r : Region) (m : Memory) (accept : Nat → Except Fault (Option β)) :
    Nat → Link → Except Fault (Option (Nat × β))
  | fuel, link =>
    match link.target?, fuel with
    | none, _ => .ok none
    | some _, 0 => .error .endlessWalk
    | some i, fuel + 1 => do
      let d ← r.page i m
      match ← accept i with
      | some answer => return some (i, answer)
      | none => r.search m accept fuel d.next

/-- The first page of a list for which `accept` has an answer, with that
answer. -/
def searchList {β : Type} (r : Region) (list : PageList) (m : Memory)
    (accept : Nat → Except Fault (Option β)) : Except Fault (Option (Nat × β)) := do
  let first ← r.head list m
  r.search m accept r.pageCount first

end Region

end SlabAllocator
