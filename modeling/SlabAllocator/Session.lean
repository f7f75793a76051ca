import SlabAllocator.Pool.Locked

namespace SlabAllocator

/-- How a step comes by the lock of a pool. -/
inductive Access where
  /-- It takes the lock for itself. -/
  | lock
  /-- It runs under the guard that the handle holds. -/
  | guard
  /-- It neither takes nor checks the lock. -/
  | locked
  deriving DecidableEq, Repr

/-- Where a pointer starts from. -/
inductive Anchor where
  /-- An entry of the record of allocations. -/
  | entry (index : Nat)
  /-- The start of the span. -/
  | span
  /-- The first page of the handle's pool. -/
  | start
  /-- The end of the span of the handle's pool. -/
  | finish
  deriving DecidableEq, Repr

/-- A pointer that a step names: so many bytes from an anchor. -/
structure Pointer where
  anchor : Anchor
  offset : Int := 0
  deriving DecidableEq, Repr

/-- Opens a pool at `shift` bytes into the span. The pool reaches to the end of
the span unless a length is given. -/
structure Opening where
  shift : Nat := 0
  length? : Option Nat := none
  settings : Settings := {}
  deriving DecidableEq, Repr

/-- What a handle can be used for. -/
inductive Action where
  | allocate (zeroed : Bool) (size : Nat) (access : Access)
  | allocateMany (zeroed : Bool) (size count : Nat) (access : Access)
  | release (p : Pointer) (access : Access)
  /-- Releases entries of the record of allocations, one after the other. -/
  | releaseMany (entries : List Nat) (access : Access)
  | contains (p : Pointer)
  | usage (access : Access)
  | snapshot
  | userData
  | setUserData (data : Nat)
  | lock
  | tryLock
  | unlock
  /-- Forgets the guard of the handle and leaves the pool locked. -/
  | abandon
  | forceUnlock
  /-- Hands the lock over to somebody who waits for it and allocates. -/
  | contend (size : Nat)
  deriving DecidableEq, Repr

/-- One step of a session. -/
inductive Step where
  | create (opening : Opening)
  | attach (opening : Opening)
  /-- Uses a handle. -/
  | act (action : Action)
  /-- Reads the bytes at `shift` bytes into the span as a header. -/
  | header (shift : Nat)
  | read (p : Pointer) (count : Nat)
  | write (p : Pointer) (values : List UInt8)
  deriving DecidableEq, Repr

/-- What a step answers. -/
inductive Reply where
  | opened (handle : Nat) (region : Region)
  | failed (cause : PoolError)
  /-- The distance of an allocation from the first page. -/
  | offset (distance : Int)
  | done
  | flag (value : Bool)
  | number (value : Nat)
  | many (replies : List Reply)
  | usage (counts : Usage)
  | snapshot (tables : Snapshot)
  | header (fields : Header)
  | bytes (values : List UInt8)
  | wouldBlock
  | noGuard
  | noHandle
  | noPointer

/-- A pool and whether a guard on its lock is held through this handle. -/
structure Handle where
  pool : Pool
  guarded : Bool := false

/-- A span of memory, the handles that were opened in it and the record of the
allocations that were tried. -/
structure Session where
  base : Nat
  length : Nat
  memory : Memory
  handles : Array Handle := #[]
  /-- The address that each allocation answered, if it answered one. -/
  record : Array (Option Nat) := #[]

/-- A step's answer, the lines it logged and the session after it. -/
structure Outcome where
  reply : Reply
  log : List String := []
  session : Session

namespace Session

/-- The session over a span that holds one value everywhere. -/
def start (base length : Nat) (value : UInt8) : Session where
  base
  length
  memory := .uniform base length value

/-- An answer that leaves the session as it was. -/
def answer (s : Session) (reply : Reply) : Except Fault Outcome := .ok { reply, session := s }

/-- The address that a pointer stands for. Addresses have 64 bits. -/
def resolve? (s : Session) (handle? : Option Handle) (p : Pointer) : Option Nat := do
  let origin ←
    match p.anchor with
    | .entry index => (s.record[index]?).join
    | .span => some s.base
    | .start => handle?.map fun handle => handle.pool.start
    | .finish => handle?.map fun handle => handle.pool.finish
  return (((origin : Int) + p.offset) % 2 ^ 64).toNat

/-- Does some work on a pool under the chosen access. The reason stands in
place of an answer where the access is not to be had. -/
def gated {α : Type} (handle : Handle) (access : Access)
    (work : Memory → Except Fault (α × Memory)) (m : Memory) :
    Except Fault (Except Reply (α × Memory)) := do
  match access with
  | .lock =>
    match ← handle.pool.withLock work m with
    | none => return .error .wouldBlock
    | some result => return .ok result
  | .guard => if handle.guarded then return .ok (← work m) else return .error .noGuard
  | .locked => return .ok (← work m)

/-- Notes the answer of an allocation. -/
def noteAllocation (s : Session) (pool : Pool) (found : Except PoolError Nat) (m : Memory) :
    Outcome :=
  match found with
  | .ok p =>
    { reply := .offset ((p : Int) - pool.start)
      session := { s with memory := m, record := s.record.push (some p) } }
  | .error e =>
    { reply := .failed e
      log := [pool.logLine e]
      session := { s with memory := m, record := s.record.push none } }

def allocate (s : Session) (handle : Handle) (zeroed : Bool) (size : Nat) (access : Access) :
    Except Fault Outcome := do
  let work := if zeroed then handle.pool.allocateZeroed size else handle.pool.allocate size
  match ← gated handle access work s.memory with
  | .error reply => s.answer reply
  | .ok (found, m) => return s.noteAllocation handle.pool found m

/-- Releases what a pointer leads to. A pointer that stands for no address is
noticed before the lock is looked at. -/
def release (s : Session) (handle : Handle) (p : Pointer) (access : Access) :
    Except Fault Outcome := do
  match s.resolve? (some handle) p with
  | none => s.answer .noPointer
  | some address =>
    match ← gated handle access (handle.pool.release address) s.memory with
    | .error reply => s.answer reply
    | .ok (.ok (), m) => return { reply := .done, session := { s with memory := m } }
    | .ok (.error e, m) =>
      return {
        reply := .failed (.refused e)
        log := [handle.pool.logLine (.refused e)]
        session := { s with memory := m } }

/-- Runs a list of steps, one after the other, and gathers their answers and
lines. -/
def each {α : Type} (s : Session) (act : Session → α → Except Fault Outcome) :
    List α → Except Fault (List Reply × List String × Session)
  | [] => .ok ([], [], s)
  | x :: rest => do
    let first ← act s x
    let (replies, log, s) ← first.session.each act rest
    return (first.reply :: replies, first.log ++ log, s)

/-- The answers of several steps as one answer. -/
def gather (result : List Reply × List String × Session) : Outcome :=
  { reply := .many result.1, log := result.2.1, session := result.2.2 }

/-- The session with one more handle. -/
def addHandle (s : Session) (pool : Pool) (m : Memory) : Outcome where
  reply := .opened s.handles.size pool.region
  session := { s with memory := m, handles := s.handles.push { pool } }

def create (s : Session) (o : Opening) : Except Fault Outcome :=
  match Pool.create (s.base + o.shift) (o.length?.getD (s.length - o.shift)) o.settings s.memory with
  | (.ok pool, m) => .ok (s.addHandle pool m)
  | (.error e, m) => { s with memory := m }.answer (.failed (.setup e))

def attach (s : Session) (o : Opening) : Except Fault Outcome :=
  match Pool.attach (s.base + o.shift) (o.length?.getD (s.length - o.shift)) o.settings s.memory with
  | .ok pool => .ok (s.addHandle pool s.memory)
  | .error e => s.answer (.failed (.setup e))

/-- Does some work that changes nothing on a pool. -/
def inspect (s : Session) (handle : Handle) (access : Access)
    (look : Memory → Except Fault Reply) : Except Fault Outcome := do
  let work := fun m => do
    let reply ← look m
    return (reply, m)
  match ← gated handle access work s.memory with
  | .error reply => s.answer reply
  | .ok (reply, m) => return { reply, session := { s with memory := m } }

/-- Whether `count` bytes from an address on lie in the span. -/
def spans (s : Session) (a count : Nat) : Bool :=
  s.base ≤ a && a + count ≤ s.base + s.length

/-- Sets whether handle `h` holds a guard. -/
def setGuarded (s : Session) (h : Nat) (guarded : Bool) (m : Memory) : Session :=
  { s with memory := m, handles := s.handles.modify h fun handle => { handle with guarded } }

def act (s : Session) (h : Nat) (handle : Handle) : Action → Except Fault Outcome
  | .allocate zeroed size access => s.allocate handle zeroed size access
  | .allocateMany zeroed size count access => do
    return gather
      (← s.each (fun s () => s.allocate handle zeroed size access) (List.replicate count ()))
  | .release p access => s.release handle p access
  | .releaseMany entries access => do
    return gather (← s.each (fun s k => s.release handle ⟨.entry k, 0⟩ access) entries)
  | .contains p =>
    match s.resolve? (some handle) p with
    | none => s.answer .noPointer
    | some address => s.answer (.flag (handle.pool.contains address))
  | .usage access =>
    s.inspect handle access fun m => do return .usage (← handle.pool.region.usage m)
  | .snapshot =>
    s.inspect handle .lock fun m => do return .snapshot (← handle.pool.region.snapshot m)
  | .userData => s.answer (.number (handle.pool.region.userData s.memory))
  | .setUserData data =>
    { s with memory := handle.pool.region.setUserData data s.memory }.answer .done
  | .lock =>
    if handle.guarded then
      s.answer .wouldBlock
    else
      match handle.pool.lock? s.memory with
      | none => s.answer .wouldBlock
      | some m => (s.setGuarded h true m).answer (.flag true)
  | .tryLock =>
    match handle.pool.lock? s.memory with
    | none => s.answer (.flag false)
    | some m => (s.setGuarded h true m).answer (.flag true)
  | .unlock =>
    if handle.guarded then
      (s.setGuarded h false (handle.pool.unlock s.memory)).answer (.flag true)
    else
      s.answer (.flag false)
  | .abandon =>
    if handle.guarded then
      (s.setGuarded h false s.memory).answer (.flag true)
    else
      s.answer (.flag false)
  | .forceUnlock => { s with memory := handle.pool.forceUnlock s.memory }.answer .done
  | .contend size =>
    if handle.guarded then
      (s.setGuarded h false (handle.pool.unlock s.memory)).allocate handle false size .lock
    else
      s.answer .noGuard

/-- One step, by way of handle `h` where the step needs one. -/
def step (s : Session) (h : Nat) : Step → Except Fault Outcome
  | .create opening => s.create opening
  | .attach opening => s.attach opening
  | .act action =>
    match s.handles[h]? with
    | none => s.answer .noHandle
    | some handle => s.act h handle action
  | .header shift => s.answer (.header (Header.load s.memory (s.base + shift)))
  | .read p count =>
    match s.resolve? s.handles[h]? p with
    | none => s.answer .noPointer
    | some a =>
      s.answer (if s.spans a count then .bytes (s.memory.bytes a count) else .noPointer)
  | .write p values =>
    match s.resolve? s.handles[h]? p with
    | none => s.answer .noPointer
    | some a =>
      if s.spans a values.length then
        { s with memory := s.memory.setBytes a values }.answer .done
      else
        s.answer .noPointer

/-- The tables of the pool of handle `h`, where there is one and nobody holds
its lock. -/
def tables? (s : Session) (h : Nat) : Except Fault (Option Snapshot) :=
  match s.handles[h]? with
  | none => .ok none
  | some handle =>
    if handle.pool.isLocked s.memory then .ok none
    else do return some (← handle.pool.region.snapshot s.memory)

end Session

end SlabAllocator
