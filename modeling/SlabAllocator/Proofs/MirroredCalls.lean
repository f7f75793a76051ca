import SlabAllocator.Pool.Locked
import SlabAllocator.Proofs.MirroredSteps
import SlabAllocator.Proofs.WidthOfUsage

namespace SlabAllocator

namespace Region

variable {r : Region} {base : Nat} {m seen : Memory}
  {fit : Layout.plan base r.length r.geometry = .ok r.layout}

/-- The pages that a walk answers are pages that there are. -/
theorem follow_within {fuel : Nat} {link : Link} {pages : List Nat}
    (walked : r.follow m fuel link = .ok pages) : ∀ i ∈ pages, i < r.pageCount := by
  induction fuel generalizing link pages with
  | zero =>
    unfold follow at walked
    cases target : link.target? with
    | none =>
      rw [target] at walked
      cases walked
      intro i listed
      cases listed
    | some i =>
      rw [target] at walked
      cases walked
  | succ fuel ih =>
    unfold follow at walked
    cases target : link.target? with
    | none =>
      rw [target] at walked
      cases walked
      intro i listed
      cases listed
    | some i =>
      rw [target] at walked
      obtain ⟨d, read, walked⟩ := answer_of_bind walked
      obtain ⟨rest, others, walked⟩ := answer_of_bind walked
      cases walked
      exact List.forall_mem_cons.mpr ⟨page_ok read, ih others⟩

theorem members_within {list : PageList} {pages : List Nat} (walked : r.members list m = .ok pages) :
    ∀ i ∈ pages, i < r.pageCount := by
  obtain ⟨first, _, walked⟩ := answer_of_bind walked
  exact follow_within walked

namespace Mirrored

theorem slotMembers (mirrored : r.Mirrored base m seen) :
    (r.moved base fit).slotMembers seen = r.slotMembers m := by
  have same : (fun slot => (r.moved base fit).members (.slot slot) seen) =
      fun slot => r.members (.slot slot) m := funext fun slot => mirrored.members (.slot slot)
  unfold Region.slotMembers
  rw [same]
  rfl

theorem descriptors (mirrored : r.Mirrored base m seen) :
    ((List.range (r.moved base fit).pageCount).map fun i => (r.moved base fit).descriptor i seen) =
      (List.range r.pageCount).map fun i => r.descriptor i m :=
  List.map_congr_left fun _ listed => mirrored.descriptor (List.mem_range.mp listed)

theorem snapshot (mirrored : r.Mirrored base m seen) :
    (r.moved base fit).snapshot seen = r.snapshot m := by
  rw [Region.snapshot, Region.snapshot, mirrored.members, mirrored.slotMembers, mirrored.descriptors]

theorem freeRuns (mirrored : r.Mirrored base m seen) :
    (r.moved base fit).freeRuns seen = r.freeRuns m := by
  rw [Region.freeRuns, Region.freeRuns, mirrored.members]
  refine bind_congr_answer fun listed walked => congrArg Except.ok ?_
  refine List.filterMap_congr fun i member => ?_
  rw [mirrored.descriptor (members_within walked i member)]

theorem countPage (mirrored : r.Mirrored base m seen) {i : Nat} (within : i < r.pageCount)
    (counts : Nat × List SlotUsage) :
    (r.moved base fit).countPage seen counts i = r.countPage m counts i := by
  unfold Region.countPage
  rw [mirrored.descriptor within]
  cases (r.descriptor i m).role with
  | run pages => rfl
  | free length => rfl
  | interior => rfl
  | small shift =>
    simp only [carvingOf?, mirrored.record]
    rfl
  | exact map =>
    simp only [carvingOf?, mirrored.record]
    rfl
  | big shift map =>
    simp only [carvingOf?, mirrored.record]
    rfl

theorem usage (mirrored : r.Mirrored base m seen) :
    (r.moved base fit).usage seen = r.usage m := by
  rw [Region.usage, Region.usage, mirrored.freeRuns, mirrored.slotMembers]
  refine bind_congr_answer fun runs _ => bind_congr_answer fun listed _ => ?_
  have counted (counts : Nat × List SlotUsage) :
      (List.range r.pageCount).foldlM ((r.moved base fit).countPage seen) counts =
        (List.range r.pageCount).foldlM (r.countPage m) counts :=
    foldlM_range_congr fun _ within acc _ => mirrored.countPage within acc
  exact congrArg (fun found => found >>= _) (counted _)

theorem store (mirrored : r.Mirrored base m seen) (h : Header) :
    r.Mirrored base (h.store r.base m) (h.store base seen) := by
  have same : r.base + base = base + r.base := Nat.add_comm ..
  exact mirrored.write same 8 _ |>.write (by omega) 4 _ |>.write (by omega) 4 _
    |>.write (by omega) 4 _ |>.write (by omega) 4 _ |>.write (by omega) 4 _
    |>.write (by omega) 4 _ |>.write (by omega) 4 _ |>.write (by omega) 8 _
    |>.write (by omega) 8 _ |>.write (by omega) 8 _

theorem clearHeads (mirrored : r.Mirrored base m seen)
    (fit : Layout.plan base r.length r.geometry = .ok r.layout) (first count : Nat) :
    r.Mirrored base (r.clearHeads first count m) ((r.moved base fit).clearHeads first count seen) := by
  induction count generalizing m seen first with
  | zero => exact mirrored
  | succ count ih => exact ih (mirrored.write (headAddress_moved fit (.slot first)) 4 _) (first + 1)

theorem clearPages (mirrored : r.Mirrored base m seen)
    (fit : Layout.plan base r.length r.geometry = .ok r.layout) (first count : Nat) :
    r.Mirrored base (r.clearPages first count m) ((r.moved base fit).clearPages first count seen) := by
  induction count generalizing m seen first with
  | zero => exact mirrored
  | succ count ih => exact ih (mirrored.setDescriptor (descriptorAddress_moved fit first) _) (first + 1)

theorem format (mirrored : r.Mirrored base m seen) :
    r.Mirrored base (r.format m) ((r.moved base fit).format seen) := by
  have stored := mirrored.store r.freshHeader
  have heads := stored.clearHeads fit 0 r.slotCount
  have cleared := heads.clearPages fit 0 r.pageCount
  show r.Mirrored base (if 0 < r.pageCount then _ else _) (if 0 < r.pageCount then _ else _)
  split
  · exact (cleared.setDescriptor (descriptorAddress_moved fit 0) r.wholeRun).write
      (headAddress_moved fit .free) 4 _
  · exact cleared

theorem lockWord (mirrored : r.Mirrored base m seen) :
    (r.moved base fit).lockWord seen = r.lockWord m := by
  have long := r.header_le_length
  unfold Layout.headerSize at long
  have inside : r.base + Header.lockAt + 4 ≤ r.finish := by
    unfold finish Header.lockAt
    omega
  have read := mirrored.read (a := r.base + Header.lockAt) (b := base + Header.lockAt) (by omega)
    (Nat.le_add_right ..) inside
  exact congrArg UInt32.ofNat read

theorem setLockWord (mirrored : r.Mirrored base m seen) (word : UInt32) :
    r.Mirrored base (r.setLockWord word m) ((r.moved base fit).setLockWord word seen) :=
  mirrored.write (a := r.base + Header.lockAt) (b := base + Header.lockAt) (by omega) 4 _

end Mirrored

end Region

namespace Pool

/-- The same handle on its region where that is seen at another place. -/
def moved (pool : Pool) (base : Nat)
    (fit : Layout.plan base pool.region.length pool.region.geometry = .ok pool.region.layout) : Pool :=
  { pool with region := pool.region.moved base fit }

variable {pool : Pool} {base : Nat} {m seen : Memory}
  {fit : Layout.plan base pool.region.length pool.region.geometry = .ok pool.region.layout}

theorem place_alike (mirrored : pool.region.Mirrored base m seen) (size : Nat) :
    Alike (pool.region.Echoes base (Option.Rel (pool.region.SameSpot base))) (pool.place size m)
      ((pool.moved base fit).place size seen) := by
  refine .ite Iff.rfl (fun _ => ?_) fun _ => mirrored.takeChunk size
  refine .bind (mirrored.takeRun _) fun one other taken => ?_
  obtain ⟨found, after⟩ := one
  obtain ⟨_, left⟩ := other
  obtain ⟨rfl, same⟩ := taken
  cases found with
  | none => exact .answer ⟨.none, same⟩
  | some i => exact .answer ⟨.some (Region.pageAddress_moved fit i), same⟩

theorem allocate_alike (mirrored : pool.region.Mirrored base m seen) (size : Nat) :
    Alike (pool.region.Echoes base (Alike (pool.region.SameSpot base))) (pool.allocate size m)
      ((pool.moved base fit).allocate size seen) := by
  refine .bind (place_alike mirrored size) fun one other placed => ?_
  obtain ⟨found, after⟩ := one
  obtain ⟨again, left⟩ := other
  obtain ⟨spots, same⟩ := placed
  cases spots with
  | none => exact .answer ⟨.error _, same⟩
  | some spot => exact .answer ⟨.answer spot, same⟩

theorem allocateZeroed_alike (mirrored : pool.region.Mirrored base m seen) (size : Nat) :
    Alike (pool.region.Echoes base (Alike (pool.region.SameSpot base))) (pool.allocateZeroed size m)
      ((pool.moved base fit).allocateZeroed size seen) := by
  refine .bind (allocate_alike mirrored size) fun one other allocated => ?_
  obtain ⟨found, after⟩ := one
  obtain ⟨again, left⟩ := other
  obtain ⟨spots, same⟩ := allocated
  cases spots with
  | error e => exact .answer ⟨.error e, same⟩
  | answer spot => exact .answer ⟨.answer spot, same.fill spot size 0⟩

theorem spoil_mirrored (mirrored : pool.region.Mirrored base m seen) {p q : Nat}
    (spot : pool.region.SameSpot base p q) (size : Nat) :
    pool.region.Mirrored base (pool.spoil p size m) ((pool.moved base fit).spoil q size seen) := by
  show pool.region.Mirrored base (if pool.junk then _ else _) (if pool.junk then _ else _)
  split
  · exact mirrored.fill spot size junkByte
  · exact mirrored

theorem returnChunk_alike (mirrored : pool.region.Mirrored base m seen) (c : Carving) (i : Nat)
    {p q offset other : Nat} (spot : pool.region.SameSpot base p q) (same : other = offset) :
    Alike (pool.region.Echoes base Eq)
      (do
        match ← pool.region.returnChunk c i offset m with
        | (.ok (), m) => return ((.ok (), pool.spoil p (2 ^ c.shift) m) : Except _ _ × Memory)
        | (.error e, m) => return (.error e, m))
      (do
        match ← (pool.region.moved base fit).returnChunk c i other seen with
        | (.ok (), m) =>
          return ((.ok (), (pool.moved base fit).spoil q (2 ^ c.shift) m) : Except _ _ × Memory)
        | (.error e, m) => return (.error e, m)) := by
  subst same
  refine .bind (mirrored.returnChunk c i _) fun one other back => ?_
  obtain ⟨verdict, after⟩ := one
  obtain ⟨_, left⟩ := other
  obtain ⟨rfl, same⟩ := back
  cases verdict with
  | ok _ => exact .answer ⟨rfl, spoil_mirrored same spot _⟩
  | error e => exact .answer ⟨rfl, same⟩

theorem releaseIn_alike (mirrored : pool.region.Mirrored base m seen) (i : Nat) {p q : Nat}
    (spot : pool.region.SameSpot base p q) :
    Alike (pool.region.Echoes base Eq) (pool.releaseIn i p m)
      ((pool.moved base fit).releaseIn i q seen) := by
  have page := Region.pageAddress_moved fit i
  have offset : q - (pool.region.moved base fit).pageAddress i = p - pool.region.pageAddress i := by
    unfold Region.SameSpot at spot
    omega
  refine .bind_eq (mirrored.page i) fun d _ => ?_
  cases d.role with
  | interior => exact .answer ⟨rfl, mirrored⟩
  | free length => exact .answer ⟨rfl, mirrored⟩
  | run pages =>
    have first : q ≠ (pool.region.moved base fit).pageAddress i ↔ p ≠ pool.region.pageAddress i := by
      unfold Region.SameSpot at spot
      omega
    refine .ite first (fun _ => .answer ⟨rfl, mirrored⟩) fun _ => ?_
    refine .bind (mirrored.returnRun i pages) fun _ _ back => ?_
    exact .answer ⟨rfl, spoil_mirrored back spot _⟩
  | small shift => exact returnChunk_alike mirrored ⟨.small, shift⟩ i spot offset
  | exact map =>
    exact returnChunk_alike mirrored ⟨.exact, pool.region.geometry.exactShift⟩ i spot offset
  | big shift map => exact returnChunk_alike mirrored ⟨.big, shift⟩ i spot offset

theorem release_alike (mirrored : pool.region.Mirrored base m seen) {p q : Nat}
    (spot : pool.region.SameSpot base p q) :
    Alike (pool.region.Echoes base Eq) (pool.release p m) ((pool.moved base fit).release q seen) := by
  have start := Region.start_moved fit
  have offset : q - (pool.region.moved base fit).start = p - pool.region.start := by
    unfold Region.SameSpot at spot
    omega
  have outside : (q < (pool.region.moved base fit).start ∨ (pool.region.moved base fit).finish ≤ q ∨
      pool.region.pageCount ≤ (q - (pool.region.moved base fit).start) / pool.region.pageSize) ↔
      (p < pool.region.start ∨ pool.region.finish ≤ p ∨
        pool.region.pageCount ≤ (p - pool.region.start) / pool.region.pageSize) := by
    have finish : (pool.region.moved base fit).finish = base + pool.region.length := rfl
    rw [offset, finish]
    unfold Region.SameSpot at spot
    unfold Region.finish
    omega
  refine .ite outside (fun _ => .answer ⟨rfl, mirrored⟩) fun _ => ?_
  show Alike _ (pool.releaseIn ((p - pool.region.start) / pool.region.pageSize) p m)
    ((pool.moved base fit).releaseIn
      ((q - (pool.region.moved base fit).start) / pool.region.pageSize) q seen)
  rw [offset]
  exact releaseIn_alike mirrored _ spot

end Pool

end SlabAllocator
