import Mathlib.Algebra.BigOperators.Group.List.Basic
import SlabAllocator.Proofs.LentBlocks
import SlabAllocator.Proofs.Segments

namespace SlabAllocator

theorem sum_map_filter {α : Type} (l : List α) (p : α → Prop) [DecidablePred p] (f : α → Nat) :
    ((l.filter fun x => p x).map f).sum = (l.map fun x => if p x then f x else 0).sum := by
  rw [List.sum_map_ite, List.sum_map_zero, Nat.add_zero]

theorem length_filter {α : Type} (l : List α) (p : α → Prop) [DecidablePred p] :
    (l.filter fun x => p x).length = (l.map fun x => if p x then 1 else 0).sum := by
  rw [← sum_map_filter l p fun _ => 1, List.map_const', List.sum_const_nat, Nat.mul_one]

theorem sum_filterMap {α : Type} (l : List α) (f : α → Option Nat) :
    (l.filterMap f).sum = (l.map fun x => (f x).getD 0).sum := by
  induction l with
  | nil => rfl
  | cons x rest ih =>
    rw [List.filterMap_cons, List.map_cons, List.sum_cons, ← ih]
    cases f x with
    | none => exact (Nat.zero_add _).symm
    | some n => exact List.sum_cons

namespace Use

/-- The pages of the allocated run that starts at a page. -/
def runPages : Use → Nat
  | run n => n
  | _ => 0

/-- One for a page of the size class in a slot. -/
def slabs (g : Geometry) (slot : Nat) : Use → Nat
  | slab c _ => if g.slotOf c.shift = slot then 1 else 0
  | _ => 0

/-- The chunks that callers hold of a page of the size class in a slot. -/
def held (g : Geometry) (slot : Nat) : Use → Nat
  | slab c taken => if g.slotOf c.shift = slot then (g.heldChunks c taken).length else 0
  | _ => 0

theorem slabs_eq_one_iff {g : Geometry} {slot : Nat} {u : Use} :
    u.slabs g slot = 1 ↔ ∃ c taken, u = slab c taken ∧ g.slotOf c.shift = slot := by
  rcases u with n | n | _ | ⟨c, taken⟩
  · exact iff_of_false nofun fun ⟨_, _, same, _⟩ => nomatch same
  · exact iff_of_false nofun fun ⟨_, _, same, _⟩ => nomatch same
  · exact iff_of_false nofun fun ⟨_, _, same, _⟩ => nomatch same
  · rw [slabs]
    constructor
    · intro one
      split at one
      · exact ⟨c, taken, rfl, by assumption⟩
      · cases one
    · rintro ⟨_, _, same, place⟩
      cases same
      exact if_pos place

theorem slabs_le_one (g : Geometry) (slot : Nat) (u : Use) : u.slabs g slot ≤ 1 := by
  cases u with
  | slab c taken =>
    rw [slabs]
    split <;> decide
  | _ => exact Nat.zero_le 1

end Use

namespace PageMap

/-- The sum of a count over the first `n` pages. -/
def total (t : PageMap) (n : Nat) (f : Use → Nat) : Nat :=
  ((List.range n).map fun i => f (t.use i)).sum

variable (t : PageMap) (n : Nat) (f : Use → Nat)

theorem total_succ : t.total (n + 1) f = t.total n f + f (t.use n) := by
  rw [total, total, List.range_succ, List.map_append, List.sum_append, List.map_singleton,
    List.sum_singleton]

theorem total_add (g : Use → Nat) : t.total n (fun u => f u + g u) = t.total n f + t.total n g :=
  List.sum_map_add

theorem total_congr {t : PageMap} {n : Nat} {f g : Use → Nat}
    (same : ∀ i < n, f (t.use i) = g (t.use i)) : t.total n f = t.total n g := by
  rw [total, total, List.map_congr_left fun i member => same i (List.mem_range.mp member)]

/-- Summing up over the pages and over some slots may be done in either order. -/
theorem total_sum (count : Nat) (f : Nat → Use → Nat) :
    t.total n (fun u => ((List.range count).map fun k => f k u).sum) =
      ((List.range count).map fun k => t.total n (f k)).sum := by
  induction count with
  | zero => exact List.sum_map_zero
  | succ count ih =>
    simp only [List.range_succ, List.map_append, List.sum_append, List.map_singleton,
      List.sum_singleton]
    rw [total_add, ih]

end PageMap

/-- The counts of a slot with more pages, chunks in use and chunks in all. -/
def SlotUsage.plus (u : SlotUsage) (pages used capacity : Nat) : SlotUsage :=
  { u with pages := u.pages + pages, used := u.used + used, capacity := u.capacity + capacity }

theorem SlotUsage.plus_plus (u : SlotUsage) (a b c d e f : Nat) :
    (u.plus a b c).plus d e f = u.plus (a + d) (b + e) (c + f) := by
  simp only [plus, Nat.add_assoc]

namespace Region

variable {r : Region} {m : Memory} {t : PageMap} {i : Nat}

theorem mapIdx_plus_zero (slots : List SlotUsage) :
    slots.mapIdx (fun _ slot => slot.plus 0 0 0) = slots :=
  List.mapIdx_eq_iff.mpr fun k => by cases slots[k]? <;> rfl

/-- The counts after one page was counted. -/
def counted (r : Region) (u : Use) (slots : List SlotUsage) : List SlotUsage :=
  slots.mapIdx fun k slot => slot.plus (u.slabs r.geometry k) (u.held r.geometry k)
    (u.slabs r.geometry k * r.geometry.usableChunks (r.geometry.minShift + k))

theorem counted_of_none {u : Use} (slots : List SlotUsage)
    (none : ∀ k, u.slabs r.geometry k = 0 ∧ u.held r.geometry k = 0) : r.counted u slots = slots := by
  unfold counted
  simp only [none, Nat.zero_mul]
  exact mapIdx_plus_zero slots

theorem counted_slab {c : Carving} (taken : ChunkSet) (cls : r.geometry.IsClass c)
    (slots : List SlotUsage) :
    slots.modify (r.geometry.slotOf c.shift) (fun slot =>
      slot.plus 1 (r.geometry.heldChunks c taken).length (r.geometry.usableChunks c.shift)) =
      r.counted (.slab c taken) slots := by
  have shift : r.geometry.minShift + r.geometry.slotOf c.shift = c.shift :=
    Nat.add_sub_cancel' cls.2.1
  refine List.ext_getElem? fun k => ?_
  rw [counted, List.getElem?_modify, List.getElem?_mapIdx, Use.slabs, Use.held]
  by_cases here : r.geometry.slotOf c.shift = k
  · subst here
    simp only [if_true, Nat.one_mul, shift]
    rfl
  · simp only [if_neg here, Nat.zero_mul]
    cases slots[k]? <;> rfl

/-- Where the record is elsewhere, no chunk of the page is set aside. -/
theorem usableChunks_of_kindOf {g : Geometry} {shift : Nat} (other : g.kindOf shift ≠ .small) :
    g.usableChunks shift = g.chunks shift := by
  have large : ¬shift < g.exactShift := fun small => other (if_pos small)
  rw [Geometry.usableChunks, Geometry.reservedChunks, if_neg large, Nat.sub_zero]

/-- A page of a class counts for the slot of that class. -/
theorem countSlab_eq {c : Carving} (cls : r.geometry.IsClass c) (used : Nat)
    (slots : List SlotUsage) :
    r.countSlab c used slots = .ok (slots.modify (r.geometry.slotOf c.shift) fun slot =>
      slot.plus 1 used (r.geometry.usableChunks c.shift)) := by
  rw [countSlab, slotIndex_eq cls, ok_bind]
  cases kind : r.geometry.kindOf c.shift with
  | small => rfl
  | exact =>
    rw [usableChunks_of_kindOf (by rw [kind]; decide)]
    rfl
  | big =>
    rw [usableChunks_of_kindOf (by rw [kind]; decide)]
    rfl

/-- A page of chunks is counted by its record. -/
theorem countPage_carved {c : Carving} (within : i < r.pageCount) (cls : r.geometry.IsClass c)
    (marked : r.carvingOf? (r.descriptor i m).role = some c) (runPages : Nat)
    (slots : List SlotUsage) : r.countPage m (runPages, slots) i = (do
      require (r.geometry.recordReserved c ≤ (r.recordOf c i m).card) .overflow
      let slots ← r.countSlab c ((r.recordOf c i m).card - r.geometry.recordReserved c) slots
      return (runPages, slots)) := by
  have read : r.record c i m = .ok (r.recordOf c i m) := record_eq cls within
  rw [countPage]
  cases role : (r.descriptor i m).role with
  | free n =>
    rw [role] at marked
    cases marked
  | run n =>
    rw [role] at marked
    cases marked
  | interior =>
    rw [role] at marked
    cases marked
  | small shift =>
    rw [role] at marked
    dsimp only
    rw [marked]
    dsimp only
    simp [read]
  | exact map =>
    rw [role] at marked
    dsimp only
    rw [marked]
    dsimp only
    simp [read]
  | big shift map =>
    rw [role] at marked
    dsimp only
    rw [marked]
    dsimp only
    rw [read, ok_bind]

theorem Shows.countPage_eq (shows_ : r.Shows m t) (sound : t.Sound r) (within : i < r.pageCount)
    (runPages : Nat) (slots : List SlotUsage) :
    r.countPage m (runPages, slots) i =
      .ok (runPages + (t.use i).runPages, r.counted (t.use i) slots) := by
  have role := shows_.role_eq within (sound.spelled within)
  cases use : t.use i with
  | free n =>
    rw [use, Use.role] at role
    rw [countPage, role, counted_of_none slots fun _ => ⟨rfl, rfl⟩]
    rfl
  | interior =>
    rw [use, Use.role] at role
    rw [countPage, role, counted_of_none slots fun _ => ⟨rfl, rfl⟩]
    rfl
  | run n =>
    rw [use, Use.role] at role
    rw [countPage, role, counted_of_none slots fun _ => ⟨rfl, rfl⟩]
    rfl
  | slab c taken =>
    obtain ⟨cls, kept⟩ := sound.slab i within c taken use
    have card := kept.card_eq cls r.valid
    have marked := (shows_.carvingOf?_iff sound within).mpr ⟨taken, use⟩
    rw [countPage_carved within cls marked,
      shows_.recordOf_eq within (sound.spelled within) use, require_of (by omega), ok_bind, card,
      Nat.add_sub_cancel_left, countSlab_eq cls, ok_bind, counted_slab taken cls]
    rfl

/-- Counting page after page sums up what the pages are used for. -/
theorem Shows.countPages_eq (shows_ : r.Shows m t) (sound : t.Sound r) (slots : List SlotUsage)
    {n : Nat} (within : n ≤ r.pageCount) :
    (List.range n).foldlM (r.countPage m) (0, slots) = .ok (t.total n Use.runPages,
      slots.mapIdx fun k slot => slot.plus (t.total n (Use.slabs r.geometry k))
        (t.total n (Use.held r.geometry k))
        (t.total n (Use.slabs r.geometry k) *
          r.geometry.usableChunks (r.geometry.minShift + k))) := by
  induction n with
  | zero =>
    simp only [PageMap.total, List.range_zero, List.map_nil, List.sum_nil, Nat.zero_mul,
      mapIdx_plus_zero]
    rfl
  | succ n ih =>
    rw [List.range_succ, List.foldlM_append, ih (by omega), ok_bind, List.foldlM_cons,
      shows_.countPage_eq sound (by omega), ok_bind, List.foldlM_nil, counted, List.mapIdx_mapIdx,
      PageMap.total_succ]
    simp only [Function.comp_def, SlotUsage.plus_plus, PageMap.total_succ, Nat.add_mul]
    rfl

theorem Shows.slotMembers_eq (shows_ : r.Shows m t) :
    r.slotMembers m = .ok ((List.range r.slotCount).map fun k => t.lists (.slot k)) :=
  mapM_ok fun k member =>
    have listed : r.HasList (.slot k) := List.mem_range.mp member
    shows_.linked.members_eq listed

theorem Shows.snapshot_eq (shows_ : r.Shows m t) :
    r.snapshot m = .ok ⟨t.lists .free, (List.range r.slotCount).map fun k => t.lists (.slot k),
      (List.range r.pageCount).map fun i => r.descriptor i m⟩ := by
  simp [snapshot, shows_.linked.members_eq r.hasList_free, shows_.slotMembers_eq]

/-- The lengths of the listed free runs. -/
theorem Shows.freeRuns_eq (shows_ : r.Shows m t) (sound : t.Sound r) :
    r.freeRuns m = .ok ((t.lists .free).filterMap fun i => (t.use i).freeLength?) := by
  rw [freeRuns, shows_.linked.members_eq r.hasList_free, ok_bind]
  refine congrArg Except.ok (List.filterMap_congr fun i member => ?_)
  obtain ⟨within, n, positive, use⟩ := (sound.free i).mp member
  have role := (shows_.free_iff sound within n).mpr use
  rw [role]
  exact (Use.freeLength?_eq_some_iff.mpr ⟨positive, use⟩).symm

/-- What a map says of a slot. -/
def slotUsageOf (r : Region) (t : PageMap) (k : Nat) : SlotUsage where
  chunkSize := 2 ^ (r.geometry.minShift + k)
  pages := t.total r.pageCount (Use.slabs r.geometry k)
  candidates := (t.lists (.slot k)).length
  used := t.total r.pageCount (Use.held r.geometry k)
  capacity := t.total r.pageCount (Use.slabs r.geometry k) *
    r.geometry.usableChunks (r.geometry.minShift + k)

theorem Shows.usage_eq (shows_ : r.Shows m t) (sound : t.Sound r) {runs : List Nat}
    (free : (t.lists .free).filterMap (fun i => (t.use i).freeLength?) = runs) :
    r.usage m = .ok {
      pageSize := r.pageSize
      pages := r.pageCount
      freePages := runs.foldr (· + ·) 0
      freeRuns := runs.length
      largestFreeRun := runs.foldl max 0
      runPages := t.total r.pageCount Use.runPages
      slots := (List.range r.slotCount).map (r.slotUsageOf t) } := by
  rw [usage, shows_.freeRuns_eq sound, free, ok_bind, shows_.slotMembers_eq, ok_bind]
  dsimp only
  rw [shows_.countPages_eq sound _ (Nat.le_refl _), ok_bind]
  refine congrArg Except.ok ?_
  congr 1
  refine List.ext_getElem? fun k => ?_
  simp only [List.getElem?_mapIdx, List.getElem?_map]
  cases found : (List.range r.slotCount)[k]? with
  | none => rfl
  | some j =>
    obtain ⟨_, rfl⟩ := List.getElem?_eq_some_iff.mp found
    simp [SlotUsage.plus, slotUsageOf]

end Region

namespace PageMap

variable {r : Region} {m : Memory} {t : PageMap} {segments : List Segment}

/-- The pages of a use are free, in a run or cut for one of the classes. -/
theorem Sound.pages_eq (sound : t.Sound r) {i : Nat} (within : i < r.pageCount) :
    (t.use i).pages = (t.use i).freeLength?.getD 0 + (t.use i).runPages +
      ((List.range r.slotCount).map fun k => (t.use i).slabs r.geometry k).sum := by
  cases use : t.use i with
  | free n =>
    cases n <;> simp [Use.pages, Use.freeLength?, Use.segment?, Segment.freeLength?, Use.runPages,
      Use.slabs]
  | run n => simp [Use.pages, Use.freeLength?, Use.segment?, Segment.freeLength?, Use.runPages,
      Use.slabs]
  | interior => simp [Use.pages, Use.freeLength?, Use.segment?, Use.runPages, Use.slabs]
  | slab c taken =>
    have known := Region.hasList_slotOf (sound.slab i within c taken use).1
    have one : ((List.range r.slotCount).map fun k => (Use.slab c taken).slabs r.geometry k).sum = 1 := by
      simp only [Use.slabs, eq_comm (a := r.geometry.slotOf c.shift)]
      rw [← length_filter, List.filter_eq, List.length_replicate,
        List.count_eq_one_of_mem List.nodup_range (List.mem_range.mpr known)]
    rw [one]
    rfl

/-- No page is counted twice and none is missed. -/
theorem Sound.total_eq (sound : t.Sound r) (shows_ : r.Shows m t) (split : r.Split m 0 segments) :
    (freeLengths segments).sum + t.total r.pageCount Use.runPages +
      ((List.range r.slotCount).map fun k => t.total r.pageCount (Use.slabs r.geometry k)).sum =
      r.pageCount := by
  have uses := shows_.split_eq sound split
  have all := split.sum_pages
  rw [Nat.sub_zero, ← List.range_eq_range'] at uses
  rw [Nat.zero_add, uses, List.map_filterMap, sum_filterMap] at all
  have free : (freeLengths segments).sum =
      t.total r.pageCount fun u => u.freeLength?.getD 0 := by
    rw [freeLengths, uses, List.filterMap_filterMap, sum_filterMap]
    rfl
  rw [free, ← total_add, ← total_sum, ← total_add, ← total_congr fun i within => sound.pages_eq within]
  refine Eq.trans (congrArg List.sum (List.map_congr_left fun i _ => ?_)) all
  rcases t.use i with n | n | _ | ⟨c, taken⟩
  · cases n <;> rfl
  · rfl
  · rfl
  · rfl

end PageMap

end SlabAllocator
