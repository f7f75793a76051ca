import Mathlib.Algebra.Order.BigOperators.Group.List
import Mathlib.Algebra.Order.Group.Nat
import SlabAllocator.Proofs.Counting
import SlabAllocator.Proofs.WidthOfCalls

namespace SlabAllocator

/-- A fold over the first numbers may be done with other steps that agree with
its own wherever it gets to. -/
theorem foldlM_range_congr {β : Type} {f g : β → Nat → Except Fault β} {b : β} {n : Nat}
    (same : ∀ k < n, ∀ acc, (List.range k).foldlM g b = .ok acc → f acc k = g acc k) :
    (List.range n).foldlM f b = (List.range n).foldlM g b := by
  induction n with
  | zero => rfl
  | succ n ih =>
    rw [List.range_succ, List.foldlM_append, List.foldlM_append,
      ih fun k below => same k (by omega)]
    refine bind_congr_answer fun acc reached => ?_
    rw [List.foldlM_cons, List.foldlM_cons, same n (by omega) acc reached]
    rfl

namespace PageMap

theorem total_le {t : PageMap} {n most : Nat} {f : Use → Nat}
    (each : ∀ i < n, f (t.use i) ≤ most) : t.total n f ≤ n * most := by
  induction n with
  | zero => exact Nat.zero_le _
  | succ n ih =>
    have last := each n (by omega)
    have rest := ih fun i below => each i (by omega)
    rw [total_succ, Nat.succ_mul]
    omega

end PageMap

namespace Use

theorem runPages_le (u : Use) : u.runPages ≤ u.pages := by
  cases u with
  | run n => exact Nat.le_refl n
  | _ => exact Nat.zero_le _

theorem held_le {g : Geometry} (valid : g.Valid) (slot : Nat) (u : Use) : u.held g slot ≤ 2 ^ 16 := by
  cases u with
  | slab c taken =>
    have most := Geometry.chunks_le_two_pow valid c.shift
    have part := List.length_filter_le taken.has
      (List.range' (g.recordReserved c) (g.chunks c.shift - g.recordReserved c))
    rw [List.length_range'] at part
    rw [held]
    split
    · unfold Geometry.heldChunks
      omega
    · exact Nat.zero_le _
  | _ => exact Nat.zero_le _

end Use

namespace Machine

variable {r : Region} {m : Memory} {t : PageMap} {i : Nat} {slots : List SlotUsage}

/-- There is room left in the counts of a class for one more page. -/
def Roomy (slot : SlotUsage) : Prop :=
  slot.pages < 2 ^ 63 ∧ slot.used < 2 ^ 63 ∧ slot.capacity < 2 ^ 63

theorem roomOf_eq {c : Carving} (cls : r.geometry.IsClass c) :
    roomOf r c.shift = .ok (r.geometry.usableChunks c.shift) := by
  unfold roomOf
  cases kind : r.geometry.kindOf c.shift with
  | small => exact usableChunks_eq cls
  | exact =>
    rw [Region.usableChunks_of_kindOf (by rw [kind]; decide)]
    exact chunks_eq cls
  | big =>
    rw [Region.usableChunks_of_kindOf (by rw [kind]; decide)]
    exact chunks_eq cls

theorem countSlab_eq {c : Carving} {used : Nat} (cls : r.geometry.IsClass c)
    (length : slots.length = r.slotCount) (few : used < 2 ^ 63)
    (roomy : ∀ slot ∈ slots, Roomy slot) :
    countSlab r c used slots = r.countSlab c used slots := by
  have known : r.geometry.slotOf c.shift < r.slotCount := Region.hasList_slotOf cls
  have index : r.geometry.slotOf c.shift < slots.length := by omega
  have fits : r.geometry.usableChunks c.shift ≤ r.geometry.chunks c.shift := Nat.sub_le ..
  have most := Geometry.chunks_le_two_pow r.valid c.shift
  obtain ⟨pages, held, capacity⟩ := roomy _ (List.getElem_mem index)
  rw [countSlab, Region.slotIndex_eq cls, ok_bind, List.getElem?_eq_getElem index]
  dsimp only
  rw [roomOf_eq cls, ok_bind, add_of (by omega), ok_bind, add_of (by omega), ok_bind,
    add_of (by omega), ok_bind, Region.countSlab_eq cls, List.modify_eq_set_get _ index]
  rfl

/-- The page of a class is counted in 64 bits as it is without a bound. -/
theorem countCarved_eq {c : Carving} {runPages : Nat} (room : r.InWidth) (within : i < r.pageCount)
    (cls : r.geometry.IsClass c) (length : slots.length = r.slotCount)
    (marked : r.carvingOf? (r.descriptor i m).role = some c)
    (roomy : ∀ slot ∈ slots, Roomy slot) :
    (do
      let taken ← record r c i m
      let held ← card taken
      let used ← sub held (r.geometry.recordReserved c)
      let slots ← countSlab r c used slots
      return (runPages, slots)) = r.countPage m (runPages, slots) i := by
  have bits := capacity_recordOf (i := i) (m := m) cls
  have few := (r.recordOf c i m).card_le_capacity
  rw [Region.countPage_carved within cls marked, record_eq room within cls, ok_bind,
    card_of (by omega), ok_bind, sub, bind_assoc]
  refine bind_congr_answer fun _ _ => ?_
  rw [pure_bind, countSlab_eq cls length (by omega) roomy]

theorem countPage_eq {runPages : Nat} (room : r.InWidth) (classed : r.Classed m)
    (within : i < r.pageCount) (length : slots.length = r.slotCount)
    (sum : ∀ pages, (r.descriptor i m).role = .run pages → runPages + pages < 2 ^ 64)
    (roomy : ∀ slot ∈ slots, Roomy slot) :
    countPage r m (runPages, slots) i = r.countPage m (runPages, slots) i := by
  have cls := classed i within
  unfold countPage
  dsimp only
  rw [r.page_eq m within, ok_bind]
  cases role : (r.descriptor i m).role with
  | free n =>
    rw [Region.countPage, role]
  | interior =>
    rw [Region.countPage, role]
  | run n =>
    rw [Region.countPage, role]
    dsimp only
    rw [add_of (sum n role)]
    rfl
  | small shift =>
    rw [role] at cls
    exact countCarved_eq room within (cls _ rfl) length (by rw [role]; rfl) roomy
  | exact map =>
    rw [role] at cls
    exact countCarved_eq room within (cls _ rfl) length (by rw [role]; rfl) roomy
  | big shift map =>
    rw [role] at cls
    exact countCarved_eq room within (cls _ rfl) length (by rw [role]; rfl) roomy

theorem pages_lt (r : Region) {n : Nat} (few : n ≤ r.pageCount) : n * r.pageCount < 2 ^ 64 := by
  have most := r.pageCount_le
  have square := Nat.mul_le_mul (Nat.le_trans few most) most
  omega

/-- Scanning the page table counts no class and no run beyond 64 bits. -/
theorem countPages_eq (room : r.InWidth) (shows_ : r.Shows m t) (sound : t.Sound r)
    (length : slots.length = r.slotCount)
    (fresh : ∀ slot ∈ slots, slot.pages = 0 ∧ slot.used = 0 ∧ slot.capacity = 0) :
    (List.range r.pageCount).foldlM (countPage r m) (0, slots) =
      (List.range r.pageCount).foldlM (r.countPage m) (0, slots) := by
  have most := r.pageCount_le
  refine foldlM_range_congr fun k within acc reached => ?_
  rw [shows_.countPages_eq sound slots (by omega)] at reached
  obtain rfl := Except.ok.inj reached
  refine countPage_eq room (shows_.classed sound) within (by rw [List.length_mapIdx, length]) ?_ ?_
  · -- No run is longer than the table, so the runs before and this one stay below its square.
    intro pages role
    have before : t.total k Use.runPages ≤ k * r.pageCount := PageMap.total_le fun i below =>
      Nat.le_trans (Use.runPages_le _) (sound.spelled (by omega)).1
    have here : pages ≤ r.pageCount := by
      rw [shows_.role_eq within (sound.spelled within)] at role
      have spelled := (sound.spelled within).1
      cases use : t.use k with
      | run n =>
        rw [use] at role spelled
        cases role
        exact spelled
      | free n =>
        rw [use] at role
        cases role
      | interior =>
        rw [use] at role
        cases role
      | slab c taken =>
        rw [use, Use.role] at role
        split at role <;> cases role
    have all := pages_lt r (show k + 1 ≤ r.pageCount from within)
    rw [Nat.succ_mul] at all
    omega
  · -- Each page before adds at most one page and at most 2 ^ 16 chunks to a class.
    intro slot member
    obtain ⟨j, inside, rfl⟩ := List.mem_mapIdx.mp member
    obtain ⟨pages, used, capacity⟩ := fresh _ (List.getElem_mem inside)
    have slabs : t.total k (Use.slabs r.geometry j) ≤ k * 1 :=
      PageMap.total_le fun i _ => Use.slabs_le_one r.geometry j _
    have held : t.total k (Use.held r.geometry j) ≤ k * 2 ^ 16 :=
      PageMap.total_le fun i _ => Use.held_le r.valid j _
    have usable : r.geometry.usableChunks (r.geometry.minShift + j) ≤ 2 ^ 16 :=
      Nat.le_trans (Nat.sub_le ..) (Geometry.chunks_le_two_pow r.valid _)
    have product := Nat.mul_le_mul slabs usable
    rw [Roomy, SlotUsage.plus, pages, used, capacity]
    dsimp only
    omega

theorem slotList_eq (shows_ : r.Shows m t) {slot : Nat} (known : slot < r.slotCount) :
    slotList r m slot = .ok (t.lists (.slot slot)) := by
  have few := r.slotCount_le
  rw [slotList, fit_of (by omega), ok_bind]
  have listed : r.HasList (.slot slot) := known
  exact shows_.linked.members_eq listed

theorem snapshot_eq (shows_ : r.Shows m t) : snapshot r m = r.snapshot m := by
  unfold snapshot Region.snapshot
  rw [shows_.slotMembers_eq, mapM_ok fun k member => slotList_eq shows_ (List.mem_range.mp member),
    mapM_ok fun i member => r.page_eq m (List.mem_range.mp member)]
  rfl

theorem freshSlot_eq (shows_ : r.Shows m t) {slot : Nat} (known : slot < r.slotCount) :
    freshSlot r m slot = .ok {
      chunkSize := 2 ^ (r.geometry.minShift + slot)
      candidates := (t.lists (.slot slot)).length } := by
  have most := r.pageCount_le
  have few := r.valid.2.1
  have listed : r.HasList (.slot slot) := known
  have short := shows_.linked.length_le listed
  have order := known
  rw [Region.slotCount_eq, Geometry.slotCount] at order
  rw [freshSlot, fit_of (by omega), ok_bind, fit_of (by omega), ok_bind, shiftLeft_one (by omega),
    ok_bind, slotList_eq shows_ known, ok_bind, fit_of (by omega)]
  rfl

/-- There are no more free runs than pages, and no free run is longer than all
pages together. -/
theorem freeRuns_le {lengths : List Nat} (shows_ : r.Shows m t) (sound : t.Sound r)
    (runs : r.freeRuns m = .ok lengths) :
    lengths.length ≤ r.pageCount ∧ ∀ n ∈ lengths, n ≤ r.pageCount := by
  rw [shows_.freeRuns_eq sound] at runs
  obtain rfl := Except.ok.inj runs
  have short := shows_.linked.length_le r.hasList_free
  refine ⟨Nat.le_trans (List.length_filterMap_le ..) short, fun n member => ?_⟩
  obtain ⟨i, listed, length⟩ := List.mem_filterMap.mp member
  obtain ⟨within, _⟩ := (sound.free i).mp listed
  have spelled := (sound.spelled within).1
  rw [(Use.freeLength?_eq_some_iff.mp length).2] at spelled
  exact spelled

theorem usage_eq (room : r.InWidth) (shows_ : r.Shows m t) (sound : t.Sound r) :
    usage r m = r.usage m := by
  have most := r.pageCount_le
  obtain ⟨lengths, free⟩ : ∃ lengths, r.freeRuns m = .ok lengths := ⟨_, shows_.freeRuns_eq sound⟩
  obtain ⟨fewer, each⟩ := freeRuns_le shows_ sound free
  have total : lengths.foldr (· + ·) 0 < 2 ^ 64 :=
    Nat.lt_of_le_of_lt (List.sum_le_card_nsmul lengths r.pageCount each) (pages_lt r fewer)
  have listed : ((List.range r.slotCount).map fun k => t.lists (.slot k)).mapIdx (fun slot pages =>
      { chunkSize := 2 ^ (r.geometry.minShift + slot), candidates := pages.length : SlotUsage }) =
      (List.range r.slotCount).map fun slot => {
        chunkSize := 2 ^ (r.geometry.minShift + slot)
        candidates := (t.lists (.slot slot)).length } := by
    refine List.ext_getElem (by simp) fun k inside _ => ?_
    simp only [List.getElem_mapIdx, List.getElem_map, List.getElem_range]
  rw [usage, pageSize_eq, ok_bind, free, ok_bind, fit_of (by omega), ok_bind,
    sum_of total, ok_bind, mapM_ok fun k member => freshSlot_eq shows_ (List.mem_range.mp member),
    ok_bind, countPages_eq room shows_ sound (by rw [List.length_map, List.length_range]) ?_,
    Region.usage, free, ok_bind, shows_.slotMembers_eq, ok_bind, listed]
  intro slot member
  obtain ⟨k, _, rfl⟩ := List.mem_map.mp member
  exact ⟨rfl, rfl, rfl⟩

end Machine

end SlabAllocator
