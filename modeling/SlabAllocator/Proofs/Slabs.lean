import SlabAllocator.Proofs.PageRuns

namespace SlabAllocator

namespace PageMap

/-- The map after page `i`, which was just allocated, was carved and put on the
list of its class. -/
def carve (t : PageMap) (r : Region) (c : Carving) (i : Nat) (taken : ChunkSet) : PageMap :=
  (t.assign i 1 (.slab c taken)).push (.slot (r.geometry.slotOf c.shift)) i

/-- The map after a chunk was added to the record of a listed page. -/
def occupy (t : PageMap) (r : Region) (c : Carving) (i : Nat) (taken : ChunkSet) : PageMap :=
  if taken = r.geometry.fullRecord c then
    (t.assign i 1 (.slab c taken)).unlist i
  else
    t.assign i 1 (.slab c taken)

/-- The map after a chunk was taken out of the record of a page. -/
def settle (t : PageMap) (r : Region) (c : Carving) (i : Nat) (old left : ChunkSet) : PageMap :=
  if left = r.geometry.emptyRecord c then
    t.returnRun i 1
  else if old = r.geometry.fullRecord c then
    t.carve r c i left
  else
    t.assign i 1 (.slab c left)

variable {t change : PageMap} {r : Region} {c : Carving} {i : Nat} {old taken left : ChunkSet}

@[simp] theorem use_carve_self : (t.carve r c i taken).use i = .slab c taken := use_assign_self ..

@[simp] theorem use_carve_of_ne {j : Nat} (other : j ≠ i) : (t.carve r c i taken).use j = t.use j :=
  use_assign_of_ne t _ other

@[simp] theorem use_occupy_self : (t.occupy r c i taken).use i = .slab c taken := by
  unfold occupy
  split <;> exact use_assign_self ..

@[simp] theorem use_occupy_of_ne {j : Nat} (other : j ≠ i) : (t.occupy r c i taken).use j = t.use j := by
  unfold occupy
  split <;> exact use_assign_of_ne t _ other

@[simp] theorem lists_carve_slot : (t.carve r c i taken).lists (.slot (r.geometry.slotOf c.shift)) =
    i :: t.lists (.slot (r.geometry.slotOf c.shift)) :=
  lists_relist_self ..

@[simp] theorem lists_carve_of_ne {list : PageList} (other : list ≠ .slot (r.geometry.slotOf c.shift)) :
    (t.carve r c i taken).lists list = t.lists list :=
  lists_relist_of_ne _ _ other

@[simp] theorem use_settle_of_ne {j : Nat} (other : j ≠ i) :
    (t.settle r c i old left).use j = t.use j := by
  unfold settle
  split
  · exact use_returnRun_of_outside other (by omega)
  · split
    · exact use_carve_of_ne other
    · exact use_assign_of_ne t _ other

theorem use_settle_self : (t.settle r c i old left).use i =
    if left = r.geometry.emptyRecord c then .free 1 else .slab c left := by
  unfold settle
  split
  · exact use_returnRun_self
  · split <;> exact use_assign_self ..

namespace Sound

/-- Where a segment of one page is used for chunks from now on, it is enough to
look at that page. -/
theorem slabPage (sound : t.Sound r) (within : i < r.pageCount) (single : (t.use i).pages = 1)
    (cls : r.geometry.IsClass c) (kept : r.geometry.Kept c taken)
    (here : change.use i = .slab c taken) (others : ∀ j, j ≠ i → change.use j = t.use j)
    (lists : ∀ list, r.HasList list → ∀ j, j ≠ i → (j ∈ change.lists list ↔ j ∈ t.lists list))
    (free : i ∉ change.lists .free)
    (slot : ∀ s < r.slotCount, i ∈ change.lists (.slot s) ↔
      r.geometry.slotOf c.shift = s ∧ taken ≠ r.geometry.fullRecord c) : change.Sound r := by
  have tiled : Tiled r.pageCount change.use := by
    refine sound.tiled.convert within (u := .slab c taken) single.symm here
      (fun j after before => ?_) fun j outside => others j fun same => outside ?_
    · rw [Use.pages] at before
      omega
    · rw [Use.pages]
      omega
  refine sound.patch tiled within ?_ ?_ ?_ ?_ <;> rw [single]
  · intro j outside
    have other : j ≠ i := by omega
    exact ⟨others j other, fun list known => lists list known j other⟩
  · intro j lower upper
    obtain rfl : j = i := by omega
    rw [here]
    refine iff_of_false free ?_
    rintro ⟨_, _, same⟩
    cases same
  · intro s known j lower upper
    obtain rfl : j = i := by omega
    rw [slot s known, here]
    constructor
    · exact fun facts => ⟨c, taken, rfl, facts⟩
    · rintro ⟨_, _, same, facts⟩
      cases same
      exact facts
  · intro j lower upper d record same
    obtain rfl : j = i := by omega
    rw [here] at same
    cases same
    exact ⟨cls, kept⟩

/-- A page of chunks is on the list of its class exactly while it has room. -/
theorem mem_slot_iff (sound : t.Sound r) (within : i < r.pageCount)
    (slab : t.use i = .slab c taken) {s : Nat} (known : s < r.slotCount) :
    i ∈ t.lists (.slot s) ↔
      r.geometry.slotOf c.shift = s ∧ taken ≠ r.geometry.fullRecord c := by
  rw [sound.slot s known]
  constructor
  · rintro ⟨_, _, _, same, facts⟩
    rw [slab] at same
    cases same
    exact facts
  · exact fun facts => ⟨within, c, taken, slab, facts⟩

theorem not_mem_free (sound : t.Sound r) (busy : ∀ n, t.use i ≠ .free n) : i ∉ t.lists .free :=
  fun member => by
    obtain ⟨_, n, _, same⟩ := (sound.free i).mp member
    exact busy n same

/-- A page of chunks is on no list exactly while it is full. -/
theorem unlisted_iff_full (sound : t.Sound r) (within : i < r.pageCount)
    (slab : t.use i = .slab c taken) :
    (∀ list, r.HasList list → i ∉ t.lists list) ↔ taken = r.geometry.fullRecord c := by
  constructor
  · intro unlisted
    by_contra room
    have known := Region.hasList_slotOf (sound.slab i within c taken slab).1
    exact unlisted _ known ((sound.mem_slot_iff within slab known).mpr ⟨rfl, room⟩)
  · intro full
    refine sound.unlisted (by rw [slab]; nofun) fun d record same => ?_
    rw [slab] at same
    cases same
    exact full

theorem carve (sound : t.Sound r) (within : i < r.pageCount) (single : (t.use i).pages = 1)
    (unlisted : ∀ list, r.HasList list → i ∉ t.lists list) (cls : r.geometry.IsClass c)
    (kept : r.geometry.Kept c taken) (room : taken ≠ r.geometry.fullRecord c) :
    (t.carve r c i taken).Sound r := by
  refine sound.slabPage within single cls kept use_carve_self (fun j => use_carve_of_ne) ?_ ?_ ?_
  · intro list known j other
    by_cases same : list = .slot (r.geometry.slotOf c.shift)
    · subst same
      simp [other]
    · simp [same]
  · simpa using unlisted .free trivial
  · intro s known
    by_cases same : r.geometry.slotOf c.shift = s
    · subst same
      simp [room]
    · rw [lists_carve_of_ne (by simpa using fun here => same here.symm)]
      exact iff_of_false (unlisted (.slot s) known) fun facts => same facts.1

theorem occupy (sound : t.Sound r) (distinct : ∀ list, r.HasList list → (t.lists list).Nodup)
    (within : i < r.pageCount) (slab : t.use i = .slab c old) (room : old ≠ r.geometry.fullRecord c)
    (kept : r.geometry.Kept c taken) : (t.occupy r c i taken).Sound r := by
  obtain ⟨cls, _⟩ := sound.slab i within c old slab
  have free : i ∉ t.lists .free := sound.not_mem_free (by rw [slab]; nofun)
  refine sound.slabPage within (by rw [slab]; rfl) cls kept use_occupy_self
    (fun j => use_occupy_of_ne) ?_ ?_ ?_
  · intro list known j other
    unfold PageMap.occupy
    split
    · exact List.mem_erase_of_ne other
    · exact Iff.rfl
  · unfold PageMap.occupy
    split
    · exact fun member => free (List.mem_of_mem_erase member)
    · exact free
  · intro s known
    have listed := sound.mem_slot_iff within slab known
    unfold PageMap.occupy
    split
    · rename_i full
      exact iff_of_false (fun member => ((distinct (.slot s) known).mem_erase_iff.mp member).1 rfl)
        fun facts => facts.2 full
    · rename_i more
      exact listed.trans (and_congr_right fun _ => iff_of_true room more)

theorem settle (sound : t.Sound r) (distinct : ∀ list, r.HasList list → (t.lists list).Nodup)
    (within : i < r.pageCount) (slab : t.use i = .slab c old) (fits : r.geometry.Fits c left)
    (room : left ≠ r.geometry.fullRecord c) : (t.settle r c i old left).Sound r := by
  obtain ⟨cls, _⟩ := sound.slab i within c old slab
  have single : (t.use i).pages = 1 := by rw [slab]; rfl
  have free : i ∉ t.lists .free := sound.not_mem_free (by rw [slab]; nofun)
  -- The page is given back when empty, listed again when it was full, or stays where it is.
  unfold PageMap.settle
  split
  · exact sound.returnRun within distinct (by rw [slab]; rfl) single Nat.one_pos
  · rename_i some
    have kept := fits.kept_of_ne_empty cls r.valid some
    split
    · rename_i full
      exact sound.carve within single ((sound.unlisted_iff_full within slab).mpr full) cls kept room
    · rename_i before
      refine sound.slabPage within single cls kept (use_assign_self ..)
        (fun j => use_assign_of_ne t _) (fun _ _ _ _ => Iff.rfl) free fun s known => ?_
      have listed := sound.mem_slot_iff within slab known
      exact listed.trans (and_congr_right fun _ => iff_of_true before room)

end Sound

end PageMap

end SlabAllocator
