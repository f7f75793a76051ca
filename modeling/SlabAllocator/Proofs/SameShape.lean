import SlabAllocator.Proofs.Counting

namespace SlabAllocator

namespace Region

/-- Two regions have pages of one size, cut in the same ways, and equally many of
them. They may lie anywhere and leave any gap before their first page. -/
structure SameShape (r other : Region) : Prop where
  geometry : other.geometry = r.geometry
  pages : other.pageCount = r.pageCount

/-- Two addresses are equally far behind the first pages of two regions, or both
lie before them. -/
def SameDistance (r other : Region) (p q : Nat) : Prop :=
  (p < r.start ∧ q < other.start) ∨ ∃ d, p = r.start + d ∧ q = other.start + d

theorem chunkAddress_eq (r : Region) (shift i k : Nat) :
    r.chunkAddress shift i k = r.start + (i * r.pageSize + k * 2 ^ shift) :=
  Nat.add_assoc ..

namespace SameShape

variable {r other : Region} {t next : PageMap} {size p q : Nat}

theorem refl (r : Region) : r.SameShape r := ⟨rfl, rfl⟩

theorem slots (shape : r.SameShape other) : other.slotCount = r.slotCount := by
  rw [other.slotCount_eq, r.slotCount_eq, shape.geometry]

theorem hasList_iff (shape : r.SameShape other) (list : PageList) :
    other.HasList list ↔ r.HasList list := by
  cases list with
  | free => exact Iff.rfl
  | slot s =>
    unfold HasList
    rw [shape.slots]

theorem sound (shape : r.SameShape other) (sound : t.Sound r) : t.Sound other := by
  obtain ⟨tiled, free, slot, slab⟩ := sound
  rw [← shape.pages] at tiled free slot slab
  rw [← shape.slots, ← shape.geometry] at slot
  rw [← shape.geometry] at slab
  exact ⟨tiled, free, slot, slab⟩

/-- What is asked of a map is placed equally far behind the first page. -/
theorem placed {found : Option Nat} (shape : r.SameShape other)
    (placed : t.Placed r size found next) : ∃ place : Option Nat,
      found = place.map (r.start + ·) ∧
        t.Placed other size (place.map (other.start + ·)) next := by
  obtain ⟨base, length, g, layout, valid, planned⟩ := other
  obtain ⟨rfl, _⟩ := shape
  cases placed with
  | @run xs ys i large split enough short =>
    exact ⟨some (i * r.pageSize), rfl, .run large split enough short⟩
  | noRun large short => exact ⟨none, rfl, .noRun large short⟩
  | @chunk c i k ys old small form listed slab room lowest =>
    refine ⟨some (i * r.pageSize + k * 2 ^ c.shift), congrArg some (r.chunkAddress_eq ..), ?_⟩
    have there := PageMap.Placed.chunk (r := ⟨base, length, r.geometry, layout, valid, planned⟩)
      small form listed slab room lowest
    rwa [chunkAddress_eq] at there
  | @page c i ys small form unlisted free =>
    refine ⟨some (i * r.pageSize + r.geometry.recordReserved c * 2 ^ c.shift),
      congrArg some (r.chunkAddress_eq ..), ?_⟩
    have there := PageMap.Placed.page (r := ⟨base, length, r.geometry, layout, valid, planned⟩)
      small form unlisted free
    rwa [chunkAddress_eq] at there
  | noPage small form unlisted spent => exact ⟨none, rfl, .noPage small form unlisted spent⟩

theorem freed (shape : r.SameShape other) (freed : t.Freed r p size next) :
    ∃ d, p = r.start + d ∧ t.Freed other (other.start + d) size next := by
  obtain ⟨base, length, g, layout, valid, planned⟩ := other
  obtain ⟨rfl, pages⟩ := shape
  cases freed with
  | @run i n within use =>
    exact ⟨i * r.pageSize, rfl, .run (pages ▸ within) use⟩
  | @chunk c i k taken within slab caller has =>
    refine ⟨i * r.pageSize + k * 2 ^ c.shift, r.chunkAddress_eq .., ?_⟩
    have there := PageMap.Freed.chunk (r := ⟨base, length, r.geometry, layout, valid, planned⟩)
      (pages ▸ within) slab caller has
    rwa [chunkAddress_eq] at there

/-- An address that is handed back is answered alike equally far behind the first
page. -/
theorem returned {verdict : Except ReleaseError Unit} (shape : r.SameShape other)
    (back : t.Returned r p verdict next) (same : r.SameDistance other p q) :
    t.Returned other q verdict next := by
  have size : other.pageSize = r.pageSize := by rw [pageSize, pageSize, shape.geometry]
  have inside {i offset : Nat} (here : p = r.pageAddress i + offset) :
      q = other.pageAddress i + offset := by
    unfold pageAddress at here ⊢
    rw [size]
    rcases same with before | ⟨d, rfl, rfl⟩ <;> omega
  cases back with
  | outside beyond =>
    refine .outside fun i within offset small there => ?_
    rw [size] at small
    rw [shape.pages] at within
    refine beyond i within offset small ?_
    unfold pageAddress at there ⊢
    rw [size] at there
    rcases same with before | ⟨d, rfl, rfl⟩ <;> omega
  | refused within small verdict =>
    rw [inside rfl]
    rw [← shape.geometry] at verdict
    exact .refused (shape.pages ▸ within) (size ▸ small) verdict
  | @accepted i offset _ _ within small verdict freed =>
    obtain ⟨d, here, there⟩ := shape.freed freed
    have same : other.start + d = other.pageAddress i + offset := by
      unfold pageAddress at here ⊢
      rw [size]
      omega
    rw [same] at there
    rw [inside rfl]
    rw [← shape.geometry] at verdict
    exact .accepted (shape.pages ▸ within) (size ▸ small) verdict there

theorem slotUsageOf (shape : r.SameShape other) (k : Nat) :
    other.slotUsageOf t k = r.slotUsageOf t k := by
  rw [Region.slotUsageOf, Region.slotUsageOf, shape.geometry, shape.pages]

end SameShape

variable {r other : Region} {m seen : Memory} {t : PageMap} {lists : PageList → List Nat} {i : Nat}

/-- The lists alone decide where a page stands in them. -/
theorem Linked.samePlace_of_shape (shape : r.SameShape other) (one : r.Linked m lists)
    (two : other.Linked seen lists) (within : i < r.pageCount) :
    (other.descriptor i seen).SamePlace (r.descriptor i m) := by
  by_cases listed : ∃ list, r.HasList list ∧ i ∈ lists list
  · obtain ⟨list, known, member⟩ := listed
    obtain ⟨xs, ys, split⟩ := List.append_of_mem member
    obtain ⟨_, _, _, _, _, _, prev, next, named⟩ := one.chained.split known split
    obtain ⟨_, _, _, _, _, _, back, on, also⟩ :=
      two.chained.split ((shape.hasList_iff list).mpr known) split
    exact ⟨on.trans next.symm, back.trans prev.symm, also.trans named.symm⟩
  · have unlisted : ∀ list, r.HasList list → i ∉ lists list := fun list known member =>
      listed ⟨list, known, member⟩
    obtain ⟨next, prev, named⟩ := one.loose i within unlisted
    obtain ⟨on, back, also⟩ := two.loose i (shape.pages ▸ within) fun list known =>
      unlisted list ((shape.hasList_iff list).mp known)
    exact ⟨on.trans next.symm, back.trans prev.symm, also.trans named.symm⟩

namespace Shows

/-- A map fixes every field of every descriptor. -/
theorem descriptor_eq_of_shape (shape : r.SameShape other) (one : r.Shows m t)
    (two : other.Shows seen t) (within : i < r.pageCount) :
    other.descriptor i seen = r.descriptor i m :=
  Descriptor.eq_of_samePlace
    ((two.descriptor i (shape.pages ▸ within)).trans (one.descriptor i within).symm)
    (one.linked.samePlace_of_shape shape two.linked within)

theorem usage_same_of_shape (shape : r.SameShape other) (one : r.Shows m t)
    (two : other.Shows seen t) (sound : t.Sound r) : other.usage seen = r.usage m := by
  rw [one.usage_eq sound rfl, two.usage_eq (shape.sound sound) rfl, shape.pages, shape.slots,
    funext fun k => shape.slotUsageOf (t := t) k]
  unfold pageSize
  rw [shape.geometry]

theorem snapshot_same_of_shape (shape : r.SameShape other) (one : r.Shows m t)
    (two : other.Shows seen t) : other.snapshot seen = r.snapshot m := by
  have descriptors : ((List.range r.pageCount).map fun i => other.descriptor i seen) =
      (List.range r.pageCount).map fun i => r.descriptor i m :=
    List.map_congr_left fun i member =>
      one.descriptor_eq_of_shape shape two (List.mem_range.mp member)
  rw [one.snapshot_eq, two.snapshot_eq, shape.pages, shape.slots, descriptors]

end Shows

end Region

end SlabAllocator
