import SlabAllocator.Proofs.Answers

namespace SlabAllocator

/-- The page map of a new pool: all pages are one free run. -/
def PageMap.fresh (r : Region) : PageMap where
  use i := if i = 0 then .free r.pageCount else .free 0
  lists list := if list = .free ∧ 0 < r.pageCount then [0] else []

namespace PageMap

variable {r : Region}

@[simp] theorem use_fresh_zero : (fresh r).use 0 = .free r.pageCount := by
  simp [fresh]

@[simp] theorem use_fresh_of_ne {i : Nat} (other : i ≠ 0) : (fresh r).use i = .free 0 := by
  simp [fresh, other]

theorem use_fresh (i : Nat) : ∃ n, (fresh r).use i = .free n := by
  by_cases first : i = 0
  · exact ⟨_, first ▸ use_fresh_zero⟩
  · exact ⟨_, use_fresh_of_ne first⟩

end PageMap

namespace Region

variable {r : Region} {m : Memory} {first count : Nat}

theorem headOf_free_store (h : Header) (nil : h.free = Link.nil.raw.toNat) :
    r.headOf .free (h.store r.base m) = .nil := by
  rw [headOf, headAddress, Header.store]
  unfold Header.freeAt Header.userDataAt
  rw [Memory.read_write_of_disjoint _ _ (by omega), Memory.read_write_of_disjoint _ _ (by omega),
    Memory.read_write_of_disjoint _ _ (by omega), Memory.read_write, nil]
  rfl

theorem headOf_free_clearHeads : r.headOf .free (r.clearHeads first count m) = r.headOf .free m := by
  induction count generalizing first m with
  | zero => rfl
  | succ count ih => simp [clearHeads, ih]

theorem headOf_slot_clearHeads (s : Nat) : r.headOf (.slot s) (r.clearHeads first count m) =
    if first ≤ s ∧ s < first + count then .nil else r.headOf (.slot s) m := by
  induction count generalizing first m with
  | zero => rw [if_neg (by omega)]; rfl
  | succ count ih =>
    rw [clearHeads, ih]
    by_cases here : s = first
    · subst here
      rw [if_neg (by omega), headOf_putHead_self, if_pos (by omega)]
    · rw [r.headOf_putHead_of_ne _ _ (by simpa using here)]
      simp only [show first + 1 ≤ s ∧ s < first + 1 + count ↔ first ≤ s ∧ s < first + (count + 1) by omega]

theorem headOf_clearPages {list : PageList} (known : r.HasList list) :
    r.headOf list (r.clearPages first count m) = r.headOf list m := by
  induction count generalizing first m with
  | zero => rfl
  | succ count ih => simp [clearPages, ih, known]

theorem descriptor_clearPages (j : Nat) : r.descriptor j (r.clearPages first count m) =
    if first ≤ j ∧ j < first + count then .blank else r.descriptor j m := by
  induction count generalizing first m with
  | zero => rw [if_neg (by omega)]; rfl
  | succ count ih =>
    rw [clearPages, ih, descriptor_putDescriptor]
    by_cases here : j = first
    · rw [if_neg (by omega), if_pos here, if_pos (by omega)]
    · rw [if_neg here]
      simp only [show first + 1 ≤ j ∧ j < first + 1 + count ↔ first ≤ j ∧ j < first + (count + 1) by omega]

/-- The tables of a new pool before its only run is entered. -/
def cleared (r : Region) (m : Memory) : Memory :=
  r.clearPages 0 r.pageCount (r.clearHeads 0 r.slotCount (r.freshHeader.store r.base m))

theorem headOf_cleared {list : PageList} (known : r.HasList list) :
    r.headOf list (r.cleared m) = .nil := by
  rw [cleared, headOf_clearPages known]
  cases list with
  | free => rw [headOf_free_clearHeads, headOf_free_store _ rfl]
  | slot s =>
    have below : s < r.slotCount := known
    rw [headOf_slot_clearHeads, if_pos (by omega)]

theorem descriptor_cleared {i : Nat} (within : i < r.pageCount) :
    r.descriptor i (r.cleared m) = .blank := by
  rw [cleared, descriptor_clearPages, if_pos (by omega)]

theorem linked_cleared : r.Linked (r.cleared m) fun _ => [] where
  head _ known := headOf_cleared known
  strung _ _ := trivial
  distinct _ _ := List.nodup_nil
  loose i within _ := by
    rw [descriptor_cleared within]
    exact ⟨rfl, rfl, rfl⟩

theorem linked_format : r.Linked (r.format m) (PageMap.fresh r).lists := by
  -- Without pages there is no run to enter.
  by_cases empty : r.pageCount = 0
  · have same : r.format m = r.cleared m := if_neg (by omega)
    rw [same]
    exact linked_cleared.congr_lists fun list _ => if_neg (by omega)
  · have some : 0 < r.pageCount := Nat.pos_of_ne_zero empty
    have same : r.format m =
        r.putHead .free (.page 0) (r.putDescriptor 0 r.wholeRun (r.cleared m)) := if_pos some
    have one := Relinks.putDescriptor (r := r) 0 r.wholeRun (r.cleared m) .free
    have two := Relinks.putHead (.page 0) (r.putDescriptor 0 r.wholeRun (r.cleared m)) r.hasList_free
    have entry : r.descriptor 0 (r.format m) = r.wholeRun := by
      rw [same, two.page 0 (by simp)]
      simp
    rw [← same] at two
    have head : r.headOf .free (r.format m) = Link.first .nil [0] := by
      simp [same]
    have strung : r.Strung (r.format m) .free .nil .nil [0] := by
      refine ⟨⟨some, ?_, ?_, ?_⟩, trivial⟩ <;> rw [entry] <;> rfl
    have done := linked_cleared.chained.restring r.hasList_free (one.trans two) head strung
      (List.nodup_singleton 0) (fun _ _ _ _ _ => nofun) nofun
    refine (linked_cleared.relist r.hasList_free done).congr_lists fun list _ => ?_
    by_cases free : list = .free
    · rw [free, Function.update_self]
      exact if_pos ⟨rfl, some⟩
    · rw [Function.update_of_ne free]
      exact if_neg fun both => free both.1

theorem shows_format : r.Shows (r.format m) (PageMap.fresh r) where
  linked := linked_format
  descriptor i within := by
    have same : r.format m =
        r.putHead .free (.page 0) (r.putDescriptor 0 r.wholeRun (r.cleared m)) :=
      if_pos (by omega)
    rw [same, r.descriptor_putHead _ _ r.hasList_free, descriptor_putDescriptor]
    by_cases first : i = 0
    · rw [if_pos first, first, PageMap.use_fresh_zero]
      rfl
    · rw [if_neg first, descriptor_cleared within, PageMap.use_fresh_of_ne first]
      rfl
  row i _ := by
    obtain ⟨n, use⟩ := PageMap.use_fresh (r := r) i
    rw [use]
    rfl

end Region

namespace PageMap

variable {r : Region}

theorem tiled_fresh : Tiled r.pageCount (fresh r).use where
  fits i within := by
    by_cases first : i = 0
    · simp [first, Use.pages]
    · simpa [first, Use.pages] using Nat.le_of_lt within
  later i within j after before := by
    by_cases first : i = 0
    · rw [first, use_fresh_zero, use_fresh_of_ne (by omega)]
      rfl
    · rw [use_fresh_of_ne first, Use.pages] at before
      omega
  covered j within := ⟨0, Nat.zero_le j, by simpa [Use.pages] using within⟩

theorem sound_fresh : (fresh r).Sound r where
  tiled := tiled_fresh
  free i := by
    show i ∈ (if PageList.free = .free ∧ 0 < r.pageCount then [0] else []) ↔ _
    by_cases some : 0 < r.pageCount
    · rw [if_pos ⟨rfl, some⟩, List.mem_singleton]
      constructor
      · rintro rfl
        exact ⟨some, r.pageCount, some, use_fresh_zero⟩
      · rintro ⟨_, n, positive, same⟩
        by_contra other
        rw [use_fresh_of_ne other] at same
        cases same
        exact Nat.lt_irrefl 0 positive
    · rw [if_neg fun both => some both.2]
      exact iff_of_false nofun fun both => some (Nat.zero_lt_of_lt both.1)
  slot s _ i := by
    have none : (fresh r).lists (.slot s) = [] := by simp [fresh]
    obtain ⟨n, use⟩ := use_fresh (r := r) i
    rw [none, use]
    exact iff_of_false nofun fun ⟨_, _, _, same, _⟩ => nomatch same
  slab i _ c taken same := by
    obtain ⟨n, use⟩ := use_fresh (r := r) i
    rw [use] at same
    cases same

theorem not_inRow_fresh (x : Nat) : ¬(fresh r).InRow r x := by
  rintro ⟨i, _, lower, upper⟩
  obtain ⟨k, use⟩ := use_fresh (r := r) i
  rw [use] at upper
  exact Nat.not_lt.mpr lower upper

theorem not_holds_fresh (p n : Nat) : ¬(fresh r).Holds r p n := by
  rintro ⟨i, _, offset, _, lends⟩
  obtain ⟨k, use⟩ := use_fresh (r := r) i
  rw [use] at lends
  exact lends

end PageMap

end SlabAllocator
