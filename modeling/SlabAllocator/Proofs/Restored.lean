import SlabAllocator.Proofs.Snapshots

namespace SlabAllocator

namespace Memory

variable {m seen : Memory} {a x : Nat}

/-- Memories that read alike agree on the bytes that were read. -/
theorem byte_eq_of_read {width : Nat} (same : seen.read a width = m.read a width) (lower : a ≤ x)
    (upper : x < a + width) : seen.byte x = m.byte x := by
  rw [← seen.byte_write_read a width x, ← m.byte_write_read a width x, same]
  exact byte_write_of_inside seen m _ lower upper

theorem read_eq_of_word (same : UInt64.ofNat (seen.read a 8) = UInt64.ofNat (m.read a 8)) :
    seen.read a 8 = m.read a 8 := by
  have value := congrArg UInt64.toNat same
  simp only [UInt64.toNat_ofNat'] at value
  have first := m.read_lt a 8
  have second := seen.read_lt a 8
  omega

theorem read_eq_of_link
    (same : (⟨UInt32.ofNat (seen.read a 4)⟩ : Link) = ⟨UInt32.ofNat (m.read a 4)⟩) :
    seen.read a 4 = m.read a 4 := by
  have value := congrArg (fun link => link.raw.toNat) same
  simp only [UInt32.toNat_ofNat'] at value
  have first := m.read_lt a 4
  have second := seen.read_lt a 4
  omega

theorem read_eq_of_spare (same : UInt16.ofNat (seen.read a 2) = UInt16.ofNat (m.read a 2)) :
    seen.read a 2 = m.read a 2 := by
  have value := congrArg UInt16.toNat same
  simp only [UInt16.toNat_ofNat'] at value
  have first := m.read_lt a 2
  have second := seen.read_lt a 2
  omega

/-- Each byte of a descriptor is part of one of its fields; those of the links
are in the middle. -/
theorem byte_eq_beside_links {next prev : Link}
    (same : seen.descriptor a = { m.descriptor a with next, prev }) (lower : a ≤ x)
    (upper : x < a + 20) (beside : x < a + 8 ∨ a + 16 ≤ x) : seen.byte x = m.byte x := by
  obtain ⟨word, _, _, kind, list, spare⟩ := Descriptor.mk.inj same
  by_cases one : x < a + 8
  · exact byte_eq_of_read (read_eq_of_word word) lower one
  by_cases four : x = a + 16
  · rw [four]
    exact kind
  by_cases five : x = a + 17
  · rw [five]
    exact list
  exact byte_eq_of_read (read_eq_of_spare spare) (by omega) (by omega)

theorem byte_eq_of_descriptor (same : seen.descriptor a = m.descriptor a) (lower : a ≤ x)
    (upper : x < a + 20) : seen.byte x = m.byte x := by
  obtain ⟨_, next, prev, _, _, _⟩ := Descriptor.mk.inj same
  by_cases beside : x < a + 8 ∨ a + 16 ≤ x
  · exact byte_eq_beside_links same lower upper beside
  by_cases two : x < a + 12
  · exact byte_eq_of_read (read_eq_of_link next) (by omega) (by omega)
  · exact byte_eq_of_read (read_eq_of_link prev) (by omega) (by omega)

theorem byte_eq_of_words {count : Nat} (same : seen.words a count = m.words a count) (lower : a ≤ x)
    (upper : x < a + 8 * count) : seen.byte x = m.byte x := by
  induction count generalizing a with
  | zero => omega
  | succ count ih =>
    obtain ⟨first, rest⟩ := List.cons.inj same
    by_cases here : x < a + 8
    · exact byte_eq_of_read (read_eq_of_word first) lower here
    · exact ih rest (by omega) (by omega)

end Memory

namespace Region

/-- Outside a stretch of bytes a region is as it was before, and so is all that
its tables and its records say. -/
structure Restored (r : Region) (p size : Nat) (m after : Memory) : Prop where
  bytes : ∀ x, ¬(p ≤ x ∧ x < p + size) → after.byte x = m.byte x
  header : Header.load after r.base = Header.load m r.base
  heads : ∀ list, r.HasList list → r.headOf list after = r.headOf list m
  orders : ∀ list, r.HasList list → r.members list after = r.members list m
  descriptors : ∀ i < r.pageCount, r.descriptor i after = r.descriptor i m
  bitmaps : r.bitmaps after = r.bitmaps m

variable {r : Region} {m after : Memory} {t next : PageMap} {p size x : Nat}

namespace Shows

/-- The bytes that a map does not leave idle are fixed by it. -/
theorem byte_eq (one : r.Shows m t) (two : r.Shows after t) (busy : ¬r.Idle t x) :
    after.byte x = m.byte x := by
  rw [Idle, not_and_or, not_not, not_not] at busy
  rcases busy with (⟨list, known, lower, upper⟩ | ⟨i, within, lower, upper⟩) |
    ⟨i, within, lower, upper⟩
  · exact Memory.byte_eq_of_read (Memory.read_eq_of_link (one.headOf_eq two known)) lower upper
  · exact Memory.byte_eq_of_descriptor (one.descriptor_eq two within) lower upper
  · exact Memory.byte_eq_of_words ((two.row i within).trans (one.row i within).symm) lower upper

/-- The use of the pages tells the bitmaps, whatever the order of the lists. -/
theorem bitmaps_eq (one : r.Shows m t) (two : r.Shows after next) (sound : t.Sound r)
    (same : ∀ i < r.pageCount, next.use i = t.use i) : r.bitmaps after = r.bitmaps m := by
  refine List.map_congr_left fun i member => ?_
  have within := List.mem_range.mp member
  have spelled := sound.spelled within
  have role : (r.descriptor i after).role = (r.descriptor i m).role := by
    rw [two.role_eq within (by rwa [same i within]), same i within, one.role_eq within spelled]
  have here := one.row i within
  have there := two.row i within
  rw [same i within] at there
  unfold bitmap
  rw [role]
  split
  · rename_i shift small
    obtain ⟨taken, slab⟩ := (one.carvingOf?_iff sound within).mp
      (show r.carvingOf? (r.descriptor i m).role = some ⟨.small, shift⟩ by rw [small]; rfl)
    obtain ⟨_, kept⟩ := sound.slab i within _ taken slab
    have length : taken.words.length = r.geometry.bitmapWords shift := kept.length
    rw [slab, Use.row_small taken rfl, length] at here there
    exact there.trans here.symm
  · rfl

/-- A memory that shows the same map, and agrees on what the map leaves idle
beside a block, is restored but for that block. -/
theorem restored (one : r.Shows m t) (two : r.Shows after t) (sound : t.Sound r)
    (data : r.start ≤ p) (keeps : r.KeepsBeside t p size m after) : r.Restored p size m after := by
  have bytes : ∀ x, ¬(p ≤ x ∧ x < p + size) → after.byte x = m.byte x := by
    intro x beside
    by_cases idle : r.Idle t x
    · exact keeps x idle beside
    · exact one.byte_eq two idle
  -- The block lies among the pages, so the header is before it.
  have header : ∀ k < Layout.headerSize, after.byte (r.base + k) = m.byte (r.base + k) := by
    intro k inside
    have start := r.header_le_start
    exact bytes _ (by omega)
  refine ⟨bytes, ?_, fun list known => one.headOf_eq two known, fun list known => ?_,
    fun i within => one.descriptor_eq two within, one.bitmaps_eq two sound fun _ _ => rfl⟩
  · refine Header.load_congr (fun k spelled => header k spelled.own.1)
      (Memory.read_congr fun i within => ?_)
    rw [Nat.add_assoc]
    exact header _ (by unfold Header.freeAt Layout.headerSize; omega)
  · rw [two.linked.members_eq known, one.linked.members_eq known]

end Shows

end Region

namespace PageMap

/-- Two maps say the same of the pages and the lists that a region has. -/
structure Agrees (r : Region) (t next : PageMap) : Prop where
  use : next.use = t.use
  lists : ∀ list, r.HasList list → next.lists list = t.lists list

variable {r : Region} {m : Memory} {t next : PageMap}

theorem Agrees.shows_ (same : t.Agrees r next) (shown : r.Shows m next) : r.Shows m t where
  linked := shown.linked.congr_lists fun list known => (same.lists list known).symm
  descriptor i within := by rw [shown.descriptor i within, same.use]
  row i within := by
    rw [← same.use]
    exact shown.row i within

end PageMap

end SlabAllocator
