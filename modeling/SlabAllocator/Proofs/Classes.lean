import Mathlib.Data.Nat.Log
import SlabAllocator.Region.Chunk
import SlabAllocator.Proofs.Strung

namespace SlabAllocator

namespace Geometry

/-- The carving of one of the size classes: the chunk size is in the table of
classes, and the record is the one that pages of such chunks keep. -/
def IsClass (g : Geometry) (c : Carving) : Prop :=
  c = g.carving c.shift ∧ g.minShift ≤ c.shift ∧ c.shift < g.pageShift

variable {g : Geometry} {c : Carving} {shift size : Nat}

theorem isClass_carving (lower : g.minShift ≤ shift) (upper : shift < g.pageShift) :
    g.IsClass (g.carving shift) := ⟨rfl, lower, upper⟩

theorem kindOf_eq_small_iff : g.kindOf shift = .small ↔ shift < g.exactShift := by
  unfold kindOf
  split
  · rename_i small
    exact iff_of_true rfl small
  · rename_i large
    split <;> exact iff_of_false nofun large

theorem kindOf_eq_exact_iff : g.kindOf shift = .exact ↔ shift = g.exactShift := by
  unfold kindOf
  split
  · exact iff_of_false nofun (by omega)
  · split
    · rename_i same
      exact iff_of_true rfl same
    · rename_i other
      exact iff_of_false nofun other

theorem kindOf_eq_big_iff : g.kindOf shift = .big ↔ g.exactShift < shift := by
  unfold kindOf
  split
  · exact iff_of_false nofun (by omega)
  · split
    · exact iff_of_false nofun (by omega)
    · exact iff_of_true rfl (by omega)

theorem chunks_mul (upper : shift ≤ g.pageShift) : g.chunks shift * 2 ^ shift = g.pageSize := by
  rw [chunks, pageSize, ← Nat.pow_add, Nat.sub_add_cancel upper]

/-- A page has no more big chunks than half a word has bits. -/
theorem chunks_le_of_exactShift_lt (large : g.exactShift < shift) : g.chunks shift ≤ 32 := by
  unfold exactShift at large
  have most : 2 ^ (g.pageShift - shift) ≤ 2 ^ 5 := Nat.pow_le_pow_right Nat.two_pos (by omega)
  exact most

/-- Where the status word is the record, it is one word. -/
theorem recordWords_status (other : c.kind ≠ .small) : g.recordWords c = 1 := by
  unfold recordWords
  split
  · rename_i small
    exact absurd small other
  · rfl
  · rfl

theorem recordReserved_status (other : c.kind ≠ .small) : g.recordReserved c = 0 := by
  unfold recordReserved
  split
  · rename_i small
    exact absurd small other
  · rfl
  · rfl

theorem IsClass.kind_eq (cls : g.IsClass c) : c.kind = g.kindOf c.shift :=
  congrArg Carving.kind cls.1

/-- The three kinds of classes, by the number of their chunks. -/
theorem IsClass.kind_cases (cls : g.IsClass c) (valid : g.Valid) :
    (c.kind = .small ∧ c.shift < g.exactShift ∧ ∃ e, g.chunks c.shift = 64 * 2 ^ (e + 1)) ∨
      (c.kind = .exact ∧ c.shift = g.exactShift ∧ g.chunks c.shift = 64) ∨
      (c.kind = .big ∧ g.exactShift < c.shift ∧ 2 ≤ g.chunks c.shift ∧ g.chunks c.shift ≤ 32) := by
  have kind := cls.kind_eq
  obtain ⟨_, _, upper⟩ := cls
  obtain ⟨least, _, _, _⟩ := valid
  rw [kind, kindOf, exactShift, chunks]
  split
  · rename_i small
    obtain ⟨e, split⟩ := Nat.exists_eq_add_of_le (show 7 ≤ g.pageShift - c.shift by omega)
    exact Or.inl ⟨rfl, small, e, by rw [split, Nat.pow_add]; omega⟩
  · split
    · rename_i same
      have exponent : g.pageShift - c.shift = 6 := by omega
      exact Or.inr (Or.inl ⟨rfl, same, congrArg (2 ^ ·) exponent⟩)
    · have two : 2 ^ 1 ≤ 2 ^ (g.pageShift - c.shift) := Nat.pow_le_pow_right (by decide) (by omega)
      have large : g.exactShift < c.shift := by
        unfold exactShift
        omega
      exact Or.inr (Or.inr ⟨rfl, large, two, chunks_le_of_exactShift_lt large⟩)

theorem IsClass.small_shift (cls : g.IsClass c) (small : c.kind = .small) :
    c.shift < g.exactShift :=
  kindOf_eq_small_iff.mp (cls.kind_eq.symm.trans small)

theorem IsClass.exact_shift (cls : g.IsClass c) (exact_ : c.kind = .exact) :
    c.shift = g.exactShift :=
  kindOf_eq_exact_iff.mp (cls.kind_eq.symm.trans exact_)

theorem IsClass.big_shift (cls : g.IsClass c) (big : c.kind = .big) : g.exactShift < c.shift :=
  kindOf_eq_big_iff.mp (cls.kind_eq.symm.trans big)

theorem IsClass.big_chunks_le (cls : g.IsClass c) (big : c.kind = .big) : g.chunks c.shift ≤ 32 :=
  chunks_le_of_exactShift_lt (cls.big_shift big)

theorem IsClass.shift_lt (cls : g.IsClass c) (valid : g.Valid) : c.shift < 16 := by
  obtain ⟨_, _, upper⟩ := cls
  obtain ⟨_, most, _, _⟩ := valid
  omega

theorem IsClass.recordChunks_eq (cls : g.IsClass c) (valid : g.Valid) :
    g.recordChunks c = g.chunks c.shift := by
  rcases cls.kind_cases valid with ⟨kind, _, e, count⟩ | ⟨kind, _, count⟩ | ⟨kind, _⟩
  · rw [recordChunks, kind]
    show Word.width * g.bitmapWords c.shift = _
    rw [bitmapWords, count, Word.width, Nat.mul_div_cancel_left _ (by decide)]
  · rw [recordChunks, kind, count]
    rfl
  · rw [recordChunks, kind]

theorem IsClass.recordReserved_eq (cls : g.IsClass c) (valid : g.Valid) :
    g.recordReserved c = g.reservedChunks c.shift := by
  rcases cls.kind_cases valid with ⟨kind, _⟩ | ⟨kind, shift, _⟩ | ⟨kind, large, _⟩
  · rw [recordReserved, kind]
  · rw [recordReserved, kind, reservedChunks, if_neg (by omega)]
  · rw [recordReserved, kind, reservedChunks, if_neg (by omega)]

/-- The words of a record have a bit for each chunk. -/
theorem IsClass.chunks_le (cls : g.IsClass c) (valid : g.Valid) :
    g.chunks c.shift ≤ Word.width * g.recordWords c := by
  rcases cls.kind_cases valid with ⟨kind, _, e, count⟩ | ⟨kind, _, count⟩ | ⟨kind, _, _, count⟩
  · rw [recordWords, kind]
    show _ ≤ Word.width * g.bitmapWords c.shift
    rw [bitmapWords, count, Word.width, Nat.mul_div_cancel_left _ (by decide)]
  · rw [recordWords, kind, count]
    exact Nat.le_refl 64
  · rw [recordWords, kind]
    exact Nat.le_trans count (by decide : 32 ≤ Word.width * 1)

/-- A page of a class has room for two callers at least. -/
theorem IsClass.reserved_add_two_le (cls : g.IsClass c) (valid : g.Valid) :
    g.recordReserved c + 2 ≤ g.chunks c.shift := by
  rcases cls.kind_cases valid with ⟨kind, small, e, count⟩ | ⟨kind, _, count⟩ | ⟨kind, _, count, _⟩
  · rw [recordReserved, kind]
    show g.reservedChunks c.shift + 2 ≤ _
    rw [reservedChunks, if_pos small, count]
    have bytes : 64 * 2 ^ (e + 1) / 8 = 8 * 2 ^ (e + 1) := by omega
    have positive := Nat.two_pow_pos (e + 1)
    have chunk := Nat.two_pow_pos c.shift
    -- Even chunks of one byte take up no more than an eighth of the page.
    have fewer : (8 * 2 ^ (e + 1) + 2 ^ c.shift - 1) / 2 ^ c.shift ≤ 8 * 2 ^ (e + 1) := by
      apply Nat.div_le_of_le_mul
      obtain ⟨x, bytes⟩ := Nat.exists_eq_add_of_le' (show 1 ≤ 8 * 2 ^ (e + 1) by omega)
      obtain ⟨y, size⟩ := Nat.exists_eq_add_of_le' chunk
      rw [bytes, size, Nat.mul_add, Nat.add_mul]
      omega
    rw [bytes]
    omega
  · rw [recordReserved, kind, count]
    exact (by decide : 0 + 2 ≤ 64)
  · rw [recordReserved, kind]
    dsimp only
    omega

/-- The record of a page of small chunks lies in the chunks that are set aside
for it. -/
theorem IsClass.record_le_reserved (cls : g.IsClass c) (kind : c.kind = .small) :
    8 * g.recordWords c ≤ g.recordReserved c * 2 ^ c.shift := by
  have small := cls.small_shift kind
  rw [recordWords, recordReserved, kind]
  show 8 * g.bitmapWords c.shift ≤ g.reservedChunks c.shift * 2 ^ c.shift
  rw [bitmapWords, Word.width, reservedChunks, if_pos small]
  have reach := le_alignUp (g.chunks c.shift / 8) (Nat.two_pow_pos c.shift)
  have most := Nat.mul_le_mul_right (2 ^ c.shift)
    (Nat.le_max_right 1 ((g.chunks c.shift / 8 + 2 ^ c.shift - 1) / 2 ^ c.shift))
  unfold alignUp at reach
  omega

theorem IsClass.chunk_le (cls : g.IsClass c) {k : Nat} (chunk : k < g.chunks c.shift) :
    k * 2 ^ c.shift + 2 ^ c.shift ≤ g.pageSize := by
  have whole := chunks_mul (Nat.le_of_lt cls.2.2)
  have part := Nat.mul_le_mul_right (2 ^ c.shift) (show k + 1 ≤ _ from chunk)
  rwa [Nat.add_mul, Nat.one_mul, whole] at part

theorem IsClass.chunk_lt (cls : g.IsClass c) {k : Nat} (chunk : k < g.chunks c.shift) :
    k * 2 ^ c.shift < g.pageSize := by
  have reach := cls.chunk_le chunk
  have size := Nat.two_pow_pos c.shift
  omega

/-- The class that serves a request below half a page is in the table. -/
theorem isClass_shiftFor (valid : g.Valid) (below : size < g.maxSize) :
    g.IsClass (g.carving (g.shiftFor size)) := by
  obtain ⟨least, _, _, order⟩ := valid
  have half : g.maxSize = 2 ^ (g.pageShift - 1) := by
    rw [maxSize, pageSize, ← Nat.pow_div (by omega) (by decide)]
  have reach : ceilLog2 size ≤ g.pageShift - 1 := by
    rw [ceilLog2_le_iff, ← half]
    omega
  exact isClass_carving (Nat.le_max_right _ _) (by unfold shiftFor; omega)

theorem IsClass.eq_of_slot {d : Carving} (one : g.IsClass c) (two : g.IsClass d)
    (slot : g.slotOf c.shift = g.slotOf d.shift) : c = d := by
  obtain ⟨formOne, lowerOne, _⟩ := one
  obtain ⟨formTwo, lowerTwo, _⟩ := two
  have shift : c.shift = d.shift := by
    unfold slotOf at slot
    omega
  rw [formOne, formTwo, shift]

end Geometry

namespace Region

variable {r : Region} {c : Carving} {m : Memory}

theorem hasList_slotOf (cls : r.geometry.IsClass c) :
    r.HasList (.slot (r.geometry.slotOf c.shift)) := by
  obtain ⟨_, lower, upper⟩ := cls
  show r.geometry.slotOf c.shift < r.slotCount
  rw [slotCount_eq, Geometry.slotOf, Geometry.slotCount]
  omega

theorem slotIndex_eq (cls : r.geometry.IsClass c) :
    r.slotIndex c.shift = .ok (r.geometry.slotOf c.shift) := by
  have known : r.geometry.slotOf c.shift < r.slotCount := hasList_slotOf cls
  simp [slotIndex, require_of cls.2.1, require_of known]

theorem checkRecord_eq (cls : r.geometry.IsClass c) : r.checkRecord c = .ok () := by
  have room := cls.reserved_add_two_le r.valid
  have chunks := cls.recordChunks_eq r.valid
  rw [checkRecord]
  split
  · rw [require_of (Nat.le_of_lt cls.2.2), ok_bind, slotIndex_eq cls, ok_bind,
      require_of (by omega)]
  · rfl
  · rfl

theorem record_eq {i : Nat} (cls : r.geometry.IsClass c) (within : i < r.pageCount) :
    r.record c i m = .ok (r.recordOf c i m) := by
  simp [record, checkRecord_eq cls, require_of within]

end Region

end SlabAllocator
