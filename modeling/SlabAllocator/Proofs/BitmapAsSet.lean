import Mathlib.Data.Finset.Card
import Mathlib.Data.Finset.Range
import SlabAllocator.Bitmap

namespace SlabAllocator

namespace Bitmap

/-- The chunks in use, the reserved ones among them. -/
def chunks (b : Bitmap) : Finset Nat :=
  (Finset.range b.row.capacity).filter fun chunk => b.row.has chunk = true

/-- The bitmaps that come of one when chunks are taken and taken back, in any
order. Reserved chunks are not taken back. -/
inductive Later (b : Bitmap) : Bitmap → Prop
  | start : Later b b
  | take {s : Bitmap} (reached : Later b s) : Later b s.take.2
  | release {s after : Bitmap} {chunk : Nat} {taken : Bool} (reached : Later b s)
      (lower : b.reserved ≤ chunk) (upper : chunk < Word.width * b.row.words.length)
      (ran : s.release chunk = .ok (taken, after)) : Later b after

/-- A bitmap of `count` words is a set of numbers below 64 times as many, which
the first `reserved` of them never leave. Its size is told where 32 bits hold
it. -/
structure ActsAsSet (b : Bitmap) (count reserved : Nat) : Prop where
  shape : b.row.words.length = count ∧ b.reserved = reserved
  kept : Finset.range reserved ⊆ b.chunks
  within : b.chunks ⊆ Finset.range (Word.width * count)
  take_none : b.take.1 = none ↔ b.chunks = Finset.range (Word.width * count)
  take_none_same : b.take.1 = none → b.take.2 = b
  take_some : ∀ chunk full, b.take.1 = some (chunk, full) →
    chunk < Word.width * count ∧ chunk ∉ b.chunks ∧ (∀ d < chunk, d ∈ b.chunks) ∧
      b.take.2.chunks = insert chunk b.chunks ∧
      (full = true ↔ b.take.2.chunks = Finset.range (Word.width * count))
  release : ∀ chunk, reserved ≤ chunk → chunk < Word.width * count →
    ∃ after, b.release chunk = .ok (decide (chunk ∈ b.chunks), after) ∧
      after.chunks = b.chunks.erase chunk
  isTaken : ∀ chunk < Word.width * count, b.isTaken chunk = .ok (decide (chunk ∈ b.chunks))
  isEmpty : b.isEmpty = true ↔ b.chunks = Finset.range reserved
  used : b.chunks.card < 2 ^ 32 → b.used = .ok (b.chunks.card - reserved)

variable {b : Bitmap} {chunk reserved : Nat}

theorem mem_chunks : chunk ∈ b.chunks ↔ b.row.has chunk = true := by
  rw [chunks, Finset.mem_filter, Finset.mem_range]
  exact and_iff_right_of_imp ChunkSet.lt_capacity_of_has

theorem has_eq_decide : b.row.has chunk = decide (chunk ∈ b.chunks) := by
  rw [Bool.eq_iff_iff, decide_eq_true_iff, mem_chunks]

theorem chunks_subset (b : Bitmap) : b.chunks ⊆ Finset.range b.row.capacity :=
  Finset.filter_subset ..

theorem chunkCount_eq (b : Bitmap) : b.chunkCount = b.row.capacity := Nat.mul_comm ..

theorem card_chunks (b : Bitmap) : b.chunks.card = b.row.card := by
  rw [ChunkSet.card_eq_countP, List.countP_eq_length_filter]
  have listed : b.chunks = ((List.range b.row.capacity).filter b.row.has).toFinset := by
    ext chunk
    rw [mem_chunks, List.mem_toFinset, List.mem_filter, List.mem_range]
    exact (and_iff_right_of_imp ChunkSet.lt_capacity_of_has).symm
  rw [listed, List.toFinset_card_of_nodup (List.nodup_range.filter _)]

theorem chunks_eq_range_iff {n : Nat} (reach : n ≤ b.row.capacity) :
    b.chunks = Finset.range n ↔ ∀ c < b.row.capacity, b.row.has c = decide (c < n) := by
  constructor
  · intro same c _
    rw [has_eq_decide, same]
    exact decide_eq_decide.mpr Finset.mem_range
  · intro every
    ext c
    rw [mem_chunks, Finset.mem_range]
    constructor
    · intro taken
      rw [every c (ChunkSet.lt_capacity_of_has taken)] at taken
      exact of_decide_eq_true taken
    · intro below
      rw [every c (Nat.lt_of_lt_of_le below reach)]
      exact decide_eq_true below

theorem isFull_iff_chunks : b.row.isFull = true ↔ b.chunks = Finset.range b.row.capacity := by
  rw [ChunkSet.isFull_iff, chunks_eq_range_iff (Nat.le_refl _)]
  exact forall₂_congr fun c within => by rw [decide_eq_true within]

theorem chunks_insert (within : chunk < b.row.capacity) :
    chunks { b with row := b.row.insert chunk } = insert chunk b.chunks := by
  ext c
  rw [chunks, Finset.mem_filter, Finset.mem_range, ChunkSet.capacity_insert, Finset.mem_insert,
    mem_chunks]
  constructor
  · rintro ⟨inside, taken⟩
    rw [ChunkSet.has_insert inside, Bool.or_eq_true, decide_eq_true_iff] at taken
    exact taken.symm.imp_left Eq.symm
  · intro member
    have inside : c < b.row.capacity := by
      rcases member with rfl | taken
      · exact within
      · exact ChunkSet.lt_capacity_of_has taken
    rw [ChunkSet.has_insert inside, Bool.or_eq_true, decide_eq_true_iff]
    exact ⟨inside, member.symm.imp_right Eq.symm⟩

theorem chunks_erase (b : Bitmap) (chunk : Nat) :
    chunks { b with row := b.row.erase chunk } = b.chunks.erase chunk := by
  ext c
  rw [chunks, Finset.mem_filter, Finset.mem_range, ChunkSet.capacity_erase, Finset.mem_erase,
    mem_chunks, and_comm]
  constructor
  · rintro ⟨taken, inside⟩
    rw [ChunkSet.has_erase inside, Bool.and_eq_true, Bool.not_eq_true', decide_eq_false_iff_not]
      at taken
    exact ⟨Ne.symm taken.2, taken.1⟩
  · rintro ⟨other, taken⟩
    have inside := ChunkSet.lt_capacity_of_has taken
    rw [ChunkSet.has_erase inside, Bool.and_eq_true, Bool.not_eq_true', decide_eq_false_iff_not]
    exact ⟨⟨taken, Ne.symm other⟩, inside⟩

/-- Taking a chunk by way of the row as a whole. -/
theorem take_eq (b : Bitmap) : b.take =
    match b.row.takeLowest? with
    | none => (none, b)
    | some (chunk, after) => (some (chunk, after.isFull), { b with row := after }) := by
  rw [take, takeIn?_eq]
  cases b.row.takeLowest? <;> rfl

/-- The chunk that is taken is the least one that is not in use. -/
theorem take_cases (b : Bitmap) :
    (b.take = (none, b) ∧ b.row.isFull = true) ∨
      ∃ chunk < b.row.capacity, chunk ∉ b.chunks ∧ (∀ d < chunk, d ∈ b.chunks) ∧
        b.take = (some (chunk, (b.row.insert chunk).isFull),
          { b with row := b.row.insert chunk }) := by
  rw [take_eq, ChunkSet.takeLowest?]
  cases found : b.row.firstMissing? with
  | none =>
    rw [ChunkSet.firstMissing?_eq_none_iff, ← ChunkSet.isFull_iff] at found
    exact Or.inl ⟨rfl, found⟩
  | some chunk =>
    obtain ⟨within, missing, before⟩ := ChunkSet.has_of_firstMissing? found
    refine Or.inr ⟨chunk, within, ?_, fun d below => mem_chunks.mpr (before d below), rfl⟩
    rw [mem_chunks, missing]
    exact Bool.false_ne_true

theorem release_eq (callers : b.reserved ≤ chunk) (within : chunk < b.row.capacity) :
    ∃ after, b.release chunk = .ok (decide (chunk ∈ b.chunks), after) ∧
      after.chunks = b.chunks.erase chunk ∧ after.row.words.length = b.row.words.length ∧
      after.reserved = b.reserved := by
  have allowed : chunk < b.chunkCount ∧ ¬b.isReserved chunk = true := by
    rw [chunkCount_eq, isReserved, decide_eq_true_iff]
    exact ⟨within, Nat.not_lt.mpr callers⟩
  rw [release, require_of allowed, ok_bind, ChunkSet.release?, has_eq_decide]
  by_cases taken : chunk ∈ b.chunks
  · rw [decide_eq_true taken, if_pos rfl]
    exact ⟨_, rfl, chunks_erase b chunk, by simp [ChunkSet.erase], rfl⟩
  · rw [decide_eq_false taken, if_neg Bool.false_ne_true]
    exact ⟨b, rfl, (Finset.erase_eq_of_notMem taken).symm, rfl, rfl⟩

theorem take_none_iff : b.take.1 = none ↔ b.chunks = Finset.range b.row.capacity := by
  rcases b.take_cases with ⟨run, full⟩ | ⟨chunk, within, missing, _, run⟩
  · rw [run, ← isFull_iff_chunks]
    exact iff_of_true rfl full
  · rw [run]
    refine iff_of_false (by simp) fun all => missing ?_
    rw [all]
    exact Finset.mem_range.mpr within

theorem take_of_none (none : b.take.1 = none) : b.take.2 = b := by
  rcases b.take_cases with ⟨run, _⟩ | ⟨chunk, _, _, _, run⟩
  · rw [run]
  · rw [run] at none
    cases none

theorem take_of_some {full : Bool} (some : b.take.1 = some (chunk, full)) :
    chunk < b.row.capacity ∧ chunk ∉ b.chunks ∧ (∀ d < chunk, d ∈ b.chunks) ∧
      b.take.2.chunks = insert chunk b.chunks ∧
      (full = true ↔ b.take.2.chunks = Finset.range b.row.capacity) := by
  rcases b.take_cases with ⟨run, _⟩ | ⟨lowest, within, missing, before, run⟩
  · rw [run] at some
    cases some
  · rw [run] at some ⊢
    cases some
    refine ⟨within, missing, before, chunks_insert within, ?_⟩
    simpa using @isFull_iff_chunks { b with row := b.row.insert chunk }

/-- Taking a chunk takes none out, and the bitmap keeps its shape. -/
theorem take_grows (b : Bitmap) :
    b.take.2.row.words.length = b.row.words.length ∧ b.take.2.reserved = b.reserved ∧
      b.chunks ⊆ b.take.2.chunks := by
  rcases b.take_cases with ⟨run, _⟩ | ⟨chunk, within, _, _, run⟩
  · rw [run]
    exact ⟨rfl, rfl, fun _ => id⟩
  · rw [run]
    refine ⟨by simp [ChunkSet.insert], rfl, ?_⟩
    dsimp only
    rw [chunks_insert within]
    exact Finset.subset_insert ..

/-- The 32 bits of the count are enough while fewer than `2 ^ 32` chunks are in use. -/
theorem used_of_few (kept : Finset.range b.reserved ⊆ b.chunks) (few : b.chunks.card < 2 ^ 32) :
    b.used = .ok (b.chunks.card - b.reserved) := by
  have least := Finset.card_le_card kept
  rw [Finset.card_range] at least
  simp [used, Machine.card_eq, ← card_chunks, Machine.fit_of few, Machine.sub_of least]

theorem used_of_many (many : 2 ^ 32 ≤ b.chunks.card) : b.used = .error .overflow := by
  rw [used, Machine.card_eq, ← card_chunks, Machine.fit_of_large many]
  rfl

/-- What each call does follows from the reserved chunks being in use. -/
theorem actsAsSet {count : Nat} (length : b.row.words.length = count) (own : b.reserved = reserved)
    (kept : Finset.range reserved ⊆ b.chunks) : b.ActsAsSet count reserved := by
  subst length own
  have reach : b.reserved ≤ b.row.capacity :=
    Finset.range_subset_range.mp (kept.trans b.chunks_subset)
  refine ⟨⟨rfl, rfl⟩, kept, b.chunks_subset, take_none_iff, take_of_none,
    fun _ _ => take_of_some, fun chunk lower upper => ?_, fun chunk within => ?_, ?_, used_of_few kept⟩
  · obtain ⟨after, ran, left, _⟩ := release_eq lower upper
    exact ⟨after, ran, left⟩
  · rw [isTaken, require_of (by rw [chunkCount_eq]; exact within), ok_bind, has_eq_decide]
    rfl
  · rw [isEmpty_eq, ChunkSet.holdsOnly_iff, chunks_eq_range_iff reach]

/-- No call puts a reserved chunk to use or takes it back. -/
theorem Later.actsAsSet {s : Bitmap} (later : Later b s)
    (kept : Finset.range b.reserved ⊆ b.chunks) :
    s.ActsAsSet b.row.words.length b.reserved := by
  induction later with
  | start => exact Bitmap.actsAsSet rfl rfl kept
  | @take s _ ih =>
    obtain ⟨length, own, more⟩ := s.take_grows
    exact Bitmap.actsAsSet (length.trans ih.shape.1) (own.trans ih.shape.2) (ih.kept.trans more)
  | @release s after chunk taken _ lower upper ran ih =>
    obtain ⟨count, own⟩ := ih.shape
    obtain ⟨left, back, chunks, length, same⟩ :=
      release_eq (b := s) (own ▸ lower) (by rwa [ChunkSet.capacity, count])
    rw [back] at ran
    cases ran
    refine Bitmap.actsAsSet (length.trans count) (same.trans own) fun c reserved => ?_
    rw [chunks]
    refine Finset.mem_erase.mpr ⟨?_, ih.kept reserved⟩
    have below := Finset.mem_range.mp reserved
    omega

@[simp] theorem capacity_init (words : List Word) (reserved : Nat) :
    (init words reserved).row.capacity = Word.width * words.length := by
  simp [row_init]

theorem chunks_init {words : List Word} (small : reserved < Word.width * words.length) :
    (init words reserved).chunks = Finset.range reserved := by
  rw [chunks_eq_range_iff (by simpa using small.le), capacity_init, row_init]
  exact fun c within => ChunkSet.has_initial within

/-- A fresh bitmap hands out the chunk behind the reserved ones. -/
theorem chunks_take_init {words : List Word} (small : reserved < Word.width * words.length) :
    (init words reserved).take.2.chunks = Finset.range (reserved + 1) := by
  rcases (init words reserved).take_cases with ⟨_, full⟩ | ⟨chunk, within, missing, before, run⟩
  · rw [isFull_iff_chunks, chunks_init small, capacity_init] at full
    have count := congrArg Finset.card full
    rw [Finset.card_range, Finset.card_range] at count
    omega
  · rw [chunks_init small, Finset.mem_range] at missing
    have behind : chunk = reserved := by
      by_contra other
      have here := before reserved (by omega)
      rw [chunks_init small] at here
      simp at here
    rw [run]
    dsimp only
    rw [chunks_insert within, chunks_init small, behind, Finset.range_add_one]

/-- A fresh bitmap of `2 ^ 32` chunks. All but the last one are reserved. -/
def oneLeft : Bitmap := init (List.replicate (2 ^ 26) 0) (2 ^ 32 - 1)

end Bitmap

end SlabAllocator
