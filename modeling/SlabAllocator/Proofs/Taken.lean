import SlabAllocator.Proofs.Classes

namespace SlabAllocator

/-- The record of a page of a class: it has the words of the class, the chunks
set aside for the record are taken, and nothing beyond the last chunk is. -/
structure Geometry.Fits (g : Geometry) (c : Carving) (taken : ChunkSet) : Prop where
  length : taken.words.length = g.recordWords c
  reserved : ∀ k < g.recordReserved c, taken.has k = true
  within : ∀ k, taken.has k = true → k < g.chunks c.shift

/-- The record of a page in use: some caller holds a chunk. -/
structure Geometry.Kept (g : Geometry) (c : Carving) (taken : ChunkSet) : Prop extends
    g.Fits c taken where
  used : ∃ k, g.recordReserved c ≤ k ∧ taken.has k = true

/-- The lowest chunk of a page that is not taken; a caller may have it. -/
structure Geometry.LowestFree (g : Geometry) (c : Carving) (taken : ChunkSet) (k : Nat) : Prop where
  caller : g.recordReserved c ≤ k
  chunk : k < g.chunks c.shift
  missing : taken.has k = false
  before : ∀ j < k, taken.has j = true

namespace Geometry

variable {g : Geometry} {c : Carving} {taken : ChunkSet} {k : Nat}

theorem Fits.capacity_eq (fits : g.Fits c taken) :
    taken.capacity = Word.width * g.recordWords c := by
  rw [ChunkSet.capacity, fits.length]

theorem Fits.lt_capacity (fits : g.Fits c taken) (cls : g.IsClass c) (valid : g.Valid)
    (chunk : k < g.chunks c.shift) : k < taken.capacity := by
  have room := cls.chunks_le valid
  rw [fits.capacity_eq]
  omega

/-- Records that fit one class are told by their chunks. -/
theorem Fits.ext {other : ChunkSet} (one : g.Fits c taken) (two : g.Fits c other)
    (same : ∀ k < g.chunks c.shift, taken.has k = other.has k) : taken = other := by
  refine ChunkSet.ext (one.length.trans two.length.symm) fun k _ => ?_
  by_cases chunk : k < g.chunks c.shift
  · exact same k chunk
  · have left : taken.has k ≠ true := fun has => chunk (one.within k has)
    have right : other.has k ≠ true := fun has => chunk (two.within k has)
    rw [Bool.eq_false_iff.mpr left, Bool.eq_false_iff.mpr right]

theorem fits_initial (cls : g.IsClass c) (valid : g.Valid) {n : Nat}
    (lower : g.recordReserved c ≤ n) (upper : n ≤ g.chunks c.shift) :
    g.Fits c (ChunkSet.initial (g.recordWords c) n) where
  length := by simp [ChunkSet.initial]
  reserved k below := by
    have room := cls.chunks_le valid
    rw [ChunkSet.has_initial (by omega)]
    exact decide_eq_true (by omega)
  within k has := by
    by_cases inside : k < Word.width * g.recordWords c
    · rw [ChunkSet.has_initial inside] at has
      have below := of_decide_eq_true has
      omega
    · rw [ChunkSet.has_of_capacity_le (by simpa using inside)] at has
      cases has

/-- The first chunks of a page and no others. -/
theorem has_initial_iff (cls : g.IsClass c) (valid : g.Valid) {n : Nat}
    (upper : n ≤ g.chunks c.shift) :
    (ChunkSet.initial (g.recordWords c) n).has k = true ↔ k < n := by
  have room := cls.chunks_le valid
  by_cases inside : k < Word.width * g.recordWords c
  · rw [ChunkSet.has_initial inside, decide_eq_true_iff]
  · rw [ChunkSet.has_of_capacity_le (by simpa using inside)]
    simp only [Bool.false_eq_true, false_iff]
    omega

theorem fits_full (cls : g.IsClass c) (valid : g.Valid) : g.Fits c (g.fullRecord c) := by
  have chunks := cls.recordChunks_eq valid
  have room := cls.reserved_add_two_le valid
  exact fits_initial cls valid (by omega) (by omega)

theorem fits_empty (cls : g.IsClass c) (valid : g.Valid) : g.Fits c (g.emptyRecord c) := by
  have room := cls.reserved_add_two_le valid
  exact fits_initial cls valid (Nat.le_refl _) (by omega)

theorem has_fullRecord (cls : g.IsClass c) (valid : g.Valid) :
    (g.fullRecord c).has k = true ↔ k < g.chunks c.shift := by
  have chunks := cls.recordChunks_eq valid
  rw [fullRecord, has_initial_iff cls valid (by omega), chunks]

theorem has_emptyRecord (cls : g.IsClass c) (valid : g.Valid) :
    (g.emptyRecord c).has k = true ↔ k < g.recordReserved c := by
  have room := cls.reserved_add_two_le valid
  rw [emptyRecord, has_initial_iff cls valid (by omega)]

theorem Fits.eq_full_iff (fits : g.Fits c taken) (cls : g.IsClass c) (valid : g.Valid) :
    taken = g.fullRecord c ↔ ∀ k < g.chunks c.shift, taken.has k = true := by
  constructor
  · rintro rfl k chunk
    exact (has_fullRecord cls valid).mpr chunk
  · intro every
    refine fits.ext (fits_full cls valid) fun k chunk => ?_
    rw [every k chunk, (has_fullRecord cls valid).mpr chunk]

theorem Fits.eq_empty_iff (fits : g.Fits c taken) (cls : g.IsClass c) (valid : g.Valid) :
    taken = g.emptyRecord c ↔ ∀ k, taken.has k = true → k < g.recordReserved c := by
  constructor
  · rintro rfl k has
    exact (has_emptyRecord cls valid).mp has
  · intro none
    refine fits.ext (fits_empty cls valid) fun k _ => Bool.eq_iff_iff.mpr ?_
    rw [has_emptyRecord cls valid]
    exact ⟨none k, fits.reserved k⟩

theorem Fits.kept_of_ne_empty (fits : g.Fits c taken) (cls : g.IsClass c) (valid : g.Valid)
    (some : taken ≠ g.emptyRecord c) : g.Kept c taken := by
  refine ⟨fits, ?_⟩
  by_contra none
  push Not at none
  refine some ((fits.eq_empty_iff cls valid).mpr fun k has => ?_)
  by_contra large
  exact none k (by omega) has

theorem Fits.has_insert (fits : g.Fits c taken) (cls : g.IsClass c) (valid : g.Valid)
    (chunk : k < g.chunks c.shift) (j : Nat) :
    (taken.insert k).has j = true ↔ taken.has j = true ∨ j = k := by
  by_cases inside : j < taken.capacity
  · rw [ChunkSet.has_insert inside, Bool.or_eq_true, decide_eq_true_iff, eq_comm (a := k)]
  · have room := fits.lt_capacity cls valid chunk
    rw [ChunkSet.has_of_capacity_le (by simpa using inside),
      ChunkSet.has_of_capacity_le (by omega)]
    simp only [Bool.false_eq_true, false_or, false_iff]
    omega

theorem Fits.insert (fits : g.Fits c taken) (cls : g.IsClass c) (valid : g.Valid)
    (chunk : k < g.chunks c.shift) : g.Fits c (taken.insert k) where
  length := by rw [ChunkSet.insert, List.length_modify, fits.length]
  reserved j below := (fits.has_insert cls valid chunk j).mpr (Or.inl (fits.reserved j below))
  within j has := by
    rcases (fits.has_insert cls valid chunk j).mp has with old | rfl
    · exact fits.within j old
    · exact chunk

theorem has_erase (taken : ChunkSet) (k j : Nat) :
    (taken.erase k).has j = true ↔ taken.has j = true ∧ j ≠ k := by
  by_cases inside : j < taken.capacity
  · rw [ChunkSet.has_erase inside, Bool.and_eq_true, Bool.not_eq_true', decide_eq_false_iff_not,
      ne_eq, eq_comm (a := k)]
  · rw [ChunkSet.has_of_capacity_le (by simpa using inside),
      ChunkSet.has_of_capacity_le (by omega)]
    simp

theorem Fits.erase (fits : g.Fits c taken) (caller : g.recordReserved c ≤ k) :
    g.Fits c (taken.erase k) where
  length := by rw [ChunkSet.erase, List.length_modify, fits.length]
  reserved j below := (has_erase taken k j).mpr ⟨fits.reserved j below, by omega⟩
  within j has := fits.within j ((has_erase taken k j).mp has).1

/-- A page that is not full hands out its lowest free chunk, which no record
takes up. -/
theorem Fits.takeLowest? (fits : g.Fits c taken) (cls : g.IsClass c) (valid : g.Valid)
    (room : taken ≠ g.fullRecord c) :
    ∃ k, taken.takeLowest? = some (k, taken.insert k) ∧ g.LowestFree c taken k := by
  obtain ⟨hole, chunk, free⟩ : ∃ k < g.chunks c.shift, taken.has k ≠ true := by
    by_contra none
    push Not at none
    exact room ((fits.eq_full_iff cls valid).mpr none)
  cases found : taken.firstMissing? with
  | none =>
    have every := (ChunkSet.firstMissing?_eq_none_iff taken).mp found
    exact absurd (every hole (fits.lt_capacity cls valid chunk)) free
  | some k =>
    obtain ⟨_, missing, before⟩ := ChunkSet.has_of_firstMissing? found
    -- The chunk that is found is no later than some free chunk of the page, so it is one.
    have least : k ≤ hole := by
      by_contra above
      exact free (before hole (by omega))
    refine ⟨k, by rw [ChunkSet.takeLowest?, found]; rfl, ?_, by omega, missing, before⟩
    by_contra below
    rw [fits.reserved k (by omega)] at missing
    cases missing

/-- The record of a page whose first chunk was handed out. -/
theorem kept_insert (fits : g.Fits c taken) (cls : g.IsClass c) (valid : g.Valid)
    (caller : g.recordReserved c ≤ k) (chunk : k < g.chunks c.shift) :
    g.Kept c (taken.insert k) :=
  ⟨fits.insert cls valid chunk, k, caller, (fits.has_insert cls valid chunk k).mpr (Or.inr rfl)⟩

/-- The record of a page whose first chunk was handed out and no other. -/
def firstRecord (g : Geometry) (c : Carving) : ChunkSet :=
  (g.emptyRecord c).insert (g.recordReserved c)

theorem has_firstRecord (cls : g.IsClass c) (valid : g.Valid) (j : Nat) :
    (g.firstRecord c).has j = true ↔ j ≤ g.recordReserved c := by
  have room := cls.reserved_add_two_le valid
  rw [firstRecord, (fits_empty cls valid).has_insert cls valid (by omega), has_emptyRecord cls valid]
  omega

theorem kept_firstRecord (cls : g.IsClass c) (valid : g.Valid) : g.Kept c (g.firstRecord c) := by
  have room := cls.reserved_add_two_le valid
  exact kept_insert (fits_empty cls valid) cls valid (Nat.le_refl _) (by omega)

/-- A page with one chunk handed out has room for more. -/
theorem firstRecord_ne_full (cls : g.IsClass c) (valid : g.Valid) :
    g.firstRecord c ≠ g.fullRecord c := by
  intro full
  have room := cls.reserved_add_two_le valid
  have every := ((kept_firstRecord cls valid).eq_full_iff cls valid).mp full
  have next := (has_firstRecord cls valid _).mp (every (g.recordReserved c + 1) (by omega))
  omega

/-- A fresh page hands out the first chunk that its record leaves. -/
theorem firstChunk_eq (r : Region) (cls : r.geometry.IsClass c) :
    r.firstChunk c = (r.geometry.recordReserved c, r.geometry.firstRecord c) := by
  have fits := fits_empty cls r.valid
  have room := cls.reserved_add_two_le r.valid
  have open_ : r.geometry.emptyRecord c ≠ r.geometry.fullRecord c := by
    intro same
    have every := (fits.eq_full_iff cls r.valid).mp same
    have last := (has_emptyRecord cls r.valid).mp
      (every (r.geometry.recordReserved c) (by omega))
    omega
  obtain ⟨k, found, caller, _, _, before⟩ := fits.takeLowest? cls r.valid open_
  have least : k = r.geometry.recordReserved c := by
    by_contra other
    have taken := (has_emptyRecord cls r.valid).mp
      (before (r.geometry.recordReserved c) (by omega))
    omega
  rw [Region.firstChunk, found, least]
  rfl

theorem Fits.words_eq (fits : g.Fits c taken) (kind : c.kind ≠ .small) :
    taken.words = [taken.words.headD 0] := by
  have length := fits.length
  obtain ⟨w, same⟩ := List.length_eq_one_iff.mp (length.trans (recordWords_status kind))
  rw [same]
  rfl

/-- Where the status word is the record, it has no bit beyond the last chunk. -/
theorem Fits.headD_lt (fits : g.Fits c taken) (kind : c.kind ≠ .small) :
    (taken.words.headD 0).toNat < 2 ^ g.chunks c.shift := by
  have words := fits.words_eq kind
  apply Nat.lt_pow_two_of_testBit
  intro i beyond
  by_cases inside : i < Word.width
  · rw [← Word.has_eq_testBit _ inside]
    by_contra bit
    have has : taken.has i = true := by
      rw [ChunkSet.has, words, Nat.div_eq_of_lt inside, Nat.mod_eq_of_lt inside]
      simpa using bit
    have := fits.within i has
    omega
  · unfold Word.width at inside
    exact Nat.testBit_lt_two_pow (Nat.lt_of_lt_of_le (UInt64.toNat_lt _)
      (Nat.pow_le_pow_right (by decide) (by omega)))

end Geometry

end SlabAllocator
