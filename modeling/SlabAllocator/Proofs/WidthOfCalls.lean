import SlabAllocator.Machine.Pool
import SlabAllocator.Proofs.InWidth
import SlabAllocator.Proofs.Requests

namespace SlabAllocator

namespace Region

variable {r : Region} {m : Memory} {c : Carving} {i shift : Nat}

/-- A page of a class is searched by the carving of a class. -/
theorem Classed.listed (classed : r.Classed m) (cls : r.geometry.IsClass (r.geometry.carving shift))
    (within : i < r.pageCount) (listed : r.listedCarving? shift i m = some c) :
    r.geometry.IsClass c := by
  have kindOf : (r.geometry.carving shift).kind = r.geometry.kindOf shift := rfl
  unfold listedCarving? at listed
  cases kind : r.geometry.kindOf shift with
  | small =>
    rw [kind] at listed
    obtain rfl := Option.some.inj listed
    rwa [Geometry.carving, kind] at cls
  | exact =>
    rw [kind] at listed
    obtain rfl := Option.some.inj listed
    rwa [Geometry.carving, kind] at cls
  | big =>
    rw [kind] at listed
    dsimp only at listed
    split at listed
    · rename_i own map role
      obtain rfl := Option.some.inj listed
      exact classed i within _ (by rw [role]; rfl)
    · cases listed

theorem vacancy?_listed {chunk : Nat} {taken : ChunkSet}
    (vacant : r.vacancy? shift m i = .ok (some (c, chunk, taken))) :
    r.listedCarving? shift i m = some c := by
  unfold vacancy? at vacant
  split at vacant
  · cases vacant
  · rename_i own listed
    obtain ⟨_, _, vacant⟩ := answer_of_bind vacant
    obtain ⟨_, _, vacant⟩ := answer_of_bind vacant
    obtain ⟨old, _, vacant⟩ := answer_of_bind vacant
    split at vacant
    · cases vacant
    · obtain ⟨_, _, same⟩ := Option.map_eq_some_iff.mp (Except.ok.inj vacant)
      cases same
      exact listed

end Region

namespace Machine

variable {r : Region} {m : Memory} {c : Carving} {i size : Nat}

theorem ceilLog2_eq (small : size < 2 ^ 64) : ceilLog2 size = .ok (SlabAllocator.ceilLog2 size) := by
  unfold ceilLog2 SlabAllocator.ceilLog2
  split
  · rfl
  · have nonzero : size - 1 ≠ 0 := by omega
    have bits : (size - 1).log2 < 64 := (Nat.log2_lt nonzero).mpr (by omega)
    rw [sub_of (by omega), ok_bind, leadingZeros, if_neg nonzero, sub_of (by omega)]
    congr 1
    omega

theorem shiftFor_eq (small : size < r.geometry.maxSize) :
    shiftFor r.geometry size = .ok (r.geometry.shiftFor size) := by
  have page : r.geometry.pageSize ≤ 2 ^ 16 := Nat.pow_le_pow_right (by decide) r.valid.2.1
  have half : size < r.geometry.pageSize / 2 := small
  rw [shiftFor, maxSize_eq, ok_bind, require_of small, ok_bind, ceilLog2_eq (by omega)]
  rfl

theorem vacancy?_eq {shift : Nat} (room : r.InWidth) (classed : r.Classed m)
    (cls : r.geometry.IsClass (r.geometry.carving shift)) (within : i < r.pageCount) :
    vacancy? r shift m i = r.vacancy? shift m i := by
  unfold vacancy? Region.vacancy?
  cases listed : r.listedCarving? shift i m with
  | none => rfl
  | some c =>
    have cls := classed.listed cls within listed
    have bits := capacity_recordOf (i := i) (m := m) cls
    dsimp only
    rw [record_eq room within cls, ok_bind, fullRecord_eq cls, ok_bind,
      require_of (Nat.le_of_lt cls.2.2), ok_bind, require_of cls.big_chunks_le, ok_bind,
      Region.record_eq cls within, ok_bind, takeLowest?_of (by omega)]
    rfl

/-- A request below half a page is served in 64 bits if its answer has no more. -/
theorem takeChunk_eq (room : r.InWidth) (classed : r.Classed m) (small : size < r.geometry.maxSize)
    (short : ∀ p after, r.takeChunk size m = .ok (some p, after) → p < 2 ^ 64) :
    takeChunk r size m = r.takeChunk size m := by
  have cls := Geometry.isClass_shiftFor r.valid small
  have few : r.geometry.shiftFor size < 16 := cls.shift_lt r.valid
  rw [takeChunk, shiftFor_eq small, ok_bind]
  unfold Region.takeChunk at short ⊢
  dsimp only at short ⊢
  refine bind_congr_answer fun slot indexed => ?_
  rw [indexed, ok_bind] at short
  rw [Region.searchList_congr fun i within => vacancy?_eq room classed cls within]
  refine bind_congr_answer fun found searched => ?_
  rw [searched, ok_bind] at short
  -- Every number on the way is at most the address that is answered in the end.
  cases found with
  | some place =>
    obtain ⟨i, c, chunk, taken⟩ := place
    obtain ⟨within, vacant⟩ := Region.searchList_found searched
    have cls := classed.listed cls within (Region.vacancy?_listed vacant)
    dsimp only at short ⊢
    rw [occupy_eq room within cls]
    refine bind_congr_answer fun after stored => ?_
    rw [stored] at short
    rw [chunkAddress_eq room within few (short _ after rfl)]
    rfl
  | none =>
    dsimp only at short ⊢
    rw [takeRun_eq Nat.one_pos (by decide)]
    refine bind_congr_answer fun result taken => ?_
    rw [taken, ok_bind] at short
    obtain ⟨_ | i, between⟩ := result
    · rfl
    · have within := Region.takeRun_within taken
      dsimp only at short ⊢
      rw [carve_eq room within cls]
      refine bind_congr_answer fun carved made => ?_
      obtain ⟨chunk, after⟩ := carved
      rw [made] at short
      dsimp only
      rw [chunkAddress_eq room within few (short _ after rfl)]
      rfl

/-- Taking a chunk out of a record finds its bit in one word of the record. -/
theorem release?_eq {s : ChunkSet} {chunk : Nat} (cls : r.geometry.IsClass c)
    (length : s.words.length = r.geometry.recordWords c) (within : chunk < s.capacity)
    (caller : r.geometry.recordReserved c ≤ chunk) :
    release? r.geometry c s chunk = .ok (s.release? chunk) := by
  have words := cls.recordWords_le r.valid
  have one : c.kind ≠ .small → releaseAt? s 0 chunk = .ok (s.release? chunk) := fun other => by
    have inside : chunk < Word.width := by
      rwa [ChunkSet.capacity, length, Geometry.recordWords_status other, Nat.mul_one] at within
    have found := releaseAt?_of within
    rwa [Nat.div_eq_of_lt inside, Nat.mod_eq_of_lt inside] at found
  unfold release?
  cases kind : c.kind with
  | small =>
    have capacity : s.words.length * Word.width = s.capacity := Nat.mul_comm ..
    have most : s.capacity ≤ 2 ^ 16 := by rwa [ChunkSet.capacity, length]
    dsimp only
    rw [mul_of (by omega), ok_bind, capacity, require_of ⟨within, caller⟩, ok_bind]
    exact releaseAt?_of within
  | exact => exact one (by rw [kind]; decide)
  | big => exact one (by rw [kind]; decide)

theorem returnChunk_eq {p : Nat} (room : r.InWidth) (within : i < r.pageCount)
    (cls : r.geometry.IsClass c) (lower : r.pageAddress i ≤ p)
    (upper : p < r.pageAddress i + r.pageSize) :
    returnChunk r c i p m = r.returnChunk c i (p - r.pageAddress i) m := by
  have few := cls.shift_lt r.valid
  have length := Region.length_recordOf (r := r) c i m
  rw [returnChunk, pageAddress_eq room within, ok_bind, sub_of lower, ok_bind,
    shiftLeft_one (by omega), ok_bind, sub_of (Nat.two_pow_pos _), ok_bind,
    Nat.and_two_pow_sub_one_eq_mod, Region.returnChunk]
  split
  · rfl
  · rw [shiftRight_of (by omega), ok_bind, record_eq room within cls, ok_bind]
    dsimp only
    rw [Region.record_eq cls within, ok_bind]
    split
    · rfl
    · rename_i caller
      have chunk : (p - r.pageAddress i) / 2 ^ c.shift < (r.recordOf c i m).capacity := by
        have whole := Geometry.chunks_mul (Nat.le_of_lt cls.2.2)
        have bits := cls.chunks_le r.valid
        rw [ChunkSet.capacity, length]
        refine Nat.lt_of_lt_of_le (Nat.div_lt_of_lt_mul ?_) bits
        rw [Nat.mul_comm, whole]
        change p - r.pageAddress i < r.pageSize
        omega
      rw [require_of chunk, ok_bind, release?_eq cls length chunk (by omega), ok_bind]
      cases (r.recordOf c i m).release? ((p - r.pageAddress i) / 2 ^ c.shift) with
      | none => rfl
      | some left =>
        dsimp only
        rw [settle_eq room within cls]

theorem pagesFor_lt (r : Region) (small : size < 2 ^ 64) : r.geometry.pagesFor size < 2 ^ 63 := by
  have page : 2 ^ 8 ≤ r.geometry.pageSize := Nat.pow_le_pow_right (by decide) r.valid.1
  have whole : size / r.geometry.pageSize ≤ size / 2 ^ 8 := Nat.div_le_div_left page (by decide)
  unfold Geometry.pagesFor
  split <;> omega

theorem pagesFor_eq (small : size < 2 ^ 64) :
    pagesFor r.geometry size = .ok (r.geometry.pagesFor size) := by
  have most := r.valid.2.1
  have few := pagesFor_lt r small
  rw [pagesFor, pageSize_eq, ok_bind, Region.pageSize, Geometry.pageSize,
    sub_of (Nat.two_pow_pos _), ok_bind, shiftRight_of (by omega), ok_bind,
    Nat.and_two_pow_sub_one_eq_mod]
  exact add_of (Nat.lt_trans few (by decide))

section

variable {pool : Pool} {p : Nat}

theorem place_eq (room : pool.region.InWidth) (classed : pool.region.Classed m)
    (small : size < 2 ^ 64)
    (short : ∀ p after, pool.place size m = .ok (some p, after) → p < 2 ^ 64) :
    place pool size m = pool.place size m := by
  unfold place
  unfold Pool.place at short ⊢
  dsimp only
  rw [maxSize_eq, ok_bind]
  split
  · rename_i large
    have some := Geometry.pagesFor_pos pool.region.valid large
    rw [pagesFor_eq small, ok_bind, takeRun_eq some (pagesFor_lt pool.region small)]
    refine bind_congr_answer fun result taken => ?_
    obtain ⟨_ | i, after⟩ := result
    · rfl
    · dsimp only
      rw [pageAddress_eq room (Region.takeRun_within taken)]
      rfl
  · rename_i below
    rw [if_neg below] at short
    exact takeChunk_eq room classed (Nat.lt_of_not_le below) short

theorem allocate_eq (placed : place pool size m = pool.place size m) :
    allocate pool size m = pool.allocate size m := by
  rw [allocate, placed]
  rfl

theorem allocateZeroed_eq (placed : place pool size m = pool.place size m) :
    allocateZeroed pool size m = pool.allocateZeroed size m := by
  rw [allocateZeroed, allocate_eq placed]
  rfl

/-- Only a run that the span holds is given back, so its size is short enough. -/
theorem shiftLeft_pages {n : Nat} {after : Memory} (room : r.InWidth)
    (run : r.returnRun i n m = .ok after) :
    shiftLeft n r.geometry.pageShift = .ok (n * r.pageSize) := by
  obtain ⟨_, _, run⟩ := answer_of_bind run
  obtain ⟨_, inside, _⟩ := answer_of_bind run
  obtain ⟨some, reach⟩ := of_require inside
  have last := Region.pageAddress_le_finish (r := r) (i := i + n - 1) (by omega)
  have few := Nat.mul_le_mul_right r.pageSize (show n - 1 ≤ i + n - 1 by omega)
  have parts : n * r.pageSize = (n - 1) * r.pageSize + r.pageSize := by
    rw [← Nat.succ_mul, Nat.succ_eq_add_one, Nat.sub_add_cancel some]
  have valid := r.valid.2.1
  unfold Region.InWidth at room
  unfold Region.pageAddress at last
  exact shiftLeft_of (by omega) (by change n * r.pageSize < 2 ^ 64; omega)

theorem releaseChunk_eq (room : pool.region.InWidth) (within : i < pool.region.pageCount)
    (cls : pool.region.geometry.IsClass c) (lower : pool.region.pageAddress i ≤ p)
    (upper : p < pool.region.pageAddress i + pool.region.pageSize) :
    releaseChunk pool c i p m = (do
      match ← pool.region.returnChunk c i (p - pool.region.pageAddress i) m with
      | (Except.ok (), m) => return (Except.ok (), pool.spoil p (2 ^ c.shift) m)
      | (Except.error e, m) => return (Except.error e, m)) := by
  have few := cls.shift_lt pool.region.valid
  rw [releaseChunk, returnChunk_eq room within cls lower upper]
  refine bind_congr_answer fun result _ => ?_
  obtain ⟨_ | _, after⟩ := result
  · rfl
  · dsimp only
    rw [shiftLeft_one (by omega)]
    rfl

theorem releaseIn_eq (room : pool.region.InWidth) (classed : pool.region.Classed m)
    (within : i < pool.region.pageCount) (lower : pool.region.pageAddress i ≤ p)
    (upper : p < pool.region.pageAddress i + pool.region.pageSize) :
    releaseIn pool i p m = pool.releaseIn i p m := by
  have cls := classed i within
  unfold releaseIn Pool.releaseIn
  dsimp only
  rw [pool.region.page_eq m within, ok_bind, ok_bind]
  cases role : (pool.region.descriptor i m).role with
  | free n => rfl
  | interior => rfl
  | run pages =>
    dsimp only
    rw [pageAddress_eq room within, ok_bind]
    split
    · rfl
    · rw [returnRun_eq within (Descriptor.lt_of_role_run role)]
      refine bind_congr_answer fun after back => ?_
      rw [shiftLeft_pages room back]
      rfl
  | small shift =>
    rw [role] at cls
    exact releaseChunk_eq room within (cls _ rfl) lower upper
  | exact map =>
    rw [role] at cls
    exact releaseChunk_eq room within (cls _ rfl) lower upper
  | big shift map =>
    rw [role] at cls
    exact releaseChunk_eq room within (cls _ rfl) lower upper

theorem release_eq (room : pool.region.InWidth) (classed : pool.region.Classed m) (p : Nat) :
    release pool p m = pool.release p m := by
  have few := pool.region.valid.2.1
  unfold release Pool.release
  dsimp only
  by_cases outside : p < pool.region.start ∨ pool.region.finish ≤ p
  · rw [if_pos outside, if_pos (by omega)]
  · rw [if_neg outside, sub_of (by omega), ok_bind, shiftRight_of (by omega), ok_bind]
    change (if pool.region.pageCount ≤ (p - pool.region.start) / pool.region.pageSize then _
      else releaseIn pool ((p - pool.region.start) / pool.region.pageSize) p m) = _
    by_cases beyond : pool.region.pageCount ≤ (p - pool.region.start) / pool.region.pageSize
    · rw [if_pos beyond, if_pos (by omega)]
      rfl
    · have positive : 0 < pool.region.pageSize := Nat.two_pow_pos _
      have split := Nat.div_add_mod (p - pool.region.start) pool.region.pageSize
      have rest := Nat.mod_lt (p - pool.region.start) positive
      have place : pool.region.pageAddress ((p - pool.region.start) / pool.region.pageSize) =
          pool.region.start + pool.region.pageSize *
            ((p - pool.region.start) / pool.region.pageSize) := by
        rw [Region.pageAddress, Nat.mul_comm]
      rw [if_neg beyond, if_neg (by omega)]
      exact releaseIn_eq room classed (by omega) (by omega) (by omega)

end

end Machine

end SlabAllocator
