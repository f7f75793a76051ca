import SlabAllocator.Machine.Region
import SlabAllocator.Proofs.Taken
import SlabAllocator.Proofs.Walks

namespace SlabAllocator

namespace Region

variable {r : Region} {m : Memory} {t : PageMap} {c : Carving} {i : Nat}

/-- Every address up to one page behind the span is a number of 64 bits. -/
def InWidth (r : Region) : Prop := r.finish + r.pageSize < 2 ^ 64

/-- Every page that is marked as cut into chunks is cut for one of the classes. -/
def Classed (r : Region) (m : Memory) : Prop :=
  ∀ i < r.pageCount, ∀ c, r.carvingOf? (r.descriptor i m).role = some c → r.geometry.IsClass c

theorem Shows.classed (shows_ : r.Shows m t) (sound : t.Sound r) : r.Classed m := by
  intro i within c carved
  obtain ⟨taken, slab⟩ := (shows_.carvingOf?_iff sound within).mp carved
  exact (sound.slab i within c taken slab).1

theorem pageCount_le (r : Region) : r.pageCount ≤ 2 ^ 32 - 2 := Layout.pageCount_le r.planned

theorem slotCount_le (r : Region) : r.slotCount ≤ 15 := by
  obtain ⟨_, most, least, _⟩ := r.valid
  rw [slotCount_eq, Geometry.slotCount]
  omega

theorem pageAddress_le_finish (within : i < r.pageCount) :
    r.pageAddress i + r.pageSize ≤ r.finish := by
  have span := Layout.pages_fit r.planned (Nat.zero_lt_of_lt within)
  have reach := Nat.mul_le_mul_right r.pageSize (show i + 1 ≤ r.pageCount from within)
  rw [Nat.add_mul, Nat.one_mul] at reach
  unfold pageAddress start finish
  unfold pageSize pageCount at *
  omega

theorem length_recordOf (c : Carving) (i : Nat) (m : Memory) :
    (r.recordOf c i m).words.length = r.geometry.recordWords c := by
  unfold recordOf
  cases kind : c.kind with
  | small =>
    rw [Geometry.recordWords, kind]
    exact m.length_words _ _
  | exact =>
    rw [Geometry.recordWords, kind]
    rfl
  | big =>
    rw [Geometry.recordWords, kind]
    rfl

end Region

namespace Geometry

variable {g : Geometry} {c : Carving}

theorem chunks_le_two_pow (valid : g.Valid) (shift : Nat) : g.chunks shift ≤ 2 ^ 16 :=
  Nat.pow_le_pow_right (by decide) (by have := valid.2.1; omega)

/-- No record is longer than one bit for each of so many chunks. -/
theorem IsClass.recordWords_le (cls : g.IsClass c) (valid : g.Valid) :
    Word.width * g.recordWords c ≤ 2 ^ 16 := by
  have most := chunks_le_two_pow valid c.shift
  have chunks := cls.recordChunks_eq valid
  cases kind : c.kind with
  | small =>
    rw [recordChunks, kind] at chunks
    rw [recordWords, kind]
    exact Nat.le_trans (Nat.le_of_eq chunks) most
  | exact =>
    rw [recordWords_status (by rw [kind]; decide)]
    decide
  | big =>
    rw [recordWords_status (by rw [kind]; decide)]
    decide

/-- Where the status word is the record, no bit of it is set aside. -/
theorem emptyRecord_status (other : c.kind ≠ .small) : g.emptyRecord c = ⟨[0]⟩ := by
  rw [emptyRecord, recordWords_status other, recordReserved_status other]
  decide

end Geometry

namespace Machine

variable {r : Region} {m : Memory} {c : Carving} {i n : Nat} {s : ChunkSet}

theorem pageSize_eq (r : Region) : pageSize r.geometry = .ok r.pageSize := by
  have most := r.valid.2.1
  exact shiftLeft_one (by omega)

theorem maxSize_eq (r : Region) : maxSize r.geometry = .ok r.geometry.maxSize := by
  rw [maxSize, pageSize_eq]
  rfl

section

variable (room : r.InWidth) (within : i < r.pageCount)

include room within

theorem pageAddress_eq : pageAddress r i = .ok (r.pageAddress i) := by
  have reach := Region.pageAddress_le_finish within
  have valid := r.valid.2.1
  unfold Region.InWidth at room
  unfold Region.pageAddress at reach
  rw [pageAddress, require_of within, ok_bind, shiftLeft_of (by omega) (by
    change i * r.pageSize < 2 ^ 64
    omega), ok_bind]
  exact add_of (by change r.start + i * r.pageSize < 2 ^ 64; omega)

/-- The address of a chunk is computed when it is short enough itself. -/
theorem chunkAddress_eq {shift chunk : Nat} (inside : shift < 16)
    (small : r.chunkAddress shift i chunk < 2 ^ 64) :
    chunkAddress r shift i chunk = .ok (r.chunkAddress shift i chunk) := by
  unfold Region.chunkAddress at small
  rw [chunkAddress, pageAddress_eq room within, ok_bind, shiftLeft_of (by omega) (by omega), ok_bind]
  exact add_of small

end

section

variable (within : i < r.pageCount) (few : n < 2 ^ 63)

include within few

theorem cutRun_eq (run : Nat) : cutRun r i run n m = r.cutRun i run n m := by
  have pages := r.pageCount_le
  unfold cutRun Region.cutRun
  split
  · rw [add_of (by omega), ok_bind, sub_of (by omega), ok_bind]
  · rfl

theorem modifyLater_eq (change : Descriptor → Descriptor) :
    modifyLater r i n change m = (do
      require (1 ≤ n ∧ i + n ≤ r.pageCount) .indexOutOfRange
      r.modifyPages (i + 1) change (n - 1) m) := by
  have pages := r.pageCount_le
  -- The range is checked by its ends here, and by its length in the plain form.
  have same : (i + 1 ≤ i + n ∧ i + n ≤ r.pageCount) ↔ (1 ≤ n ∧ i + n ≤ r.pageCount) := by omega
  rw [modifyLater, add_of (by omega), ok_bind, add_of (by omega), ok_bind]
  simp only [same]
  refine bind_congr_answer fun _ passed => ?_
  obtain ⟨some, _⟩ := of_require passed
  rw [sub_of (by omega), ok_bind, show i + n - (i + 1) = n - 1 by omega]

theorem returnRun_eq : returnRun r i n m = r.returnRun i n m := by
  refine bind_congr_answer fun m _ => ?_
  rw [modifyLater_eq within few, bind_assoc]

end

theorem takeRun_eq (positive : 0 < n) (few : n < 2 ^ 63) : takeRun r n m = r.takeRun n m := by
  rw [takeRun, require_of positive, ok_bind, Region.takeRun]
  refine bind_congr_answer fun found searched => ?_
  cases found with
  | none => rfl
  | some start =>
    obtain ⟨i, run⟩ := start
    have within := (Region.searchList_found searched).1
    dsimp only
    rw [cutRun_eq within few]
    refine bind_congr_answer fun m _ => ?_
    rw [Region.markRun, bind_assoc]
    refine bind_congr_answer fun m _ => ?_
    rw [modifyLater_eq within few]

section

variable (cls : r.geometry.IsClass c)

include cls

theorem chunks_eq : chunks r.geometry c.shift = .ok (r.geometry.chunks c.shift) := by
  have most := r.valid.2.1
  rw [chunks, sub_of (Nat.le_of_lt cls.2.2), ok_bind, shiftLeft_one (by omega)]
  rfl

theorem reservedChunks_eq :
    reservedChunks r c.shift = .ok (r.geometry.reservedChunks c.shift) := by
  rw [reservedChunks, Region.slotIndex_eq cls]
  rfl

theorem slotByte_eq : slotByte r c.shift = .ok (r.geometry.slotOf c.shift) := by
  have known : r.geometry.slotOf c.shift < r.slotCount := Region.hasList_slotOf cls
  have most := r.slotCount_le
  rw [slotByte, Region.slotIndex_eq cls, ok_bind]
  exact fit_of (by omega)

theorem usableChunks_eq : usableChunks r c.shift = .ok (r.geometry.usableChunks c.shift) := by
  have two := cls.reserved_add_two_le r.valid
  have reserved := cls.recordReserved_eq r.valid
  rw [usableChunks, chunks_eq cls, ok_bind, reservedChunks_eq cls, ok_bind]
  exact sub_of (by omega)

theorem capacity_recordOf : (r.recordOf c i m).capacity ≤ 2 ^ 16 := by
  rw [ChunkSet.capacity, Region.length_recordOf]
  exact cls.recordWords_le r.valid

theorem emptyRecord_eq : emptyRecord r c = .ok (r.geometry.emptyRecord c) := by
  have words := cls.recordWords_le r.valid
  unfold emptyRecord
  cases kind : c.kind with
  | small =>
    rw [Geometry.recordWords, kind] at words
    have each : ∀ k ∈ List.range (r.geometry.bitmapWords c.shift),
        reservedWord (r.geometry.reservedChunks c.shift) k =
          .ok (Word.initial (r.geometry.reservedChunks c.shift - Word.width * k)) := by
      intro k member
      have below := Nat.mul_le_mul_left Word.width
        (show k + 1 ≤ _ from List.mem_range.mp member)
      dsimp only at words
      exact reservedWord_of (by omega)
    dsimp only
    rw [chunks_eq cls, ok_bind, reservedChunks_eq cls, ok_bind]
    change (do
      let words ← (List.range (r.geometry.bitmapWords c.shift)).mapM
        (reservedWord (r.geometry.reservedChunks c.shift))
      return (⟨words⟩ : ChunkSet)) = _
    rw [mapM_ok each, Geometry.emptyRecord, Geometry.recordWords, Geometry.recordReserved, kind]
    rfl
  | exact => rw [Geometry.emptyRecord_status (by rw [kind]; decide)]
  | big => rw [Geometry.emptyRecord_status (by rw [kind]; decide)]

theorem fullRecord_eq : fullRecord r c = .ok (r.geometry.fullRecord c) := by
  unfold fullRecord
  cases kind : c.kind with
  | small => rfl
  | exact => rfl
  | big =>
    have few := cls.big_chunks_le kind
    dsimp only
    rw [chunks_eq cls, ok_bind, require_of few, ok_bind, lowBits_of (by unfold Word.width; omega),
      Geometry.fullRecord, Geometry.recordWords, Geometry.recordChunks, kind]
    rfl

theorem firstChunk_eq : firstChunk r c = .ok (r.firstChunk c) := by
  have lowest : (⟨[0]⟩ : ChunkSet).takeLowest? = some (0, ⟨[1]⟩) := by decide
  unfold firstChunk Region.firstChunk
  cases kind : c.kind with
  | small =>
    have words := cls.recordWords_le r.valid
    dsimp only
    rw [emptyRecord_eq cls, ok_bind, takeLowest?_of (by
      rw [Geometry.emptyRecord, ChunkSet.capacity_initial]
      omega)]
    rfl
  | exact =>
    rw [Geometry.emptyRecord_status (by rw [kind]; decide)]
    dsimp only
    rw [lowest]
    rfl
  | big =>
    rw [Geometry.emptyRecord_status (by rw [kind]; decide)]
    dsimp only
    rw [lowest]
    rfl

end

section

variable (room : r.InWidth) (within : i < r.pageCount) (cls : r.geometry.IsClass c)

include room within cls

theorem record_eq : record r c i m = .ok (r.recordOf c i m) := by
  have read : r.record c i m = .ok (r.recordOf c i m) := Region.record_eq cls within
  unfold record
  cases kind : c.kind with
  | small =>
    have two := cls.reserved_add_two_le r.valid
    have words := cls.recordWords_le r.valid
    have whole := cls.recordChunks_eq r.valid
    rw [Geometry.recordReserved, kind] at two
    rw [Geometry.recordWords, kind] at words
    rw [Geometry.recordChunks, kind] at whole
    dsimp only at two words whole ⊢
    have capacity : r.geometry.chunks c.shift / Word.width * Word.width =
        r.geometry.chunks c.shift := by
      rw [Nat.mul_comm]
      exact whole
    rw [chunks_eq cls, ok_bind, reservedChunks_eq cls, ok_bind, pageAddress_eq room within, ok_bind,
      mul_of (by omega), ok_bind, capacity, require_of (by omega), ok_bind, Region.recordOf, kind]
    rfl
  | exact => exact read
  | big => exact read

omit cls in
theorem setRecord_eq (s : ChunkSet) : setRecord r c i s m = r.setRecord c i s m := by
  unfold setRecord Region.setRecord
  cases c.kind with
  | small =>
    dsimp only
    rw [pageAddress_eq room within]
    rfl
  | exact => rfl
  | big => rfl

theorem occupy_eq (taken : ChunkSet) : occupy r c i taken m = r.occupy c i taken m := by
  rw [occupy, Region.occupy, setRecord_eq room within]
  refine bind_congr_answer fun m _ => ?_
  simp [fullRecord_eq cls]

theorem settle_eq (left : ChunkSet) : settle r c i left m = r.settle c i left m := by
  rw [settle, Region.settle, setRecord_eq room within]
  refine bind_congr_answer fun m _ => ?_
  rw [emptyRecord_eq cls, ok_bind, returnRun_eq within (by decide), slotByte_eq cls,
    Region.slotIndex_eq cls]

end

theorem carve_eq {shift : Nat} (room : r.InWidth) (within : i < r.pageCount)
    (cls : r.geometry.IsClass (r.geometry.carving shift)) :
    carve r shift i m = r.carve shift i m := by
  rw [carve, Region.carve, Region.checkRecord_eq cls, ok_bind]
  refine bind_congr_answer fun m _ => ?_
  rw [firstChunk_eq cls, ok_bind]
  dsimp only
  rw [setRecord_eq room within]
  refine bind_congr_answer fun m _ => ?_
  have byte := slotByte_eq cls
  have index := Region.slotIndex_eq cls
  change slotByte r shift = _ at byte
  change r.slotIndex shift = _ at index
  rw [byte, index]

end Machine

end SlabAllocator
