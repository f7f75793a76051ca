import SlabAllocator.Machine.Record

namespace SlabAllocator

/-- The record of a page of small chunks. The first chunks of the page hold the
record itself; they are reserved and never handed out. -/
structure Bitmap where
  row : ChunkSet
  reserved : Nat
  deriving DecidableEq, Repr

namespace Bitmap

/-- Word `i` of the row that has the first `reserved` chunks and no others. -/
def reservedWord (reserved i : Nat) : Word :=
  let low := i * Word.width
  if reserved ≤ low then
    0
  else if low + Word.width ≤ reserved then
    Word.full
  else
    (1 <<< UInt64.ofNat (reserved - low)) - 1

/-- The bitmap of a fresh page, written over some words. -/
def init (words : List Word) (reserved : Nat) : Bitmap :=
  ⟨⟨words.mapIdx fun i _ => reservedWord reserved i⟩, reserved⟩

def chunkCount (b : Bitmap) : Nat := b.row.words.length * Word.width

/-- Adds the least missing chunk to a row of words. Answers which one it was and
whether no chunk is missing any more; the words that were passed over are full, so
only those from the changed one on are looked at. -/
def takeIn? : List Word → Option ((Nat × Bool) × List Word)
  | [] => none
  | w :: rest =>
    match Word.firstMissing? w with
    | some i =>
      let after := Word.insert w i :: rest
      some ((i, after.all (· == Word.full)), after)
    | none =>
      (takeIn? rest).map fun ((chunk, full), after) => ((Word.width + chunk, full), w :: after)

/-- Takes the lowest free chunk. Answers it and whether the page became full, or
nothing when it was full before. -/
def take (b : Bitmap) : Option (Nat × Bool) × Bitmap :=
  match takeIn? b.row.words with
  | none => (none, b)
  | some (answer, words) => (some answer, { b with row := ⟨words⟩ })

/-- Whether a chunk is in use. Those reserved are. -/
def isTaken (b : Bitmap) (chunk : Nat) : Except Fault Bool := do
  require (chunk < b.chunkCount) .indexOutOfRange
  return b.row.has chunk

def isReserved (b : Bitmap) (chunk : Nat) : Bool := chunk < b.reserved

/-- Takes back a chunk. Answers whether it was in use; where it was not, the
bitmap stays as it is. -/
def release (b : Bitmap) (chunk : Nat) : Except Fault (Bool × Bitmap) := do
  require (chunk < b.chunkCount ∧ ¬b.isReserved chunk) .brokenPromise
  match b.row.release? chunk with
  | none => return (false, b)
  | some left => return (true, { b with row := left })

/-- Whether no chunk beyond the reserved ones is in use. -/
def isEmpty (b : Bitmap) : Bool :=
  b.row.words.zipIdx.all fun (w, i) => w == reservedWord b.reserved i

/-- The number of chunks in use that are not reserved. Those in use are counted
in 32 bits. -/
def used (b : Bitmap) : Except Fault Nat := do
  let taken ← Machine.card b.row
  Machine.sub taken b.reserved

theorem reservedWord_eq (reserved i : Nat) :
    reservedWord reserved i = Word.initial (reserved - Word.width * i) := by
  have low : i * Word.width = Word.width * i := Nat.mul_comm ..
  unfold reservedWord
  dsimp only
  rw [low]
  split
  · rename_i below
    rw [Nat.sub_eq_zero_of_le below]
    rfl
  · split
    · rename_i above
      rw [Word.initial, if_neg (by omega)]
    · rw [Word.initial, if_pos (by omega)]

theorem row_init (words : List Word) (reserved : Nat) :
    (init words reserved).row = .initial words.length reserved := by
  rw [init, ChunkSet.initial, ChunkSet.mk.injEq]
  refine List.ext_getElem (by simp) fun i _ _ => ?_
  rw [List.getElem_mapIdx, List.getElem_map, List.getElem_range, reservedWord_eq]

/-- Comparing word by word is comparing with the bitmap of a fresh page. -/
theorem isEmpty_eq (b : Bitmap) : b.isEmpty = b.row.holdsOnly b.reserved := by
  rw [Bool.eq_iff_iff, isEmpty, List.all_eq_true, ChunkSet.holdsOnly, beq_iff_eq,
    ← row_init b.row.words]
  constructor
  · intro every
    refine ChunkSet.mk.injEq .. |>.mpr (List.ext_getElem (by simp) fun i inside _ => ?_)
    have here := every (b.row.words[i], i) (List.mk_mem_zipIdx_iff_getElem?.mpr (by simp [inside]))
    rw [List.getElem_mapIdx]
    exact beq_iff_eq.mp here
  · rintro same ⟨w, i⟩ member
    have stored := List.mk_mem_zipIdx_iff_getElem?.mp member
    rw [same] at stored
    obtain ⟨_, _, fresh⟩ : ∃ v, b.row.words[i]? = some v ∧ reservedWord b.reserved i = w := by
      simpa [init, List.getElem?_mapIdx] using stored
    exact beq_iff_eq.mpr fresh.symm

/-- A row is full when each of its words is. -/
theorem isFull_eq_all (s : ChunkSet) : s.isFull = s.words.all (· == Word.full) := by
  obtain ⟨words⟩ := s
  rw [Bool.eq_iff_iff, ChunkSet.isFull_iff, ← ChunkSet.firstMissing?_eq_none_iff,
    ChunkSet.firstMissing?]
  dsimp only
  induction words with
  | nil => simp [ChunkSet.firstMissingIn?]
  | cons w rest ih =>
    rw [List.all_cons, Bool.and_eq_true, ← ih, beq_iff_eq, ← Word.firstMissing?_eq_none_iff,
      ChunkSet.firstMissingIn?]
    cases Word.firstMissing? w <;> simp

/-- Taking a chunk gives the answers of the row as a whole. -/
theorem takeIn?_eq (words : List Word) :
    takeIn? words = (ChunkSet.takeLowest? ⟨words⟩).map fun (chunk, after) =>
      ((chunk, after.isFull), after.words) := by
  induction words with
  | nil => rfl
  | cons w rest ih =>
    rw [takeIn?, ChunkSet.takeLowest?, ChunkSet.firstMissing?, ChunkSet.firstMissingIn?]
    cases found : Word.firstMissing? w with
    | some i =>
      obtain ⟨inside, _⟩ := (Word.firstMissing?_eq_some_iff w i).mp found
      have after : ChunkSet.insert ⟨w :: rest⟩ i = ⟨Word.insert w i :: rest⟩ := by
        simp [ChunkSet.insert, Nat.div_eq_of_lt inside, Nat.mod_eq_of_lt inside]
      simp only [Option.map_some, after, isFull_eq_all]
    | none =>
      dsimp only
      rw [ih, ChunkSet.takeLowest?, ChunkSet.firstMissing?]
      cases ChunkSet.firstMissingIn? rest with
      | none => rfl
      | some chunk =>
        obtain rfl := (Word.firstMissing?_eq_none_iff w).mp found
        have after : ChunkSet.insert ⟨Word.full :: rest⟩ (Word.width + chunk) =
            ⟨Word.full :: (ChunkSet.insert ⟨rest⟩ chunk).words⟩ := by
          simp [ChunkSet.insert, Nat.add_div_left chunk (show 0 < Word.width by decide)]
        simp only [Option.map_some, after, isFull_eq_all, List.all_cons, beq_self_eq_true,
          Bool.true_and]

end Bitmap

end SlabAllocator
