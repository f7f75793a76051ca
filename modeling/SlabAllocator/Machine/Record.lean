import SlabAllocator.Machine.Basic
import SlabAllocator.Region.Chunk

namespace SlabAllocator

namespace Machine

/-- The bytes of a page. -/
def pageSize (g : Geometry) : Except Fault Nat := shiftLeft 1 g.pageShift

/-- Requests of this size or more take whole pages. -/
def maxSize (g : Geometry) : Except Fault Nat := do
  let page ← pageSize g
  return page / 2

/-- The number of chunks of `2 ^ shift` bytes in a page. -/
def chunks (g : Geometry) (shift : Nat) : Except Fault Nat := do
  let places ← sub g.pageShift shift
  shiftLeft 1 places

/-- The entry of a class in the table of reserved chunks. -/
def reservedChunks (r : Region) (shift : Nat) : Except Fault Nat := do
  let _ ← r.slotIndex shift
  return r.geometry.reservedChunks shift

/-- The chunks of a page that a caller can receive. -/
def usableChunks (r : Region) (shift : Nat) : Except Fault Nat := do
  let all ← chunks r.geometry shift
  let reserved ← reservedChunks r shift
  sub all reserved

/-- The word with the lowest `count` bits. -/
def lowBits (count : Nat) : Except Fault Word := do
  let top ← shiftLeft 1 count
  let mask ← sub top 1
  return UInt64.ofNat mask

/-- Word `i` of a row with the first `reserved` bits. -/
def reservedWord (reserved i : Nat) : Except Fault Word := do
  let low ← mul i Word.width
  if reserved ≤ low then
    return 0
  else
    let high ← add low Word.width
    if high ≤ reserved then
      return Word.full
    else
      let count ← sub reserved low
      lowBits count

/-- Adds the least missing chunk to a row that starts at word `i` of a record. -/
def takeLowestFrom? (i : Nat) : List Word → Except Fault (Option (Nat × List Word))
  | [] => .ok none
  | w :: rest =>
    match Word.firstMissing? w with
    | some position => do
      let bit ← shiftLeft 1 position
      let low ← mul i Word.width
      let chunk ← add low position
      return some (chunk, (w ||| UInt64.ofNat bit) :: rest)
    | none => do
      let found ← takeLowestFrom? (i + 1) rest
      return found.map fun (chunk, after) => (chunk, w :: after)

/-- Adds the least missing chunk and says which one it was. -/
def takeLowest? (s : ChunkSet) : Except Fault (Option (Nat × ChunkSet)) := do
  let found ← takeLowestFrom? 0 s.words
  return found.map fun (chunk, after) => (chunk, ⟨after⟩)

/-- Takes one bit out of one word of a record, or answers nothing when the word
does not have it. -/
def releaseAt? (s : ChunkSet) (index position : Nat) : Except Fault (Option ChunkSet) := do
  let bit ← shiftLeft 1 position
  match s.words[index]? with
  | none => .error .indexOutOfRange
  | some w =>
    if w &&& UInt64.ofNat bit = 0 then
      return none
    else
      return some ⟨s.words.set index (w &&& ~~~UInt64.ofNat bit)⟩

/-- Takes a chunk out of a record, or answers nothing when it is not in there. A
status word has the bit of a chunk at the place of its number. -/
def release? (g : Geometry) (c : Carving) (s : ChunkSet) (chunk : Nat) :
    Except Fault (Option ChunkSet) :=
  match c.kind with
  | .small => do
    let capacity ← mul s.words.length Word.width
    require (chunk < capacity ∧ g.recordReserved c ≤ chunk) .brokenPromise
    releaseAt? s (chunk / Word.width) (chunk % Word.width)
  | .exact | .big => releaseAt? s 0 chunk

/-- The number of chunks in a record, counted in 32 bits. -/
def card (s : ChunkSet) : Except Fault Nat := sum 32 (s.words.map Word.card)

/-- The record of a page with no chunk handed out. -/
def emptyRecord (r : Region) (c : Carving) : Except Fault ChunkSet :=
  match c.kind with
  | .small => do
    let count ← chunks r.geometry c.shift
    let reserved ← reservedChunks r c.shift
    let words ← (List.range (count / Word.width)).mapM (reservedWord reserved)
    return ⟨words⟩
  | .exact | .big => .ok ⟨[0]⟩

/-- The record of a page with every chunk handed out. Only the mask of big
chunks is computed. -/
def fullRecord (r : Region) (c : Carving) : Except Fault ChunkSet :=
  match c.kind with
  | .small | .exact => .ok (r.geometry.fullRecord c)
  | .big => do
    let count ← chunks r.geometry c.shift
    require (count ≤ 32) .brokenPromise
    let mask ← lowBits count
    return ⟨[mask]⟩

/-- The first chunk of a page with none handed out, and the record once it is
taken. -/
def firstChunk (r : Region) (c : Carving) : Except Fault (Nat × ChunkSet) :=
  match c.kind with
  | .small => do
    let empty ← emptyRecord r c
    let found ← takeLowest? empty
    return found.getD (r.geometry.recordReserved c, empty)
  | .exact | .big => .ok (0, ⟨[1]⟩)

section

variable {s : ChunkSet} {chunk : Nat}

theorem lowBits_of {count : Nat} (small : count < Word.width) :
    lowBits count = .ok (Word.initial count) := by
  have power : 2 ^ count < 2 ^ 64 := Nat.pow_lt_pow_right (by decide) small
  rw [lowBits, shiftLeft_one small, ok_bind, sub_of (Nat.two_pow_pos count), ok_bind, Word.initial,
    if_pos small]
  refine congrArg Except.ok (UInt64.toNat_inj.mp ?_)
  rw [UInt64.toNat_sub_of_le, Word.toNat_single small, UInt64.toNat_one, UInt64.toNat_ofNat',
    Nat.mod_eq_of_lt (by omega)]
  rw [UInt64.le_iff_toNat_le, Word.toNat_single small]
  exact Nat.two_pow_pos count

theorem reservedWord_of {reserved i : Nat} (small : Word.width * (i + 1) < 2 ^ 64) :
    reservedWord reserved i = .ok (Word.initial (reserved - Word.width * i)) := by
  rw [Nat.mul_add, Nat.mul_one] at small
  have low : i * Word.width = Word.width * i := Nat.mul_comm ..
  rw [reservedWord, mul_of (by omega), ok_bind, low]
  split
  · rename_i below
    rw [Nat.sub_eq_zero_of_le below]
    rfl
  · rw [add_of small, ok_bind]
    split
    · rename_i above
      rw [Word.initial, if_neg (by omega)]
      rfl
    · rw [sub_of (by omega), ok_bind]
      exact lowBits_of (by omega)

theorem ofNat_two_pow {position : Nat} (inside : position < Word.width) :
    UInt64.ofNat (2 ^ position) = (1 : Word) <<< UInt64.ofNat position := by
  refine UInt64.toNat_inj.mp ?_
  rw [Word.toNat_single inside, UInt64.toNat_ofNat']
  exact Nat.mod_eq_of_lt (Nat.pow_lt_pow_right (by decide) inside)

/-- A word has no bit in common with that of a position it does not have. -/
theorem and_single_eq_zero_iff (w : Word) {position : Nat} (inside : position < Word.width) :
    w &&& (1 <<< UInt64.ofNat position) = 0 ↔ Word.has w position = false := by
  constructor
  · intro none
    have bit := congrArg (fun v => Word.has v position) none
    simpa only [Word.has_and _ _ inside, Word.has_single inside inside, Word.has_zero inside,
      decide_true, Bool.and_true] using bit
  · intro missing
    refine Word.ext fun i within => ?_
    rw [Word.has_and _ _ within, Word.has_single inside within, Word.has_zero within]
    by_cases here : position = i
    · rw [← here, missing, Bool.false_and]
    · rw [decide_eq_false here, Bool.and_false]

theorem takeLowestFrom?_of {i : Nat} {words : List Word}
    (small : Word.width * (i + words.length) < 2 ^ 64) :
    takeLowestFrom? i words = .ok ((ChunkSet.takeLowest? ⟨words⟩).map fun (chunk, after) =>
      (Word.width * i + chunk, after.words)) := by
  induction words generalizing i with
  | nil => rfl
  | cons w rest ih =>
    rw [List.length_cons] at small
    rw [takeLowestFrom?, ChunkSet.takeLowest?, ChunkSet.firstMissing?, ChunkSet.firstMissingIn?]
    cases found : Word.firstMissing? w with
    | some position =>
      obtain ⟨inside, _⟩ := (Word.firstMissing?_eq_some_iff w position).mp found
      have index : position / Word.width = 0 := Nat.div_eq_of_lt inside
      have place : position % Word.width = position := Nat.mod_eq_of_lt inside
      have low : i * Word.width = Word.width * i := Nat.mul_comm ..
      unfold Word.width at inside small
      dsimp only
      rw [shiftLeft_one inside, ok_bind, mul_of (by unfold Word.width; omega), ok_bind, low,
        add_of (by unfold Word.width; omega), ok_bind, ofNat_two_pow inside, Option.map_some,
        Option.map_some, ChunkSet.insert, index, place]
      rfl
    | none =>
      dsimp only
      rw [ih (by rwa [Nat.add_right_comm, Nat.add_assoc]), ok_bind, ChunkSet.takeLowest?,
        ChunkSet.firstMissing?]
      cases ChunkSet.firstMissingIn? rest with
      | none => rfl
      | some chunk =>
        have index : (Word.width + chunk) / Word.width = chunk / Word.width + 1 :=
          Nat.add_div_left chunk (by decide)
        have place : (Word.width + chunk) % Word.width = chunk % Word.width :=
          Nat.add_mod_left ..
        simp only [Option.map_some, ChunkSet.insert, index, place, List.modify_succ_cons,
          Nat.mul_add, Nat.mul_one, Nat.add_assoc]
        rfl

theorem takeLowest?_of (small : s.capacity < 2 ^ 64) : takeLowest? s = .ok s.takeLowest? := by
  rw [takeLowest?, takeLowestFrom?_of (by rwa [Nat.zero_add]), ok_bind]
  cases s.takeLowest? with
  | none => rfl
  | some found =>
    simp only [Option.map_some, Nat.mul_zero, Nat.zero_add]
    rfl

theorem releaseAt?_of (within : chunk < s.capacity) :
    releaseAt? s (chunk / Word.width) (chunk % Word.width) = .ok (s.release? chunk) := by
  have inside : chunk % Word.width < Word.width := ChunkSet.position_lt chunk
  obtain ⟨w, stored⟩ := ChunkSet.word_of_lt within
  rw [releaseAt?, shiftLeft_one inside, ok_bind, stored, ofNat_two_pow inside]
  dsimp only
  rw [ChunkSet.release?, ChunkSet.has_of_word stored]
  cases taken : Word.has w (chunk % Word.width) with
  | false =>
    rw [if_pos ((and_single_eq_zero_iff w inside).mpr taken), if_neg (by decide)]
    rfl
  | true =>
    have bit : ¬w &&& (1 <<< UInt64.ofNat (chunk % Word.width)) = 0 := fun none => by
      rw [(and_single_eq_zero_iff w inside).mp none] at taken
      cases taken
    rw [if_neg bit, if_pos rfl, ChunkSet.erase, List.modify_eq_set, stored]
    rfl

theorem card_eq (s : ChunkSet) : card s = fit 32 s.card := sum_eq ..

theorem card_of (small : s.capacity < 2 ^ 32) : card s = .ok s.card := by
  rw [card_eq, fit_of (Nat.lt_of_le_of_lt s.card_le_capacity small)]

end

end Machine

end SlabAllocator
