import SlabAllocator.Word

namespace SlabAllocator

/-- A set of chunk numbers, kept as a row of words: chunk `c` is position
`c % 64` of word `c / 64`. -/
structure ChunkSet where
  words : List Word
  deriving DecidableEq, Repr

namespace ChunkSet

/-- The number of chunks that a set can tell apart. -/
def capacity (s : ChunkSet) : Nat := Word.width * s.words.length

/-- The first `n` chunks, in a row of `count` words. -/
def initial (count n : Nat) : ChunkSet :=
  ⟨(List.range count).map fun i => Word.initial (n - Word.width * i)⟩

def has (s : ChunkSet) (chunk : Nat) : Bool :=
  match s.words[chunk / Word.width]? with
  | some w => Word.has w (chunk % Word.width)
  | none => false

def insert (s : ChunkSet) (chunk : Nat) : ChunkSet :=
  ⟨s.words.modify (chunk / Word.width) fun w => Word.insert w (chunk % Word.width)⟩

def erase (s : ChunkSet) (chunk : Nat) : ChunkSet :=
  ⟨s.words.modify (chunk / Word.width) fun w => Word.erase w (chunk % Word.width)⟩

/-- The least position in a row of words that none of them has. -/
def firstMissingIn? : List Word → Option Nat
  | [] => none
  | w :: rest =>
    match Word.firstMissing? w with
    | some i => some i
    | none => (firstMissingIn? rest).map (Word.width + ·)

def firstMissing? (s : ChunkSet) : Option Nat := firstMissingIn? s.words

def card (s : ChunkSet) : Nat := (s.words.map Word.card).foldr (· + ·) 0

def isFull (s : ChunkSet) : Bool := s == initial s.words.length s.capacity

/-- Whether the set holds the first `reserved` chunks and no other. -/
def holdsOnly (s : ChunkSet) (reserved : Nat) : Bool := s == initial s.words.length reserved

/-- Adds the least missing chunk and says which one it was. -/
def takeLowest? (s : ChunkSet) : Option (Nat × ChunkSet) :=
  s.firstMissing?.map fun chunk => (chunk, s.insert chunk)

/-- Takes a chunk out, or answers nothing when it is not in the set. -/
def release? (s : ChunkSet) (chunk : Nat) : Option ChunkSet :=
  if s.has chunk then some (s.erase chunk) else none

theorem position_lt (chunk : Nat) : chunk % Word.width < Word.width :=
  Nat.mod_lt chunk (by decide)

/-- Below the capacity a chunk has a word. -/
theorem word_of_lt {s : ChunkSet} {chunk : Nat} (within : chunk < s.capacity) :
    ∃ w, s.words[chunk / Word.width]? = some w :=
  ⟨_, List.getElem?_eq_getElem (Nat.div_lt_of_lt_mul within)⟩

theorem has_of_word {s : ChunkSet} {chunk : Nat} {w : Word}
    (stored : s.words[chunk / Word.width]? = some w) :
    s.has chunk = Word.has w (chunk % Word.width) := by
  simp [has, stored]

theorem has_of_capacity_le {s : ChunkSet} {chunk : Nat} (beyond : s.capacity ≤ chunk) :
    s.has chunk = false := by
  have index : s.words.length ≤ chunk / Word.width :=
    (Nat.le_div_iff_mul_le (by decide)).mpr (by rw [Nat.mul_comm]; exact beyond)
  simp [has, List.getElem?_eq_none index]

theorem lt_capacity_of_has {s : ChunkSet} {chunk : Nat} (taken : s.has chunk = true) :
    chunk < s.capacity := by
  refine Nat.lt_of_not_le fun beyond => ?_
  rw [has_of_capacity_le beyond] at taken
  cases taken

/-- Two chunks of one word are the same when they share the position. -/
theorem decide_eq_position {c d : Nat} (index : c / Word.width = d / Word.width) :
    decide (c % Word.width = d % Word.width) = decide (c = d) := by
  rw [decide_eq_decide]
  constructor
  · intro position
    rw [← Nat.div_add_mod c Word.width, ← Nat.div_add_mod d Word.width, index, position]
  · rintro rfl
    rfl

@[simp] theorem capacity_insert (s : ChunkSet) (chunk : Nat) : (s.insert chunk).capacity = s.capacity := by
  simp [capacity, insert]

@[simp] theorem capacity_erase (s : ChunkSet) (chunk : Nat) : (s.erase chunk).capacity = s.capacity := by
  simp [capacity, erase]

@[simp] theorem capacity_initial (count n : Nat) : (initial count n).capacity = Word.width * count := by
  simp [capacity, initial]

theorem has_insert {s : ChunkSet} {c d : Nat} (within : d < s.capacity) :
    (s.insert c).has d = (s.has d || decide (c = d)) := by
  obtain ⟨w, stored⟩ := word_of_lt within
  rw [has_of_word stored]
  by_cases index : c / Word.width = d / Word.width
  · have after : (s.insert c).words[d / Word.width]? = some (Word.insert w (c % Word.width)) := by
      simp [insert, index, stored]
    rw [has_of_word after, Word.has_insert w (position_lt c) (position_lt d),
      decide_eq_position index]
  · have after : (s.insert c).words[d / Word.width]? = some w := by
      simp [insert, index, stored]
    have other : c ≠ d := fun same => index (same ▸ rfl)
    rw [has_of_word after]
    simp [other]

theorem has_erase {s : ChunkSet} {c d : Nat} (within : d < s.capacity) :
    (s.erase c).has d = (s.has d && !decide (c = d)) := by
  obtain ⟨w, stored⟩ := word_of_lt within
  rw [has_of_word stored]
  by_cases index : c / Word.width = d / Word.width
  · have after : (s.erase c).words[d / Word.width]? = some (Word.erase w (c % Word.width)) := by
      simp [erase, index, stored]
    rw [has_of_word after, Word.has_erase w (position_lt c) (position_lt d),
      decide_eq_position index]
  · have after : (s.erase c).words[d / Word.width]? = some w := by
      simp [erase, index, stored]
    have other : c ≠ d := fun same => index (same ▸ rfl)
    rw [has_of_word after]
    simp [other]

theorem has_initial {count n chunk : Nat} (within : chunk < Word.width * count) :
    (initial count n).has chunk = decide (chunk < n) := by
  have index : chunk / Word.width < count := Nat.div_lt_of_lt_mul within
  have stored : (initial count n).words[chunk / Word.width]? =
      some (Word.initial (n - Word.width * (chunk / Word.width))) := by
    simp [initial, index]
  rw [has_of_word stored, Word.has_initial _ (position_lt chunk)]
  have whole := Nat.div_add_mod chunk Word.width
  have small := position_lt chunk
  simp only [decide_eq_decide]
  omega

theorem ext {s t : ChunkSet} (length : s.words.length = t.words.length)
    (same : ∀ c < s.capacity, s.has c = t.has c) : s = t := by
  obtain ⟨left⟩ := s
  obtain ⟨right⟩ := t
  congr 1
  apply List.ext_getElem length
  intro i inLeft inRight
  apply Word.ext
  intro j inside
  have index : (Word.width * i + j) / Word.width = i := by
    rw [Nat.mul_add_div (by decide), Nat.div_eq_of_lt inside, Nat.add_zero]
  have position : (Word.width * i + j) % Word.width = j := by
    rw [Nat.mul_add_mod, Nat.mod_eq_of_lt inside]
  have within : Word.width * i + j < capacity ⟨left⟩ := by
    have : Word.width * (i + 1) ≤ Word.width * left.length := Nat.mul_le_mul_left _ inLeft
    simp only [capacity]
    rw [Nat.mul_succ] at this
    omega
  have here := same _ within
  rwa [has, has, index, position, List.getElem?_eq_getElem inLeft,
    List.getElem?_eq_getElem inRight] at here

theorem isFull_iff (s : ChunkSet) : s.isFull = true ↔ ∀ c < s.capacity, s.has c = true := by
  unfold isFull
  rw [beq_iff_eq]
  constructor
  · intro same c within
    rw [same, has_initial within]
    exact decide_eq_true within
  · intro every
    apply ext (by simp [initial])
    intro c within
    rw [every c within, has_initial within]
    exact (decide_eq_true within).symm

theorem holdsOnly_iff (s : ChunkSet) (reserved : Nat) :
    s.holdsOnly reserved = true ↔ ∀ c < s.capacity, s.has c = decide (c < reserved) := by
  unfold holdsOnly
  rw [beq_iff_eq]
  constructor
  · intro same c within
    have value : (initial s.words.length reserved).has c = decide (c < reserved) :=
      has_initial within
    rwa [← same] at value
  · intro every
    apply ext (by simp [initial])
    intro c within
    rw [every c within, has_initial within]

theorem has_cons_of_lt (w : Word) (rest : List Word) {c : Nat} (within : c < Word.width) :
    has ⟨w :: rest⟩ c = Word.has w c := by
  simp [has, Nat.div_eq_of_lt within, Nat.mod_eq_of_lt within]

theorem has_cons_add (w : Word) (rest : List Word) (c : Nat) :
    has ⟨w :: rest⟩ (Word.width + c) = has ⟨rest⟩ c := by
  have index : (Word.width + c) / Word.width = c / Word.width + 1 := by
    rw [Nat.add_div_left c (by decide)]
  simp [has, index]

theorem capacity_cons (w : Word) (rest : List Word) :
    capacity ⟨w :: rest⟩ = Word.width + capacity ⟨rest⟩ := by
  simp [capacity, Nat.mul_add, Nat.add_comm]

/-- What is said of the chunks of a row is said of those of its first word and
of those of the rest. -/
theorem forall_cons {w : Word} {rest : List Word} {p : Nat → Bool → Prop} :
    (∀ c < capacity ⟨w :: rest⟩, p c (has ⟨w :: rest⟩ c)) ↔
      (∀ c < Word.width, p c (Word.has w c)) ∧
        ∀ c < capacity ⟨rest⟩, p (Word.width + c) (has ⟨rest⟩ c) := by
  rw [capacity_cons]
  constructor
  · intro every
    constructor
    · intro c within
      have := every c (by omega)
      rwa [has_cons_of_lt w rest within] at this
    · intro c within
      have := every (Word.width + c) (by omega)
      rwa [has_cons_add] at this
  · rintro ⟨first, others⟩ c within
    rcases Nat.lt_or_ge c Word.width with small | large
    · rw [has_cons_of_lt w rest small]
      exact first c small
    · obtain ⟨d, rfl⟩ := Nat.exists_eq_add_of_le large
      rw [has_cons_add]
      exact others d (by omega)

theorem firstMissing?_eq_none_iff (s : ChunkSet) :
    s.firstMissing? = none ↔ ∀ c < s.capacity, s.has c = true := by
  obtain ⟨words⟩ := s
  show firstMissingIn? words = none ↔ _
  induction words with
  | nil => simp [firstMissingIn?, capacity]
  | cons w rest ih =>
    rw [forall_cons (p := fun _ b => b = true), ← ih]
    rw [firstMissingIn?]
    cases found : Word.firstMissing? w with
    | none =>
      rw [Word.firstMissing?_eq_none_iff] at found
      subst found
      simp only [Option.map_eq_none_iff]
      exact ⟨fun others => ⟨fun c within => Word.has_full within, others⟩, fun both => both.2⟩
    | some i =>
      obtain ⟨within, missing, _⟩ := (Word.firstMissing?_eq_some_iff w i).mp found
      constructor
      · simp
      · intro both
        rw [both.1 i within] at missing
        simp at missing

/-- The first missing chunk is missing, and no chunk below it is. -/
theorem has_of_firstMissing? {s : ChunkSet} {c : Nat} (found : s.firstMissing? = some c) :
    c < s.capacity ∧ s.has c = false ∧ ∀ d < c, s.has d = true := by
  obtain ⟨words⟩ := s
  change firstMissingIn? words = some c at found
  induction words generalizing c with
  | nil => simp [firstMissingIn?] at found
  | cons w rest ih =>
    rw [capacity_cons]
    rw [firstMissingIn?] at found
    split at found
    · rename_i i here
      obtain rfl := Option.some.inj found
      obtain ⟨within, missing, before⟩ := (Word.firstMissing?_eq_some_iff w i).mp here
      refine ⟨by omega, by rw [has_cons_of_lt w rest within, missing], ?_⟩
      intro d below
      rw [has_cons_of_lt w rest (by omega), before d below]
    · rename_i here
      rw [Word.firstMissing?_eq_none_iff] at here
      subst here
      obtain ⟨e, later, rfl⟩ := Option.map_eq_some_iff.mp found
      obtain ⟨within, missing, before⟩ := ih later
      refine ⟨by omega, by rw [has_cons_add, missing], ?_⟩
      intro d below
      rcases Nat.lt_or_ge d Word.width with small | large
      · rw [has_cons_of_lt _ rest small, Word.has_full small]
      · obtain ⟨f, rfl⟩ := Nat.exists_eq_add_of_le large
        rw [has_cons_add]
        exact before f (by omega)

/-- The number of chunks in a set. -/
theorem card_eq_countP (s : ChunkSet) : s.card = (List.range s.capacity).countP s.has := by
  obtain ⟨words⟩ := s
  induction words with
  | nil => rfl
  | cons w rest ih =>
    have split : capacity ⟨w :: rest⟩ = Word.width + capacity ⟨rest⟩ := by
      rw [capacity, capacity, List.length_cons, Nat.mul_add, Nat.mul_one, Nat.add_comm]
    have first : ∀ i ∈ List.range Word.width, has ⟨w :: rest⟩ i = Word.has w i := fun i member => by
      have within := List.mem_range.mp member
      rw [has, Nat.div_eq_of_lt within, Nat.mod_eq_of_lt within]
      rfl
    have later : ∀ i, has ⟨w :: rest⟩ (Word.width + i) = has ⟨rest⟩ i := fun i => by
      rw [has, Nat.add_div_left i (by decide), Nat.add_mod_left]
      rfl
    rw [split, List.range_add, List.countP_append, List.countP_map,
      List.countP_congr fun i member => by rw [first i member]]
    rw [show has ⟨w :: rest⟩ ∘ (Word.width + ·) = has ⟨rest⟩ from funext later, ← ih]
    rfl

theorem card_le_capacity (s : ChunkSet) : s.card ≤ s.capacity := by
  have most := List.countP_le_length (p := s.has) (l := List.range s.capacity)
  rwa [List.length_range, ← card_eq_countP] at most

end ChunkSet

end SlabAllocator
