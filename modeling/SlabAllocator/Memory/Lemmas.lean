import SlabAllocator.Memory.Basic

namespace SlabAllocator

namespace Memory

@[simp] theorem size_set (dense : ByteArray) (i : Nat) (value : UInt8) (within : i < dense.size) :
    (dense.set i value within).size = dense.size :=
  Array.size_set within

theorem get_set (dense : ByteArray) {i j : Nat} (value : UInt8) (within : i < dense.size)
    (inside : j < (dense.set i value within).size) (reach : j < dense.size) :
    (dense.set i value within).get j inside = if i = j then value else dense.get j reach :=
  Array.getElem_set within inside

theorem byte_setByte (m : Memory) (a x : Nat) (value : UInt8) :
    (m.setByte a value).byte x = if x = a then value else m.byte x := by
  obtain ⟨origin, dense, outside⟩ := m
  by_cases within : origin ≤ a ∧ a - origin < dense.size
  · rw [setByte, dif_pos within]
    by_cases inside : origin ≤ x ∧ x - origin < dense.size
    · have reach : x - origin < (dense.set (a - origin) value within.2).size := by
        rw [size_set]
        exact inside.2
      rw [byte, dif_pos ⟨inside.1, reach⟩, get_set dense value within.2 reach inside.2, byte,
        dif_pos inside]
      by_cases same : x = a
      · rw [if_pos (by omega), if_pos same]
      · rw [if_neg (by omega), if_neg same]
    · rw [byte, dif_neg (by rw [size_set]; exact inside), byte, dif_neg inside, if_neg]
      rintro rfl
      exact inside within
  · rw [setByte, dif_neg within]
    by_cases inside : origin ≤ x ∧ x - origin < dense.size
    · rw [byte, dif_pos inside, byte, dif_pos inside, if_neg]
      rintro rfl
      exact within inside
    · rw [byte, dif_neg inside, byte, dif_neg inside]

@[simp] theorem byte_setByte_self (m : Memory) (a : Nat) (value : UInt8) :
    (m.setByte a value).byte a = value := by
  simp [byte_setByte]

@[simp] theorem byte_setByte_of_ne (m : Memory) {a x : Nat} (value : UInt8) (other : x ≠ a) :
    (m.setByte a value).byte x = m.byte x := by
  simp [byte_setByte, other]

@[simp] theorem length_bytes (m : Memory) (a count : Nat) : (m.bytes a count).length = count := by
  induction count generalizing a with
  | zero => rfl
  | succ count ih => simp [bytes, ih]

theorem getElem?_bytes (m : Memory) (a : Nat) {count i : Nat} (within : i < count) :
    (m.bytes a count)[i]? = some (m.byte (a + i)) := by
  induction count generalizing a i with
  | zero => omega
  | succ count ih =>
    cases i with
    | zero => rfl
    | succ i =>
      rw [bytes, List.getElem?_cons_succ, ih (a + 1) (by omega)]
      congr 2
      omega

/-- What is read depends on the bytes in reach alone. -/
theorem bytes_congr {m n : Memory} {a b count : Nat}
    (same : ∀ i < count, m.byte (a + i) = n.byte (b + i)) : m.bytes a count = n.bytes b count := by
  apply List.ext_getElem?
  intro i
  rcases Nat.lt_or_ge i count with within | beyond
  · rw [getElem?_bytes m a within, getElem?_bytes n b within, same i within]
  · rw [List.getElem?_eq_none, List.getElem?_eq_none] <;> simpa using beyond

/-- Bytes before and after the written ones stay as they were. -/
theorem byte_setBytes_of_outside (m : Memory) {a x : Nat} (values : List UInt8)
    (outside : x < a ∨ a + values.length ≤ x) : (m.setBytes a values).byte x = m.byte x := by
  induction values generalizing m a with
  | nil => rfl
  | cons value rest ih =>
    rw [List.length_cons] at outside
    rw [setBytes, ih _ (by omega), byte_setByte_of_ne m value (by omega)]

theorem byte_setBytes (m : Memory) (a : Nat) {values : List UInt8} {i : Nat} {value : UInt8}
    (written : values[i]? = some value) : (m.setBytes a values).byte (a + i) = value := by
  induction values generalizing m a i with
  | nil => simp at written
  | cons first rest ih =>
    rw [setBytes]
    cases i with
    | zero =>
      rw [byte_setBytes_of_outside _ _ (by omega), Nat.add_zero, byte_setByte_self]
      simpa using written
    | succ i =>
      rw [show a + (i + 1) = a + 1 + i by omega]
      exact ih _ _ (by simpa using written)

@[simp] theorem bytes_setBytes (m : Memory) (a : Nat) (values : List UInt8) :
    (m.setBytes a values).bytes a values.length = values := by
  apply List.ext_getElem?
  intro i
  rcases Nat.lt_or_ge i values.length with within | beyond
  · rw [getElem?_bytes _ _ within, List.getElem?_eq_getElem within]
    congr 1
    exact byte_setBytes m a (List.getElem?_eq_getElem within)
  · rw [List.getElem?_eq_none beyond, List.getElem?_eq_none]
    simpa using beyond

theorem bytes_setBytes_of_disjoint (m : Memory) {a b count : Nat} (values : List UInt8)
    (apart : b + count ≤ a ∨ a + values.length ≤ b) :
    (m.setBytes a values).bytes b count = m.bytes b count :=
  bytes_congr fun i within => byte_setBytes_of_outside m values (by omega)

/-- Storing what is there changes no byte. -/
@[simp] theorem byte_setBytes_bytes (m : Memory) (a count x : Nat) :
    (m.setBytes a (m.bytes a count)).byte x = m.byte x := by
  by_cases outside : x < a ∨ a + (m.bytes a count).length ≤ x
  · exact byte_setBytes_of_outside m _ outside
  · rw [length_bytes] at outside
    obtain ⟨i, rfl⟩ := Nat.exists_eq_add_of_le (show a ≤ x by omega)
    exact byte_setBytes m a (getElem?_bytes m a (by omega))

theorem byte_fill (m : Memory) (a count x : Nat) (value : UInt8) :
    (m.fill a count value).byte x = if a ≤ x ∧ x < a + count then value else m.byte x := by
  induction count generalizing m a with
  | zero =>
    rw [fill, if_neg (by omega)]
  | succ count ih =>
    rw [fill, ih, byte_setByte]
    by_cases first : x = a
    · rw [if_neg (by omega), if_pos first, if_pos (by omega)]
    · by_cases inside : a + 1 ≤ x ∧ x < a + 1 + count
      · rw [if_pos inside, if_pos (by omega)]
      · rw [if_neg inside, if_neg first, if_neg (by omega)]

theorem read_lt (m : Memory) (a width : Nat) : m.read a width < 256 ^ width := by
  simpa [read] using ofLittleEndian_lt (m.bytes a width)

@[simp] theorem read_write (m : Memory) (a width value : Nat) :
    (m.write a width value).read a width = value % 256 ^ width := by
  have stored := bytes_setBytes m a (littleEndian width value)
  rw [length_littleEndian] at stored
  rw [read, write, stored, ofLittleEndian_littleEndian]

theorem read_write_of_disjoint (m : Memory) {a b width count : Nat} (value : Nat)
    (apart : b + count ≤ a ∨ a + width ≤ b) :
    (m.write a width value).read b count = m.read b count := by
  rw [read, read, write, bytes_setBytes_of_disjoint]
  simpa using apart

theorem byte_write_of_outside (m : Memory) {a x width : Nat} (value : Nat)
    (outside : x < a ∨ a + width ≤ x) : (m.write a width value).byte x = m.byte x := by
  rw [write, byte_setBytes_of_outside]
  simpa using outside

/-- The bytes that a number is stored in do not depend on what was there. -/
theorem byte_write_of_inside (m n : Memory) {a x width : Nat} (value : Nat) (lower : a ≤ x)
    (upper : x < a + width) : (m.write a width value).byte x = (n.write a width value).byte x := by
  obtain ⟨i, rfl⟩ := Nat.exists_eq_add_of_le lower
  have within : i < (littleEndian width value).length := by simpa using upper
  have written := List.getElem?_eq_getElem within
  rw [write, write, byte_setBytes m a written, byte_setBytes n a written]

/-- Storing the number that is there changes no byte. -/
@[simp] theorem byte_write_read (m : Memory) (a width x : Nat) :
    (m.write a width (m.read a width)).byte x = m.byte x := by
  have same := littleEndian_ofLittleEndian (m.bytes a width)
  rw [length_bytes] at same
  rw [write, read, same, byte_setBytes_bytes]

theorem read_setByte_of_outside (m : Memory) {a b width : Nat} (value : UInt8)
    (apart : a < b ∨ b + width ≤ a) : (m.setByte a value).read b width = m.read b width := by
  rw [read, read]
  congr 1
  exact bytes_congr fun i within => byte_setByte_of_ne m value (by omega)

theorem read_congr {m n : Memory} {a b width : Nat}
    (same : ∀ i < width, m.byte (a + i) = n.byte (b + i)) : m.read a width = n.read b width := by
  rw [read, read, bytes_congr same]

end Memory

end SlabAllocator
