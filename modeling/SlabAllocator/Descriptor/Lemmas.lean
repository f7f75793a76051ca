import SlabAllocator.Descriptor.Basic
import SlabAllocator.Memory.Lemmas

namespace SlabAllocator

namespace Link

@[simp] theorem target?_nil : nil.target? = none := by decide

/-- A link leads to the page that it was made for, as long as the number of
the page is not the one that stands for none. -/
theorem target?_page {i : Nat} (small : i < 2 ^ 32 - 1) : (page i).target? = some i := by
  have value : (UInt32.ofNat i).toNat = i := by
    rw [UInt32.toNat_ofNat']
    omega
  have other : page i ≠ nil := by
    intro same
    have := congrArg (fun l => l.raw.toNat) same
    simp only [page, value] at this
    exact absurd this (by
      have : nil.raw.toNat = 2 ^ 32 - 1 := rfl
      omega)
  rw [target?, if_neg other]
  exact congrArg some value

end Link

namespace PageList

@[simp] theorem ofCode?_detached : ofCode? detachedCode = none := rfl

@[simp] theorem ofCode?_code_free : ofCode? free.code = some free := rfl

theorem ofCode?_code_slot {index : Nat} (small : index < 254) :
    ofCode? (slot index).code = some (slot index) := by
  have value : (UInt8.ofNat index).toNat = index := by
    rw [UInt8.toNat_ofNat']
    omega
  have notDetached : UInt8.ofNat index ≠ detachedCode := by
    intro same
    have := congrArg UInt8.toNat same
    rw [value] at this
    exact absurd this (by
      have : detachedCode.toNat = 255 := rfl
      omega)
  have notFree : UInt8.ofNat index ≠ 254 := by
    intro same
    have := congrArg UInt8.toNat same
    rw [value] at this
    exact absurd this (by
      have : (254 : UInt8).toNat = 254 := rfl
      omega)
  simp [ofCode?, code, notDetached, notFree, value]

end PageList

namespace Memory

@[simp] theorem descriptor_setDescriptor (m : Memory) (a : Nat) (d : Descriptor) :
    (m.setDescriptor a d).descriptor a = d := by
  obtain ⟨word, ⟨next⟩, ⟨prev⟩, kind, list, spare⟩ := d
  simp only [descriptor, setDescriptor, Descriptor.mk.injEq, Link.mk.injEq]
  refine ⟨?_, ?_, ?_, ?_, ?_, ?_⟩
  · rw [read_write_of_disjoint _ _ (by omega), read_setByte_of_outside _ _ (by omega),
      read_setByte_of_outside _ _ (by omega), read_write_of_disjoint _ _ (by omega),
      read_write_of_disjoint _ _ (by omega), read_write]
    simp
  · rw [read_write_of_disjoint _ _ (by omega), read_setByte_of_outside _ _ (by omega),
      read_setByte_of_outside _ _ (by omega), read_write_of_disjoint _ _ (by omega), read_write]
    simp
  · rw [read_write_of_disjoint _ _ (by omega), read_setByte_of_outside _ _ (by omega),
      read_setByte_of_outside _ _ (by omega), read_write]
    simp
  · rw [byte_write_of_outside _ _ (by omega), byte_setByte_of_ne _ _ (by omega),
      byte_setByte_self]
  · rw [byte_write_of_outside _ _ (by omega), byte_setByte_self]
  · simp

theorem byte_setDescriptor_of_outside (m : Memory) {a x : Nat} (d : Descriptor)
    (outside : x < a ∨ a + 20 ≤ x) : (m.setDescriptor a d).byte x = m.byte x := by
  simp only [setDescriptor]
  rw [byte_write_of_outside _ _ (by omega), byte_setByte_of_ne _ _ (by omega),
    byte_setByte_of_ne _ _ (by omega), byte_write_of_outside _ _ (by omega),
    byte_write_of_outside _ _ (by omega), byte_write_of_outside _ _ (by omega)]

theorem descriptor_congr {m n : Memory} {a b : Nat}
    (same : ∀ i < 20, m.byte (a + i) = n.byte (b + i)) : m.descriptor a = n.descriptor b := by
  have shifted (k width : Nat) (inside : k + width ≤ 20) :
      m.read (a + k) width = n.read (b + k) width :=
    read_congr fun i within => by
      rw [Nat.add_assoc, Nat.add_assoc]
      exact same (k + i) (by omega)
  have word := shifted 0 8 (by omega)
  rw [Nat.add_zero, Nat.add_zero] at word
  rw [descriptor, descriptor, word, shifted 8 4 (by omega), shifted 12 4 (by omega),
    shifted 18 2 (by omega), same 16 (by omega), same 17 (by omega)]

@[simp] theorem length_words (m : Memory) (a count : Nat) : (m.words a count).length = count := by
  induction count generalizing a with
  | zero => rfl
  | succ count ih => simp [words, ih]

theorem words_congr {m n : Memory} {a b count : Nat}
    (same : ∀ i < 8 * count, m.byte (a + i) = n.byte (b + i)) : m.words a count = n.words b count := by
  induction count generalizing a b with
  | zero => rfl
  | succ count ih =>
    have first : m.read a 8 = n.read b 8 := read_congr fun i within => same i (by omega)
    have others : m.words (a + 8) count = n.words (b + 8) count := by
      apply ih
      intro i within
      rw [Nat.add_assoc, Nat.add_assoc]
      exact same (8 + i) (by omega)
    rw [words, words, first, others]

theorem byte_setWords_of_outside (m : Memory) {a x : Nat} (row : List Word)
    (outside : x < a ∨ a + 8 * row.length ≤ x) : (m.setWords a row).byte x = m.byte x := by
  induction row generalizing m a with
  | nil => rfl
  | cons w rest ih =>
    rw [List.length_cons] at outside
    have first : (m.write a 8 w.toNat).byte x = m.byte x := byte_write_of_outside m _ (by omega)
    rw [setWords, ← first]
    exact ih _ (by omega)

@[simp] theorem words_setWords (m : Memory) (a : Nat) (row : List Word) :
    (m.setWords a row).words a row.length = row := by
  induction row generalizing m a with
  | nil => rfl
  | cons w rest ih =>
    have first : ((m.write a 8 w.toNat).setWords (a + 8) rest).read a 8 =
        (m.write a 8 w.toNat).read a 8 :=
      read_congr fun i within => byte_setWords_of_outside _ _ (by omega)
    simp [setWords, words, ih, first]

end Memory

namespace Descriptor

theorem list?_of_detached {d : Descriptor} (detached : d.list = PageList.detachedCode) :
    d.list? = none := by
  rw [list?, detached, PageList.ofCode?_detached]

/-- Of the kind that is stored, only what it stands for counts. -/
theorem role_eq_of_pageKind {d e : Descriptor} (word : d.word = e.word)
    (kind : d.pageKind = e.pageKind) : d.role = e.role := by
  simp only [role, storedShift, upperMap, word, kind]

theorem role_congr {d e : Descriptor} (word : d.word = e.word) (kind : d.kind = e.kind) :
    d.role = e.role :=
  role_eq_of_pageKind word (congrArg PageKind.ofCode kind)

end Descriptor

end SlabAllocator
