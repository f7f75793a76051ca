import SlabAllocator.Descriptor.Lemmas
import SlabAllocator.Region.Basic

namespace SlabAllocator

namespace Region

variable (r : Region)

theorem headAddress_bounds {list : PageList} (known : r.HasList list) :
    r.base + Header.freeAt ≤ r.headAddress list ∧
      r.headAddress list + 4 ≤ r.base + r.layout.descriptorsAt := by
  have fit := Layout.heads_fit r.planned
  have slots : r.layout.slotsAt = Layout.headerSize := by
    obtain ⟨_, _, layout⟩ := Layout.plan_eq_ok_iff.mp r.planned
    rw [layout]
  unfold Layout.headerSize at slots
  unfold Layout.headSize at fit
  cases list with
  | free =>
    simp only [headAddress, Header.freeAt]
    omega
  | slot index =>
    have below : index < r.layout.slotCount := known
    simp only [headAddress, Header.freeAt, Layout.headSize]
    omega

theorem headAddress_apart {list other : PageList} (different : list ≠ other) :
    r.headAddress list + 4 ≤ r.headAddress other ∨
      r.headAddress other + 4 ≤ r.headAddress list := by
  have slots : r.layout.slotsAt = Layout.headerSize := by
    obtain ⟨_, _, layout⟩ := Layout.plan_eq_ok_iff.mp r.planned
    rw [layout]
  unfold Layout.headerSize at slots
  cases list <;> cases other <;>
    simp only [headAddress, Header.freeAt, Layout.headSize, ne_eq, PageList.slot.injEq,
      not_true_eq_false, reduceCtorEq] at different ⊢ <;> omega

theorem descriptorAddress_bounds {i : Nat} (within : i < r.pageCount) :
    r.base + r.layout.descriptorsAt ≤ r.descriptorAddress i ∧
      r.descriptorAddress i + 24 ≤ r.start := by
  have fit := Layout.descriptors_fit r.planned
  have below : i < r.layout.pageCount := within
  unfold descriptorAddress start
  unfold Layout.descriptorSize at fit ⊢
  omega

theorem descriptorAddress_apart {i j : Nat} (different : i ≠ j) :
    r.descriptorAddress i + 24 ≤ r.descriptorAddress j ∨
      r.descriptorAddress j + 24 ≤ r.descriptorAddress i := by
  unfold descriptorAddress Layout.descriptorSize
  omega

@[simp] theorem descriptor_putDescriptor_self (i : Nat) (d : Descriptor) (m : Memory) :
    r.descriptor i (r.putDescriptor i d m) = d :=
  m.descriptor_setDescriptor (r.descriptorAddress i) d

@[simp] theorem descriptor_putDescriptor_of_ne {i j : Nat} (d : Descriptor) (m : Memory)
    (different : j ≠ i) : r.descriptor j (r.putDescriptor i d m) = r.descriptor j m := by
  apply Memory.descriptor_congr
  intro k within
  have apart := r.descriptorAddress_apart different
  exact Memory.byte_setDescriptor_of_outside m d (by omega)

@[simp] theorem headOf_putDescriptor {list : PageList} {i : Nat} (d : Descriptor) (m : Memory)
    (known : r.HasList list) : r.headOf list (r.putDescriptor i d m) = r.headOf list m := by
  have bounds := r.headAddress_bounds known
  have here : r.base + r.layout.descriptorsAt ≤ r.descriptorAddress i := Nat.le_add_right ..
  have same : (r.putDescriptor i d m).read (r.headAddress list) 4 =
      m.read (r.headAddress list) 4 :=
    Memory.read_congr fun k within => Memory.byte_setDescriptor_of_outside m d (by omega)
  rw [headOf, headOf, same]

@[simp] theorem headOf_putHead_self (list : PageList) (link : Link) (m : Memory) :
    r.headOf list (r.putHead list link m) = link := by
  have value : link.raw.toNat % 256 ^ 4 = link.raw.toNat := Nat.mod_eq_of_lt link.raw.toNat_lt
  rw [headOf, putHead, Memory.read_write, value, UInt32.ofNat_toNat]

@[simp] theorem headOf_putHead_of_ne {list other : PageList} (link : Link) (m : Memory)
    (different : other ≠ list) : r.headOf other (r.putHead list link m) = r.headOf other m := by
  have apart := r.headAddress_apart different
  rw [headOf, headOf, putHead, Memory.read_write_of_disjoint m _ (by omega)]

@[simp] theorem descriptor_putHead {list : PageList} {i : Nat} (link : Link) (m : Memory)
    (known : r.HasList list) : r.descriptor i (r.putHead list link m) = r.descriptor i m := by
  have bounds := r.headAddress_bounds known
  have here : r.base + r.layout.descriptorsAt ≤ r.descriptorAddress i := Nat.le_add_right ..
  exact Memory.descriptor_congr fun k within => Memory.byte_write_of_outside m _ (by omega)

theorem byte_putDescriptor {i x : Nat} (d : Descriptor) (m : Memory)
    (outside : x < r.descriptorAddress i ∨ r.descriptorAddress i + 20 ≤ x) :
    (r.putDescriptor i d m).byte x = m.byte x :=
  m.byte_setDescriptor_of_outside d outside

theorem byte_putHead {list : PageList} {x : Nat} (link : Link) (m : Memory)
    (outside : x < r.headAddress list ∨ r.headAddress list + 4 ≤ x) :
    (r.putHead list link m).byte x = m.byte x :=
  m.byte_write_of_outside _ outside

@[simp] theorem page_eq {i : Nat} (m : Memory) (within : i < r.pageCount) :
    r.page i m = .ok (r.descriptor i m) := by
  rw [page, require_of within]
  rfl

@[simp] theorem setPage_eq {i : Nat} (d : Descriptor) (m : Memory) (within : i < r.pageCount) :
    r.setPage i d m = .ok (r.putDescriptor i d m) := by
  rw [setPage, require_of within]
  rfl

@[simp] theorem head_eq {list : PageList} (m : Memory) (known : r.HasList list) :
    r.head list m = .ok (r.headOf list m) := by
  rw [head, require_of known]
  rfl

@[simp] theorem setHead_eq {list : PageList} (link : Link) (m : Memory) (known : r.HasList list) :
    r.setHead list link m = .ok (r.putHead list link m) := by
  rw [setHead, require_of known]
  rfl

@[simp] theorem modifyPage_eq {i : Nat} (change : Descriptor → Descriptor) (m : Memory)
    (within : i < r.pageCount) :
    r.modifyPage i change m = .ok (r.putDescriptor i (change (r.descriptor i m)) m) := by
  rw [modifyPage, page_eq r m within]
  exact r.setPage_eq _ m within

end Region

end SlabAllocator
