import SlabAllocator.Proofs.InWidth

namespace SlabAllocator

/-- Two steps come out alike: with the same error or with answers that are
related. -/
inductive Alike {ε α β : Type} (R : α → β → Prop) : Except ε α → Except ε β → Prop
  | answer {a : α} {b : β} (related : R a b) : Alike R (.ok a) (.ok b)
  | error (e : ε) : Alike R (.error e) (.error e)

namespace Alike

variable {ε α β γ δ : Type} {R : α → β → Prop} {S : γ → δ → Prop}

theorem bind {x : Except ε α} {y : Except ε β} {f : α → Except ε γ} {g : β → Except ε δ}
    (first : Alike R x y) (next : ∀ a b, R a b → Alike S (f a) (g b)) :
    Alike S (x >>= f) (y >>= g) := by
  cases first with
  | answer related => exact next _ _ related
  | error e => exact .error e

/-- Where the first steps are equal, what follows may rely on their answer. -/
theorem bind_eq {x y : Except ε α} {f : α → Except ε γ} {g : α → Except ε δ}
    (same : y = x) (next : ∀ a, x = .ok a → Alike S (f a) (g a)) :
    Alike S (x >>= f) (y >>= g) := by
  rw [same]
  cases x with
  | ok a => exact next a rfl
  | error e => exact .error e

theorem ite {p q : Prop} [Decidable p] [Decidable q] {x x' : Except ε α} {y y' : Except ε β}
    (same : q ↔ p) (yes : p → Alike R x y) (no : ¬p → Alike R x' y') :
    Alike R (if p then x else x') (if q then y else y') := by
  by_cases holds : p
  · rw [if_pos holds, if_pos (same.mpr holds)]
    exact yes holds
  · rw [if_neg holds, if_neg (mt same.mp holds)]
    exact no holds

theorem of_ok {x : Except ε α} {y : Except ε β} {a : α} (alike : Alike R x y)
    (answered : x = .ok a) : ∃ b, y = .ok b ∧ R a b := by
  cases alike with
  | answer related =>
    cases answered
    exact ⟨_, rfl, related⟩
  | error e => cases answered

end Alike

namespace Region

/-- The same region at another place where it is laid out alike. -/
def moved (r : Region) (base : Nat) (fit : Layout.plan base r.length r.geometry = .ok r.layout) :
    Region :=
  { r with base, planned := fit }

/-- The bytes of the span of a region are found again, from `base` on, in what
somebody else sees of the memory. -/
def Mirrored (r : Region) (base : Nat) (m seen : Memory) : Prop :=
  ∀ k < r.length, seen.byte (base + k) = m.byte (r.base + k)

variable {r : Region} {base : Nat} {m seen : Memory}

namespace Mirrored

variable {a b : Nat}

theorem byte (mirrored : r.Mirrored base m seen) (same : a + base = b + r.base)
    (lower : r.base ≤ a) (upper : a < r.finish) : seen.byte b = m.byte a := by
  unfold finish at upper
  have here := mirrored (a - r.base) (by omega)
  rwa [show base + (a - r.base) = b by omega, show r.base + (a - r.base) = a by omega] at here

theorem setByte (mirrored : r.Mirrored base m seen) (same : a + base = b + r.base) (value : UInt8) :
    r.Mirrored base (m.setByte a value) (seen.setByte b value) := by
  intro k within
  rw [Memory.byte_setByte, Memory.byte_setByte, mirrored k within]
  by_cases here : r.base + k = a
  · rw [if_pos here, if_pos (by omega)]
  · rw [if_neg here, if_neg (by omega)]

theorem setBytes (mirrored : r.Mirrored base m seen) (same : a + base = b + r.base)
    (values : List UInt8) : r.Mirrored base (m.setBytes a values) (seen.setBytes b values) := by
  induction values generalizing m seen a b with
  | nil => exact mirrored
  | cons value rest ih => exact ih (mirrored.setByte same value) (by omega)

theorem write (mirrored : r.Mirrored base m seen) (same : a + base = b + r.base)
    (width value : Nat) : r.Mirrored base (m.write a width value) (seen.write b width value) :=
  mirrored.setBytes same _

theorem fill (mirrored : r.Mirrored base m seen) (same : a + base = b + r.base) (count : Nat)
    (value : UInt8) : r.Mirrored base (m.fill a count value) (seen.fill b count value) := by
  induction count generalizing m seen a b with
  | zero => exact mirrored
  | succ count ih => exact ih (mirrored.setByte same value) (by omega)

theorem setWords (mirrored : r.Mirrored base m seen) (same : a + base = b + r.base)
    (row : List Word) : r.Mirrored base (m.setWords a row) (seen.setWords b row) := by
  induction row generalizing m seen a b with
  | nil => exact mirrored
  | cons w rest ih => exact ih (mirrored.write same 8 _) (by omega)

theorem setDescriptor (mirrored : r.Mirrored base m seen) (same : a + base = b + r.base)
    (d : Descriptor) : r.Mirrored base (m.setDescriptor a d) (seen.setDescriptor b d) := by
  have one := mirrored.write same 8 d.word.toNat
  have two := one.write (a := a + 8) (b := b + 8) (by omega) 4 d.next.raw.toNat
  have three := two.write (a := a + 12) (b := b + 12) (by omega) 4 d.prev.raw.toNat
  have four := three.setByte (a := a + 16) (b := b + 16) (by omega) d.kind
  have five := four.setByte (a := a + 17) (b := b + 17) (by omega) d.list
  exact five.write (by omega) 2 d.spare.toNat

theorem read (mirrored : r.Mirrored base m seen) (same : a + base = b + r.base)
    (lower : r.base ≤ a) {width : Nat} (upper : a + width ≤ r.finish) :
    seen.read b width = m.read a width :=
  Memory.read_congr fun i within => mirrored.byte (by omega) (by omega) (by omega)

end Mirrored

theorem header_le_length (r : Region) : Layout.headerSize ≤ r.length := by
  obtain ⟨_, fits, _⟩ := Layout.plan_eq_ok_iff.mp r.planned
  have heads := Layout.heads_le_descriptorsOffset r.geometry
  omega

theorem descriptors_le_finish (r : Region) : r.base + r.layout.descriptorsAt ≤ r.finish := by
  obtain ⟨_, fits, layout⟩ := Layout.plan_eq_ok_iff.mp r.planned
  have offset := congrArg Layout.descriptorsAt layout
  unfold finish
  dsimp only at offset
  omega

section Addresses

variable (fit : Layout.plan base r.length r.geometry = .ok r.layout)

theorem headAddress_moved (list : PageList) :
    r.headAddress list + base = (r.moved base fit).headAddress list + r.base := by
  cases list <;> simp only [headAddress, moved] <;> omega

theorem descriptorAddress_moved (i : Nat) :
    r.descriptorAddress i + base = (r.moved base fit).descriptorAddress i + r.base := by
  simp only [descriptorAddress, moved]
  omega

theorem start_moved : r.start + base = (r.moved base fit).start + r.base := by
  simp only [start, moved]
  omega

theorem pageAddress_moved (i : Nat) :
    r.pageAddress i + base = (r.moved base fit).pageAddress i + r.base := by
  simp only [pageAddress, start, pageSize, moved]
  omega

end Addresses

variable {fit : Layout.plan base r.length r.geometry = .ok r.layout} {i : Nat} {list : PageList}

namespace Mirrored

theorem headOf (mirrored : r.Mirrored base m seen) (known : r.HasList list) :
    (r.moved base fit).headOf list seen = r.headOf list m := by
  have bounds := r.headAddress_bounds known
  have inside := r.descriptors_le_finish
  rw [Region.headOf, Region.headOf, mirrored.read (headAddress_moved fit list) (by omega) (by omega)]

theorem descriptor (mirrored : r.Mirrored base m seen) (within : i < r.pageCount) :
    (r.moved base fit).descriptor i seen = r.descriptor i m := by
  have bounds := r.descriptorAddress_bounds within
  have start := r.start_le_pageAddress i
  have inside := pageAddress_le_finish within
  have same := descriptorAddress_moved fit i
  exact Memory.descriptor_congr fun k reach => mirrored.byte (by omega) (by omega) (by omega)

theorem words (mirrored : r.Mirrored base m seen) (within : i < r.pageCount) {count : Nat}
    (room : 8 * count ≤ r.pageSize) :
    seen.words ((r.moved base fit).pageAddress i) count = m.words (r.pageAddress i) count := by
  have start := r.start_le_pageAddress i
  have lower : r.base ≤ r.start := Nat.le_add_right ..
  have inside := pageAddress_le_finish within
  have same := pageAddress_moved fit i
  exact Memory.words_congr fun k reach => mirrored.byte (by omega) (by omega) (by omega)

end Mirrored

end Region

end SlabAllocator
