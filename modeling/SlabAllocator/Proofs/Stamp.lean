import SlabAllocator.Proofs.Writes

namespace SlabAllocator

namespace Header

/-- The header as it is read back: each number is cut to its width. -/
def cut (h : Header) : Header where
  magic := h.magic % 256 ^ 8
  lock := h.lock % 256 ^ 4
  wordBits := h.wordBits % 256 ^ 4
  pageShift := h.pageShift % 256 ^ 4
  minShift := h.minShift % 256 ^ 4
  slotCount := h.slotCount % 256 ^ 4
  pageCount := h.pageCount % 256 ^ 4
  free := h.free % 256 ^ 4
  dataAt := h.dataAt % 256 ^ 8
  length := h.length % 256 ^ 8
  userData := h.userData % 256 ^ 8

@[simp] theorem load_store (h : Header) (base : Nat) (m : Memory) : load (h.store base m) base = h.cut := by
  unfold load store cut lockAt freeAt userDataAt
  simp (disch := omega) only [Memory.read_write_of_disjoint, Memory.read_write]

/-- The part of a header that says how its region is laid out. The rest changes
while the region is in use. -/
def stamp (h : Header) : Header := { h with lock := 0, free := 0, userData := 0 }

/-- The offsets of the bytes that this part is kept in. -/
def Fixed (k : Nat) : Prop :=
  k < lockAt ∨ lockAt + 4 ≤ k ∧ k < freeAt ∨ freeAt + 4 ≤ k ∧ k < userDataAt

/-- The offsets of the bytes of the header that are no part of a table, as the link
to the first free run is. -/
def Own (k : Nat) : Prop := k < Layout.headerSize ∧ (k < freeAt ∨ freeAt + 4 ≤ k)

theorem Fixed.own {k : Nat} (fixed : Fixed k) : Own k := by
  unfold Fixed lockAt freeAt userDataAt at fixed
  unfold Own freeAt Layout.headerSize
  omega

theorem stamp_load_congr {m n : Memory} {a b : Nat}
    (same : ∀ k, Fixed k → m.byte (a + k) = n.byte (b + k)) : (load m a).stamp = (load n b).stamp := by
  have fixed (k width : Nat) (inside : ∀ i < width, Fixed (k + i)) :
      m.read (a + k) width = n.read (b + k) width :=
    Memory.read_congr fun i within => by
      rw [Nat.add_assoc, Nat.add_assoc]
      exact same (k + i) (inside i within)
  unfold Fixed lockAt freeAt userDataAt at fixed
  have magic := fixed 0 8 (by omega)
  rw [Nat.add_zero, Nat.add_zero] at magic
  rw [stamp, stamp, load, load, magic, fixed 12 4 (by omega), fixed 16 4 (by omega),
    fixed 20 4 (by omega), fixed 24 4 (by omega), fixed 28 4 (by omega), fixed 40 8 (by omega),
    fixed 48 8 (by omega)]

/-- Only that part is compared with a layout. -/
theorem mismatch?_stamp (h : Header) (g : Geometry) (layout : Layout) :
    h.stamp.mismatch? g layout = h.mismatch? g layout := rfl

theorem mismatch?_eq_none_iff {h : Header} {g : Geometry} {layout : Layout} :
    h.mismatch? g layout = none ↔
      h.magic = mark ∧ h.wordBits = Word.width ∧ h.pageShift = g.pageShift ∧
        (h.minShift = g.minShift ∧ h.slotCount = layout.slotCount) ∧
        h.length = layout.length ∧ h.pageCount = layout.pageCount ∧ h.dataAt = layout.dataAt := by
  unfold mismatch?
  grind

end Header

namespace Region

variable {r : Region} {m after : Memory} {k : Nat}

/-- The header of the region says how it is laid out. -/
def Stamped (r : Region) (m : Memory) : Prop :=
  (Header.load m r.base).stamp = r.freshHeader.cut.stamp

theorem not_inTables_of_own (own : Header.Own k) : ¬r.InTables (r.base + k) := by
  obtain ⟨inside, other⟩ := own
  have idle : r.Idle (PageMap.fresh r) (r.base + k) := idle_of_header (by omega) (by omega)
  exact idle.1

theorem not_inPages_of_own (own : Header.Own k) : ¬r.InPages (r.base + k) := by
  have start := r.header_le_start
  have inside := own.1
  rintro ⟨lower, _⟩
  omega

theorem InsideOnly.own (inside : r.InsideOnly m after) (own : Header.Own k) :
    after.byte (r.base + k) = m.byte (r.base + k) :=
  inside _ (not_inTables_of_own own) (not_inPages_of_own own)

theorem Stamped.congr (stamped : r.Stamped m)
    (same : ∀ k, Header.Fixed k → after.byte (r.base + k) = m.byte (r.base + k)) :
    r.Stamped after :=
  (Header.stamp_load_congr same).trans stamped

end Region

theorem Call.not_mayWrite_of_fixed {r : Region} {k : Nat} (c : Call) (fixed : Header.Fixed k) :
    ¬c.MayWrite r (r.base + k) := by
  have table := Region.not_inTables_of_own (r := r) fixed.own
  have page := Region.not_inPages_of_own (r := r) fixed.own
  unfold Header.Fixed at fixed
  cases c with
  | allocate | allocateZeroed | release => exact not_or.mpr ⟨table, page⟩
  | write => exact page
  | setLockWord | setUserData =>
    unfold MayWrite Header.lockAt Header.freeAt Header.userDataAt at *
    omega

/-- A new pool has a new header. -/
theorem Pool.byte_create {base length : Nat} {settings : Settings} {m after : Memory} {pool : Pool}
    (run : Pool.create base length settings m = (.ok pool, after)) {k : Nat} (own : Header.Own k) :
    after.byte (pool.region.base + k) =
      (pool.region.freshHeader.store pool.region.base m).byte (pool.region.base + k) := by
  obtain ⟨r, _, rfl, rfl⟩ := Pool.create_eq_ok_iff.mp run
  have formatted : (r.format m).byte (r.base + k) =
      (r.freshHeader.store r.base m).byte (r.base + k) :=
    Region.format_tables _ (Region.not_inTables_of_own own)
  unfold Pool.spoil
  split
  · have spoiled : r.InsideOnly (r.format m)
        ((r.format m).fill r.start (r.pageCount * r.pageSize) junkByte) :=
      .fill (fun x lower upper => ⟨lower, upper⟩) junkByte
    exact (spoiled.own own).trans formatted
  · exact formatted

theorem Pool.stamped_create {base length : Nat} {settings : Settings} {m after : Memory}
    {pool : Pool} (run : Pool.create base length settings m = (.ok pool, after)) :
    pool.region.Stamped after := by
  have stored : pool.region.Stamped (pool.region.freshHeader.store pool.region.base m) := by
    rw [Region.Stamped, Header.load_store]
  exact stored.congr fun k fixed => Pool.byte_create run fixed.own

/-- Nothing that happens to a pool changes what its header says of its layout. -/
theorem Reachable.stamped {r : Region} {s : PoolState} (reached : Reachable r s) :
    r.Stamped s.memory := by
  induction reached with
  | create run handle =>
    subst handle
    exact Pool.stamped_create run
  | @call pool s after c before handle allowed run stamped =>
    subst handle
    exact stamped.congr fun k fixed =>
      PoolState.perform_writes before.invariant allowed run (c.not_mayWrite_of_fixed fixed)

end SlabAllocator
