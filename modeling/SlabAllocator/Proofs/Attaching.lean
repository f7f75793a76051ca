import Mathlib.Data.Nat.ModEq
import SlabAllocator.Proofs.Mirrored
import SlabAllocator.Proofs.NoFault
import SlabAllocator.Proofs.Stamp
import SlabAllocator.Session

namespace SlabAllocator

/-- Moving a value by a multiple of `align` moves the next boundary along. -/
theorem alignUp_add_mul (value k : Nat) {align : Nat} (positive : 0 < align) :
    alignUp (value + k * align) align = alignUp value align + k * align := by
  have shifted : value + k * align + align - 1 = value + align - 1 + k * align := by omega
  rw [alignUp, alignUp, shifted, Nat.add_mul_div_right _ _ positive, Nat.add_mul]

namespace Layout

variable {base other length k : Nat} {g : Geometry} {layout : Layout}

theorem dataStart_add_mul :
    dataStart (base + k * g.pageSize) length g = dataStart base length g + k * g.pageSize := by
  have positive : 0 < g.pageSize := Nat.two_pow_pos _
  rw [dataStart, dataStart, ← alignUp_add_mul _ _ positive]
  congr 1
  omega

theorem fittingPages_add_mul :
    fittingPages (base + k * g.pageSize) length g = fittingPages base length g := by
  rw [fittingPages, fittingPages, dataStart_add_mul]
  congr 1
  omega

/-- Whole pages before a span make no difference to its layout. -/
theorem plan_add_mul (valid : g.Valid) :
    plan (base + k * g.pageSize) length g = .ok layout ↔ plan base length g = .ok layout := by
  have whole : k * g.pageSize % tableAlign = 0 := by
    have divides : 2 ^ 3 ∣ 2 ^ g.pageShift := Nat.pow_dvd_pow 2 (by have := valid.1; omega)
    exact Nat.mod_eq_zero_of_dvd (Nat.dvd_mul_left_of_dvd divides k)
  have aligned : (base + k * g.pageSize) % tableAlign = base % tableAlign := by
    rw [Nat.add_mod, whole, Nat.add_zero, Nat.mod_mod]
  have start : dataStart base length g + k * g.pageSize - (base + k * g.pageSize) =
      dataStart base length g - base := by omega
  rw [plan_eq_ok_iff, plan_eq_ok_iff, dataStart_add_mul, fittingPages_add_mul, aligned, start]

/-- Spans of one length that start equally far behind a page boundary are laid
out alike. -/
theorem plan_congr (valid : g.Valid) (congruent : other % g.pageSize = base % g.pageSize)
    (planned : plan base length g = .ok layout) : plan other length g = .ok layout := by
  have left := Nat.div_add_mod base g.pageSize
  have right := Nat.div_add_mod other g.pageSize
  rw [Nat.mul_comm, Nat.add_comm] at left right
  rw [← right, congruent, plan_add_mul valid]
  rwa [← left, plan_add_mul valid] at planned

/-- The offset of the first page tells how far behind a page boundary the span
starts. -/
theorem congruent_of_dataAt {length' : Nat} {layout' : Layout}
    (planned : plan base length g = .ok layout) (also : plan other length' g = .ok layout')
    (same : layout'.dataAt = layout.dataAt) : other % g.pageSize = base % g.pageSize := by
  have left := Nat.mod_eq_zero_of_dvd (data_aligned planned)
  have right := Nat.mod_eq_zero_of_dvd (data_aligned also)
  rw [same] at right
  exact Nat.ModEq.add_right_cancel' layout.dataAt (right.trans left.symm)

end Layout

namespace Settings

variable {s other : Settings} {g : Geometry}

theorem pageSize_eq (chosen : s.geometry = .ok g) :
    g.pageSize = s.pageSize ∧ g.minShift = s.minShift := by
  unfold geometry at chosen
  split at chosen
  · rename_i size
    dsimp only at chosen
    split at chosen
    · cases chosen
      exact ⟨size.2.2, rfl⟩
    · cases chosen
  · cases chosen

/-- The page size and the least chunk fix the geometry, and are fixed by it. -/
theorem geometry_eq_iff (chosen : s.geometry = .ok g) :
    other.geometry = .ok g ↔ other.pageSize = s.pageSize ∧ other.minShift = s.minShift := by
  have here := pageSize_eq chosen
  constructor
  · intro also
    have there := pageSize_eq also
    exact ⟨there.1.symm.trans here.1, there.2.symm.trans here.2⟩
  · rintro ⟨size, least⟩
    rw [← chosen, geometry, geometry, size, least]

end Settings

theorem Geometry.eq_iff {g other : Geometry} :
    g = other ↔ g.pageShift = other.pageShift ∧ g.minShift = other.minShift := by
  cases g
  cases other
  simp only [Geometry.mk.injEq]

namespace Region

variable {r : Region} {m seen : Memory} {view : Region}

theorem layout_length (r : Region) : r.layout.length = r.length := by
  obtain ⟨_, _, layout⟩ := Layout.plan_eq_ok_iff.mp r.planned
  rw [layout]

/-- A view of a region is accepted where all that it expects of the header is
what the region was laid out with, as far as the header has room for it. -/
theorem Stamped.mismatch?_eq_none_iff (stamped : r.Stamped m)
    (mirrored : r.Mirrored view.base m seen) (word : r.length < 2 ^ 64) :
    view.mismatch? seen = none ↔
      view.geometry = r.geometry ∧ view.length = r.length ∧ view.pageCount = r.pageCount ∧
        view.layout.dataAt = r.layout.dataAt % 2 ^ 64 := by
  have header : (Header.load seen view.base).stamp = r.freshHeader.cut.stamp := by
    refine (Header.stamp_load_congr fun k fixed => mirrored k ?_).trans stamped
    have long := r.header_le_length
    unfold Header.Fixed Header.lockAt Header.freeAt Header.userDataAt at fixed
    unfold Layout.headerSize at long
    omega
  rw [mismatch?, ← Header.mismatch?_stamp, header, Header.mismatch?_stamp,
    Header.mismatch?_eq_none_iff]
  -- The marks always fit. The rest is compared as far as its field is wide.
  have magic : Header.mark % 256 ^ 8 = Header.mark := by decide
  have width : Word.width % 256 ^ 4 = Word.width := by decide
  have slots := r.slotCount_le
  have pages : r.layout.pageCount ≤ 2 ^ 32 - 2 := r.pageCount_le
  have shift := r.valid.2.1
  have least := r.valid.2.2.2
  have viewSlots : view.layout.slotCount = view.geometry.pageShift - view.geometry.minShift :=
    view.slotCount_eq
  have slotCount : r.slotCount = r.geometry.pageShift - r.geometry.minShift := r.slotCount_eq
  simp only [Header.cut, freshHeader, magic, width, true_and, Geometry.eq_iff, pageCount,
    view.layout_length]
  omega

end Region

namespace Pool

variable {base length : Nat} {settings : Settings} {m : Memory} {r : Region} {pool : Pool}

theorem plan_eq_ok_iff : plan base length settings = .ok r ↔
    r.base = base ∧ r.length = length ∧ settings.geometry = .ok r.geometry := by
  constructor
  · intro planned
    unfold plan at planned
    split at planned
    · unfold Region.plan at planned
      split at planned
      · cases planned
        exact ⟨rfl, rfl, by assumption⟩
      · cases planned
    · cases planned
  · rintro ⟨rfl, rfl, chosen⟩
    have planned := r.planned
    unfold plan
    split
    · rename_i g also
      rw [chosen] at also
      cases also
      unfold Region.plan
      split
      · rename_i layout fit
        rw [planned] at fit
        cases fit
        rfl
      · rename_i e fit
        rw [planned] at fit
        cases fit
    · rename_i e also
      rw [chosen] at also
      cases also

theorem plan_of_create {after : Memory} (run : create base length settings m = (.ok pool, after)) :
    pool.region.base = base ∧ pool.region.length = length ∧
      settings.geometry = .ok pool.region.geometry := by
  obtain ⟨r, planned, rfl, _⟩ := create_eq_ok_iff.mp run
  exact plan_eq_ok_iff.mp planned

theorem attach_eq_ok_iff : attach base length settings m = .ok pool ↔
    ∃ r, plan base length settings = .ok r ∧ r.mismatch? m = none ∧ ofRegion r settings = pool := by
  cases planned : plan base length settings with
  | error e => simp only [attach, planned, bind, Except.bind, reduceCtorEq, false_and, exists_false]
  | ok r =>
    simp only [attach, planned, bind, Except.bind, Except.ok.injEq, exists_eq_left']
    cases r.mismatch? m with
    | none => simp only [Except.ok.injEq, true_and]
    | some what => simp only [reduceCtorEq, false_and]

end Pool

namespace Region

variable {r : Region} {m seen : Memory} {base length : Nat} {other : Settings}

theorem dataAt_lt (r : Region) : r.layout.dataAt < r.length + r.pageSize := by
  have below := r.start_lt
  unfold start finish at below
  omega

/-- Whoever asks for the geometry of a region finds it wherever its bytes are
seen equally far behind a page boundary. -/
theorem Stamped.attach_eq (stamped : r.Stamped m) (mirrored : r.Mirrored base m seen)
    (chosen : other.geometry = .ok r.geometry)
    (fit : Layout.plan base r.length r.geometry = .ok r.layout)
    (room : r.length + r.pageSize < 2 ^ 64) :
    Pool.attach base r.length other seen = .ok (.ofRegion (r.moved base fit) other) := by
  have view : Pool.plan base r.length other = .ok (r.moved base fit) :=
    Pool.plan_eq_ok_iff.mpr ⟨rfl, rfl, chosen⟩
  refine Pool.attach_eq_ok_iff.mpr ⟨r.moved base fit, view, ?_, rfl⟩
  have data := r.dataAt_lt
  have small : r.layout.dataAt % 2 ^ 64 = r.layout.dataAt := Nat.mod_eq_of_lt (by omega)
  exact (stamped.mismatch?_eq_none_iff mirrored (by omega)).mpr ⟨rfl, rfl, rfl, small.symm⟩

/-- Whatever is accepted as a view of a region has its geometry and length and is
laid out as the region is. -/
theorem Stamped.of_attach {attached : Pool} (stamped : r.Stamped m)
    (mirrored : r.Mirrored base m seen) (word : r.length < 2 ^ 64)
    (room : base + length + other.pageSize < 2 ^ 64)
    (opened : Pool.attach base length other seen = .ok attached) :
    other.geometry = .ok r.geometry ∧ length = r.length ∧
      base % r.pageSize = r.base % r.pageSize ∧
      attached.region.geometry = r.geometry ∧ attached.region.layout = r.layout := by
  obtain ⟨view, planned, fits, rfl⟩ := Pool.attach_eq_ok_iff.mp opened
  obtain ⟨rfl, rfl, chosen⟩ := Pool.plan_eq_ok_iff.mp planned
  obtain ⟨geometry, extent, pages, data⟩ := (stamped.mismatch?_eq_none_iff mirrored word).mp fits
  have size : r.pageSize = other.pageSize := by
    rw [← (Settings.pageSize_eq chosen).1, geometry]
    rfl
  have below := r.dataAt_lt
  rw [Nat.mod_eq_of_lt (by omega)] at data
  have also : Layout.plan view.base r.length r.geometry = .ok view.layout := by
    rw [← geometry, ← extent]
    exact view.planned
  have congruent := Layout.congruent_of_dataAt r.planned also data
  have layout := (Layout.plan_congr r.valid congruent r.planned).symm.trans also
  exact ⟨geometry ▸ chosen, extent, congruent, geometry, (Except.ok.inj layout).symm⟩

end Region

/-- Opening a pool writes nothing. -/
theorem Session.memory_attach (v : Session) (o : Opening) :
    ∃ outcome, v.attach o = .ok outcome ∧ outcome.session.memory = v.memory := by
  unfold Session.attach
  split
  · exact ⟨_, rfl, rfl⟩
  · exact ⟨_, rfl, rfl⟩

/-- However a pool was used since it was created, its bytes are accepted as a
pool where they are seen equally far behind a page boundary, by whoever asks for
the same page size, the same least chunk and the same length, and nowhere else
and by nobody else. All that is computed from them is the same then. -/
theorem Reachable.attaches_iff {base length base' length' : Nat} {settings other : Settings}
    {m fresh seen : Memory} {pool : Pool} {s : PoolState}
    (created : Pool.create base length settings m = (.ok pool, fresh))
    (reached : Reachable pool.region s) (word : length < 2 ^ 64)
    (copied : ∀ k < length, seen.byte (base' + k) = s.memory.byte (base + k))
    (room : base' + length' + other.pageSize < 2 ^ 64) :
    ((∃ attached, Pool.attach base' length' other seen = .ok attached) ↔
      other.pageSize = settings.pageSize ∧ other.minShift = settings.minShift ∧
        length' = length ∧ base' % settings.pageSize = base % settings.pageSize) ∧
    (∀ attached, Pool.attach base' length' other seen = .ok attached →
      attached.region.layout = pool.region.layout ∧
        attached.region.geometry = pool.region.geometry) ∧
    ∀ (v : Session) (o : Opening),
      ∃ outcome, v.attach o = .ok outcome ∧ outcome.session.memory = v.memory := by
  obtain ⟨here, extent, chosen⟩ := Pool.plan_of_create created
  subst here extent
  have stamped := reached.stamped
  have size : pool.region.pageSize = settings.pageSize := (Settings.pageSize_eq chosen).1
  refine ⟨⟨?_, ?_⟩, fun attached opened => ?_, Session.memory_attach⟩
  · rintro ⟨attached, opened⟩
    obtain ⟨asked, same, congruent, _⟩ := stamped.of_attach copied word room opened
    obtain ⟨page, least⟩ := (Settings.geometry_eq_iff chosen).mp asked
    rw [size] at congruent
    exact ⟨page, least, same, congruent⟩
  · rintro ⟨page, least, rfl, congruent⟩
    have asked := (Settings.geometry_eq_iff chosen).mpr ⟨page, least⟩
    rw [← size] at congruent
    have fit := Layout.plan_congr pool.region.valid congruent pool.region.planned
    exact ⟨_, stamped.attach_eq copied asked fit (by omega)⟩
  · obtain ⟨_, _, _, geometry, layout⟩ := stamped.of_attach copied word room opened
    exact ⟨layout, geometry⟩

/-- The memory as somebody has it who sees every byte `gap` addresses further on. -/
def Memory.shifted (m : Memory) (gap : Nat) : Memory :=
  ⟨0, ByteArray.empty, fun x => m.byte (x - gap)⟩

theorem Memory.byte_shifted (m : Memory) (gap x : Nat) :
    (m.shifted gap).byte (x + gap) = m.byte x := by
  rw [byte, dif_neg fun inside => Nat.not_lt_zero _ inside.2]
  exact congrArg m.byte (Nat.add_sub_cancel x gap)

/-- The guest sees the bytes of the pool five pages further on. -/
theorem attaches_iff_two_blocks : ∃ (pool : Pool) (s : PoolState) (seen : Memory),
    s.live = [⟨6144, 1500⟩, ⟨5136, 5⟩] ∧
      (∃ attached, Pool.attach 9216 4096 ⟨3, 1024, 7, true, "guest"⟩ seen = .ok attached ∧
        attached.region.layout = pool.region.layout) ∧
      ¬∃ attached, Pool.attach 9216 4096 ⟨4, 1024, 0, false, ""⟩ seen = .ok attached := by
  obtain ⟨pool, m, s, created, ran, geometry, live, reached⟩ := reachable_two_blocks
  have copied (k : Nat) (_ : k < 4096) :
      (s.memory.shifted 5120).byte (9216 + k) = s.memory.byte (4096 + k) := by
    rw [← s.memory.byte_shifted 5120, Nat.add_right_comm]
  obtain ⟨accepts, same, _⟩ := reached.attaches_iff created (by decide) copied
    (show 9216 + 4096 + (⟨3, 1024, 7, true, "guest"⟩ : Settings).pageSize < 2 ^ 64 by decide)
  obtain ⟨attached, opened⟩ := accepts.mpr ⟨rfl, rfl, rfl, rfl⟩
  refine ⟨pool, s, _, live, ⟨attached, opened, (same attached opened).1⟩, fun opens => ?_⟩
  obtain ⟨refuses, _⟩ := reached.attaches_iff created (by decide) copied
    (show 9216 + 4096 + (⟨4, 1024, 0, false, ""⟩ : Settings).pageSize < 2 ^ 64 by decide)
  exact absurd (refuses.mp opens).2.1 (by decide)

end SlabAllocator
