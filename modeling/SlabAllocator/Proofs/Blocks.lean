import SlabAllocator.Proofs.Slabs

namespace SlabAllocator

/-- A page lends out `size` bytes as one block that starts `offset` bytes into
the page. -/
def Use.Lends (g : Geometry) (offset size : Nat) : Use → Prop
  | .run n => 0 < n ∧ offset = 0 ∧ size = n * g.pageSize
  | .slab c taken => ∃ k, g.recordReserved c ≤ k ∧ taken.has k = true ∧
      offset = k * 2 ^ c.shift ∧ size = 2 ^ c.shift
  | .free _ | .interior => False

/-- The pool lends out `size` bytes from address `p` on. -/
def PageMap.Holds (t : PageMap) (r : Region) (p size : Nat) : Prop :=
  ∃ i < r.pageCount, ∃ offset, p = r.pageAddress i + offset ∧
    (t.use i).Lends r.geometry offset size

/-- The bytes that hold the records of pages of small chunks. -/
def PageMap.InRow (t : PageMap) (r : Region) (x : Nat) : Prop :=
  ∃ i < r.pageCount, r.pageAddress i ≤ x ∧ x < r.pageAddress i + 8 * (t.use i).row.length

/-- The second map lends out one more block than the first. -/
structure PageMap.Gains (r : Region) (t after : PageMap) (p size : Nat) : Prop where
  fresh : ∀ n, ¬t.Holds r p n
  holds : ∀ q n, after.Holds r q n ↔ t.Holds r q n ∨ (q = p ∧ n = size)

theorem Tiled.apart {n i j : Nat} {use : Nat → Use} (tiled : Tiled n use) (one : i < n) (two : j < n)
    (starts : 0 < (use i).pages) (also : 0 < (use j).pages) (different : i ≠ j) :
    i + (use i).pages ≤ j ∨ j + (use j).pages ≤ i := by
  have left := tiled.start_outside two also different.symm
  have right := tiled.start_outside one starts different
  omega

namespace Use

variable {r : Region} {u : Use} {offset size : Nat}

/-- A block lies in the segment of its page, and starts in the page. -/
theorem Lends.bounds (lends : u.Lends r.geometry offset size) (spelled : u.Spelled r) :
    offset < r.pageSize ∧ offset + size ≤ u.pages * r.pageSize ∧ 0 < u.pages := by
  have positive : 0 < r.pageSize := Nat.two_pow_pos _
  rcases u with n | n | _ | ⟨c, taken⟩
  · cases lends
  · obtain ⟨some, rfl, rfl⟩ := lends
    exact ⟨positive, by rw [Nat.zero_add]; exact Nat.le_refl _, some⟩
  · cases lends
  · obtain ⟨k, _, has, rfl, rfl⟩ := lends
    obtain ⟨cls, fits⟩ := spelled.2 c taken rfl
    have reach := cls.chunk_le (fits.within k has)
    rw [pages, Nat.one_mul]
    exact ⟨cls.chunk_lt (fits.within k has), reach, Nat.one_pos⟩

theorem Lends.positive (lends : u.Lends r.geometry offset size) : 0 < size := by
  rcases u with n | n | _ | ⟨c, taken⟩
  · cases lends
  · obtain ⟨some, _, rfl⟩ := lends
    exact Nat.mul_pos some (Nat.two_pow_pos _)
  · cases lends
  · obtain ⟨_, _, _, _, rfl⟩ := lends
    exact Nat.two_pow_pos _

theorem Lends.apart {other too : Nat} (one : u.Lends r.geometry offset size)
    (two : u.Lends r.geometry other too) (different : offset ≠ other) :
    offset + size ≤ other ∨ other + too ≤ offset := by
  rcases u with n | n | _ | ⟨c, taken⟩
  · cases one
  · exact absurd (one.2.1.trans two.2.1.symm) different
  · cases one
  · obtain ⟨k, _, _, rfl, rfl⟩ := one
    obtain ⟨l, _, _, rfl, rfl⟩ := two
    rcases Nat.lt_or_gt_of_ne (show k ≠ l from fun same => different (by rw [same])) with less | less
    · have := Nat.mul_le_mul_right (2 ^ c.shift) (show k + 1 ≤ l from less)
      rw [Nat.add_mul] at this
      omega
    · have := Nat.mul_le_mul_right (2 ^ c.shift) (show l + 1 ≤ k from less)
      rw [Nat.add_mul] at this
      omega

theorem Lends.size_eq {too : Nat} (one : u.Lends r.geometry offset size)
    (two : u.Lends r.geometry offset too) : size = too := by
  rcases u with n | n | _ | ⟨c, taken⟩
  · cases one
  · exact one.2.2.trans two.2.2.symm
  · cases one
  · obtain ⟨_, _, _, _, rfl⟩ := one
    obtain ⟨_, _, _, _, rfl⟩ := two
    rfl

/-- The row that a page holds lies before its blocks. -/
theorem Lends.row_le (lends : u.Lends r.geometry offset size) (spelled : u.Spelled r) :
    8 * u.row.length ≤ offset := by
  rcases u with n | n | _ | ⟨c, taken⟩
  · cases lends
  · exact Nat.zero_le _
  · cases lends
  · obtain ⟨k, caller, _, rfl, _⟩ := lends
    have reach := Use.row_le_reserved spelled rfl
    exact Nat.le_trans reach (Nat.mul_le_mul_right _ caller)

end Use

namespace Region

variable (r : Region)

theorem pageAddress_add (i n : Nat) :
    r.pageAddress (i + n) = r.pageAddress i + n * r.pageSize := by
  rw [pageAddress, pageAddress, Nat.add_mul, Nat.add_assoc]

theorem pageAddress_mono {i j : Nat} (order : i ≤ j) : r.pageAddress i ≤ r.pageAddress j :=
  Nat.add_le_add_left (Nat.mul_le_mul_right _ order) _

theorem le_of_pageAddress {i j x : Nat} (lower : r.pageAddress i ≤ x)
    (upper : x < r.pageAddress (j + 1)) : i ≤ j := by
  by_contra above
  have := r.pageAddress_mono (show j + 1 ≤ i by omega)
  omega

/-- An address lies in one page only, at one place. -/
theorem pageAddress_inj {i j offset other : Nat}
    (same : r.pageAddress i + offset = r.pageAddress j + other) (inside : offset < r.pageSize)
    (within : other < r.pageSize) : i = j ∧ offset = other := by
  by_cases page : i = j
  · subst page
    exact ⟨rfl, by omega⟩
  · have apart := r.pageAddress_apart page
    omega

end Region

namespace PageMap.Sound

variable {r : Region} {t : PageMap} {i p q size other : Nat}

theorem offset_lt (sound : t.Sound r) (within : i < r.pageCount) {offset : Nat}
    (lends : (t.use i).Lends r.geometry offset size) : offset < r.pageSize :=
  (lends.bounds (sound.spelled within)).1

/-- Whether a block starts at a place in a page is for that page to say. -/
theorem holds_iff (sound : t.Sound r) (within : i < r.pageCount) {offset : Nat}
    (inside : offset < r.pageSize) :
    t.Holds r (r.pageAddress i + offset) size ↔ (t.use i).Lends r.geometry offset size := by
  constructor
  · rintro ⟨j, below, o, same, lends⟩
    obtain ⟨rfl, rfl⟩ := r.pageAddress_inj same inside (sound.offset_lt below lends)
    exact lends
  · exact fun lends => ⟨i, within, offset, rfl, lends⟩

theorem apart (sound : t.Sound r) (one : t.Holds r p size) (two : t.Holds r q other)
    (different : p ≠ q) : p + size ≤ q ∨ q + other ≤ p := by
  obtain ⟨i, within, offset, rfl, lends⟩ := one
  obtain ⟨j, inside, place, rfl, also⟩ := two
  by_cases same : i = j
  · subst same
    have := lends.apart also (by rintro rfl; exact different rfl)
    omega
  · obtain ⟨_, reach, starts⟩ := lends.bounds (sound.spelled within)
    obtain ⟨_, extent, begins⟩ := also.bounds (sound.spelled inside)
    rcases sound.tiled.apart within inside starts begins same with before | before
    · have := r.pageAddress_mono before
      rw [r.pageAddress_add] at this
      omega
    · have := r.pageAddress_mono before
      rw [r.pageAddress_add] at this
      omega

theorem size_eq (sound : t.Sound r) (one : t.Holds r p size) (two : t.Holds r p other) :
    size = other := by
  obtain ⟨i, within, offset, rfl, lends⟩ := one
  exact lends.size_eq ((sound.holds_iff within (sound.offset_lt within lends)).mp two)

theorem bounds (sound : t.Sound r) (holds : t.Holds r p size) :
    r.start ≤ p ∧ p + size ≤ r.pageAddress r.pageCount := by
  obtain ⟨i, within, offset, rfl, lends⟩ := holds
  obtain ⟨_, reach, _⟩ := lends.bounds (sound.spelled within)
  have := r.pageAddress_mono (sound.tiled.fits i within)
  have := r.start_le_pageAddress i
  rw [r.pageAddress_add] at *
  omega

theorem not_inRow (sound : t.Sound r) (holds : t.Holds r p size) {x : Nat} (lower : p ≤ x)
    (upper : x < p + size) : ¬t.InRow r x := by
  rintro ⟨j, inside, left, right⟩
  obtain ⟨i, within, offset, rfl, lends⟩ := holds
  obtain ⟨_, reach, starts⟩ := lends.bounds (sound.spelled within)
  have room := sound.rows j inside
  by_cases same : j = i
  · subst same
    have := lends.row_le (sound.spelled within)
    omega
  -- Behind the first page of the block's segment no page holds a row.
  · have below : i ≤ j := r.le_of_pageAddress (x := x) (by omega) (by
      rw [r.pageAddress_add, Nat.one_mul]
      omega)
    have above : j ≤ i + ((t.use i).pages - 1) := r.le_of_pageAddress left (by
      rw [show i + ((t.use i).pages - 1) + 1 = i + (t.use i).pages by omega, r.pageAddress_add]
      omega)
    have later := sound.tiled.later i within j (by omega) (by omega)
    rw [later, Use.row_later] at right
    exact Nat.not_lt.mpr left right

/-- Where one page lends out one more block, so does the pool. -/
theorem gains {after : PageMap} (offset : Nat) (sound : t.Sound r) (within : i < r.pageCount)
    (inside : offset < r.pageSize)
    (others : ∀ j < r.pageCount, j ≠ i → ∀ o n,
      (after.use j).Lends r.geometry o n ↔ (t.use j).Lends r.geometry o n)
    (fresh : ∀ n, ¬(t.use i).Lends r.geometry offset n)
    (here : ∀ o n, (after.use i).Lends r.geometry o n ↔
      (t.use i).Lends r.geometry o n ∨ (o = offset ∧ n = size)) :
    Gains r t after (r.pageAddress i + offset) size where
  fresh n holds := fresh n ((sound.holds_iff within inside).mp holds)
  holds q n := by
    constructor
    · rintro ⟨j, below, o, rfl, lends⟩
      by_cases same : j = i
      · subst same
        rcases (here o n).mp lends with old | ⟨rfl, rfl⟩
        · exact Or.inl ⟨j, below, o, rfl, old⟩
        · exact Or.inr ⟨rfl, rfl⟩
      · exact Or.inl ⟨j, below, o, rfl, (others j below same o n).mp lends⟩
    · rintro (⟨j, below, o, rfl, lends⟩ | ⟨rfl, rfl⟩)
      · by_cases same : j = i
        · subst same
          exact ⟨j, below, o, rfl, (here o n).mpr (Or.inl lends)⟩
        · exact ⟨j, below, o, rfl, (others j below same o n).mpr lends⟩
      · exact ⟨i, within, offset, rfl, (here offset n).mpr (Or.inr ⟨rfl, rfl⟩)⟩

end PageMap.Sound

namespace PageMap

variable {r : Region} {t : PageMap} {c : Carving} {i k n : Nat} {old : ChunkSet}

/-- Pages other than the first of a free run lend out the same after pages were
allocated from it. -/
theorem lends_takeRun {xs ys : List Nat} (sound : t.Sound r) (within : i < r.pageCount) {l : Nat}
    (run : t.use i = .free l) (positive : 0 < n) (enough : n ≤ l) {j : Nat} (other : j ≠ i)
    (o size : Nat) : ((t.takeRun xs i ys n).use j).Lends r.geometry o size ↔
      (t.use j).Lends r.geometry o size := by
  by_cases inner : i < j ∧ j < i + l
  · rw [(sound.later_free within run inner.1 inner.2).1]
    by_cases allocated : j < i + n
    · rw [use_takeRun_later inner.1 allocated]
      exact Iff.rfl
    · rw [sound.use_takeRun_rest xs ys within run positive (by omega) inner.2]
      split <;> exact Iff.rfl
  · rw [use_takeRun_of_outside positive (by omega)]
    by_cases rest : j = i + n
    · rw [use_cutRun_whole (by rw [run, Use.pages]; omega)]
    · rw [use_cutRun_of_ne rest]

theorem gains_takeRun {xs ys : List Nat} (sound : t.Sound r) (within : i < r.pageCount) {l : Nat}
    (run : t.use i = .free l) (positive : 0 < n) (enough : n ≤ l) :
    Gains r t (t.takeRun xs i ys n) (r.pageAddress i) (n * r.pageSize) := by
  refine sound.gains 0 within (Nat.two_pow_pos _)
    (fun j _ other => lends_takeRun sound within run positive enough other) ?_ ?_ <;> rw [run]
  · exact fun _ => id
  · intro o size
    rw [use_takeRun_self]
    exact ⟨fun lends => Or.inr lends.2, fun either => ⟨positive, either.resolve_left id⟩⟩

theorem gains_carve {ys : List Nat} (sound : t.Sound r) (within : i < r.pageCount) {l : Nat}
    (run : t.use i = .free l) (positive : 0 < l) (cls : r.geometry.IsClass c) :
    Gains r t ((t.takeRun [] i ys 1).carve r c i (r.geometry.firstRecord c))
      (r.chunkAddress c.shift i (r.geometry.recordReserved c)) (2 ^ c.shift) := by
  have room := cls.reserved_add_two_le r.valid
  refine sound.gains _ within (cls.chunk_lt (by omega)) (fun j _ other => ?_) ?_ ?_
  · rw [use_carve_of_ne other]
    exact lends_takeRun sound within run Nat.one_pos positive other
  · rw [run]
    exact fun _ => id
  · intro o size
    rw [run, use_carve_self]
    constructor
    · rintro ⟨k, caller, has, rfl, rfl⟩
      obtain rfl : k = r.geometry.recordReserved c :=
        Nat.le_antisymm ((Geometry.has_firstRecord cls r.valid k).mp has) caller
      exact Or.inr ⟨rfl, rfl⟩
    · rintro (none | ⟨rfl, rfl⟩)
      · cases none
      · exact ⟨_, Nat.le_refl _, (Geometry.has_firstRecord cls r.valid _).mpr (Nat.le_refl _), rfl,
          rfl⟩

theorem gains_occupy (sound : t.Sound r) (within : i < r.pageCount) (slab : t.use i = .slab c old)
    (caller : r.geometry.recordReserved c ≤ k) (chunk : k < r.geometry.chunks c.shift)
    (missing : old.has k = false) :
    Gains r t (t.occupy r c i (old.insert k)) (r.chunkAddress c.shift i k) (2 ^ c.shift) := by
  obtain ⟨cls, kept⟩ := sound.slab i within c old slab
  refine sound.gains _ within (cls.chunk_lt chunk) (fun j _ other => ?_) ?_ ?_
  · rw [use_occupy_of_ne other]
    exact fun _ _ => Iff.rfl
  · rw [slab]
    rintro size ⟨l, _, has, same, _⟩
    rw [Nat.eq_of_mul_eq_mul_right (Nat.two_pow_pos _) same, has] at missing
    cases missing
  · intro o size
    rw [slab, use_occupy_self]
    constructor
    · rintro ⟨l, above, has, rfl, rfl⟩
      rcases (kept.has_insert cls r.valid chunk l).mp has with before | rfl
      · exact Or.inl ⟨l, above, before, rfl, rfl⟩
      · exact Or.inr ⟨rfl, rfl⟩
    · rintro (⟨l, above, has, rfl, rfl⟩ | ⟨rfl, rfl⟩)
      · exact ⟨l, above, (kept.has_insert cls r.valid chunk l).mpr (Or.inl has), rfl, rfl⟩
      · exact ⟨k, caller, (kept.has_insert cls r.valid chunk k).mpr (Or.inr rfl), rfl, rfl⟩

/-- Taking a run back, the pool lends out one block less. -/
theorem gains_returnRun (sound : t.Sound r) (back : (t.returnRun i n).Sound r)
    (within : i < r.pageCount) (run : t.use i = .run n) (positive : 0 < n) :
    Gains r (t.returnRun i n) t (r.pageAddress i) (n * r.pageSize) := by
  refine back.gains 0 within (Nat.two_pow_pos _) (fun j _ other => ?_) ?_ ?_
  · by_cases inner : i < j ∧ j < i + n
    · have old := (sound.later_busy within (by rw [run]; rfl) inner.1 (by rw [run]; exact inner.2)).1
      rw [old, use_returnRun_later inner.1 inner.2]
      exact fun _ _ => Iff.rfl
    · rw [use_returnRun_of_outside other inner]
      exact fun _ _ => Iff.rfl
  · rw [use_returnRun_self]
    exact fun _ => id
  · intro o size
    rw [run, use_returnRun_self]
    exact ⟨fun lends => Or.inr lends.2, fun either => ⟨positive, either.resolve_left id⟩⟩

theorem gains_settle (sound : t.Sound r) (back : (t.settle r c i old (old.erase k)).Sound r)
    (within : i < r.pageCount) (slab : t.use i = .slab c old)
    (caller : r.geometry.recordReserved c ≤ k) (has : old.has k = true) :
    Gains r (t.settle r c i old (old.erase k)) t (r.chunkAddress c.shift i k) (2 ^ c.shift) := by
  obtain ⟨cls, kept⟩ := sound.slab i within c old slab
  have here : ∀ o size, ((t.settle r c i old (old.erase k)).use i).Lends r.geometry o size ↔
      ∃ l, r.geometry.recordReserved c ≤ l ∧ (old.has l = true ∧ l ≠ k) ∧
        o = l * 2 ^ c.shift ∧ size = 2 ^ c.shift := by
    intro o size
    simp only [← Geometry.has_erase]
    rw [use_settle_self]
    split
    · rename_i empty
      have fits := (kept.erase caller).eq_empty_iff cls r.valid
      refine iff_of_false id ?_
      rintro ⟨l, above, left, _⟩
      have := fits.mp empty l left
      omega
    · exact Iff.rfl
  refine back.gains _ within (cls.chunk_lt (kept.within k has)) (fun j _ other => ?_) ?_ ?_
  · rw [use_settle_of_ne other]
    exact fun _ _ => Iff.rfl
  · intro size lends
    obtain ⟨l, _, ⟨_, other⟩, same, _⟩ := (here _ _).mp lends
    exact other (Nat.eq_of_mul_eq_mul_right (Nat.two_pow_pos _) same).symm
  · intro o size
    rw [here, slab]
    constructor
    · rintro ⟨l, above, taken, rfl, rfl⟩
      by_cases same : l = k
      · exact Or.inr ⟨by rw [same], rfl⟩
      · exact Or.inl ⟨l, above, ⟨taken, same⟩, rfl, rfl⟩
    · rintro (⟨l, above, ⟨taken, _⟩, rfl, rfl⟩ | ⟨rfl, rfl⟩)
      · exact ⟨l, above, taken, rfl, rfl⟩
      · exact ⟨k, caller, has, rfl, rfl⟩

theorem inRow_mono {after : PageMap} {x : Nat}
    (shorter : ∀ j, (after.use j).row.length ≤ (t.use j).row.length) (row : after.InRow r x) :
    t.InRow r x := by
  obtain ⟨j, within, lower, upper⟩ := row
  have := shorter j
  exact ⟨j, within, lower, by omega⟩

/-- A run that is taken back leaves no records. -/
theorem inRow_returnRun {x : Nat} (row : (t.returnRun i n).InRow r x) : t.InRow r x := by
  refine inRow_mono (fun j => ?_) row
  by_cases first : j = i
  · simp [first, Use.row]
  · by_cases inner : i < j ∧ j < i + n
    · rw [use_returnRun_later inner.1 inner.2]
      exact Nat.zero_le _
    · rw [use_returnRun_of_outside first inner]

theorem inRow_settle {x : Nat} {left : ChunkSet} (slab : t.use i = .slab c old)
    (length : old.words.length = left.words.length) (row : (t.settle r c i old left).InRow r x) :
    t.InRow r x := by
  refine inRow_mono (fun j => ?_) row
  by_cases here : j = i
  · rw [here, use_settle_self, slab]
    split
    · exact Nat.zero_le _
    · exact Nat.le_of_eq (Use.length_row_congr length).symm
  · simp [here]

end PageMap

end SlabAllocator
