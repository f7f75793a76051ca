import SlabAllocator.Proofs.PageMap

namespace SlabAllocator

/-- The uses of the first `n` pages split them into segments: no segment ends
beyond the last page, the pages within one are marked so, and every page
belongs to one. -/
structure Tiled (n : Nat) (use : Nat → Use) : Prop where
  fits : ∀ i < n, i + (use i).pages ≤ n
  later : ∀ i < n, ∀ j, i < j → j < i + (use i).pages → use j = (use i).later
  covered : ∀ j < n, ∃ i ≤ j, j < i + (use i).pages

namespace Tiled

variable {n i j k : Nat} {use change : Nat → Use}

theorem unique (tiled : Tiled n use) (within : k < n) (one : i ≤ k) (reach : k < i + (use i).pages)
    (two : j ≤ k) (also : k < j + (use j).pages) : i = j := by
  by_contra different
  -- The later of the two would lie within the earlier one, where no segment starts.
  rcases Nat.lt_or_gt_of_ne different with before | before
  · have inner := tiled.later i (by omega) j before (by omega)
    rw [inner, Use.pages_later] at also
    omega
  · have inner := tiled.later j (by omega) i before (by omega)
    rw [inner, Use.pages_later] at reach
    omega

/-- A page where no segment starts lies within one. -/
theorem inner (tiled : Tiled n use) (within : i < n) (empty : (use i).pages = 0) :
    ∃ j < i, i < j + (use j).pages ∧ use i = (use j).later := by
  obtain ⟨j, before, reach⟩ := tiled.covered i within
  have other : j ≠ i := by
    rintro rfl
    omega
  exact ⟨j, by omega, reach, tiled.later j (by omega) i (by omega) reach⟩

/-- A page where a segment starts lies within no other. -/
theorem start_outside (tiled : Tiled n use) (within : j < n) (starts : 0 < (use j).pages)
    (other : j ≠ i) : ¬(i ≤ j ∧ j < i + (use i).pages) := by
  rintro ⟨lower, upper⟩
  exact other (tiled.unique within (Nat.le_refl j) (by omega) lower upper)

/-- One segment may be split anew without regard to the others. -/
theorem patch (tiled : Tiled n use) (within : i < n)
    (outside : ∀ j, ¬(i ≤ j ∧ j < i + (use i).pages) → change j = use j)
    (fits : ∀ j, i ≤ j → j < i + (use i).pages → j + (change j).pages ≤ i + (use i).pages)
    (later : ∀ j, i ≤ j → j < i + (use i).pages → ∀ k, j < k → k < j + (change j).pages →
      change k = (change j).later)
    (covered : ∀ j, i ≤ j → j < i + (use i).pages → ∃ k ≤ j, j < k + (change k).pages) :
    Tiled n change where
  fits j inside := by
    have most := tiled.fits i within
    by_cases here : i ≤ j ∧ j < i + (use i).pages
    · have := fits j here.1 here.2
      omega
    · rw [outside j here]
      exact tiled.fits j inside
  later j inside k after reach := by
    by_cases here : i ≤ j ∧ j < i + (use i).pages
    · exact later j here.1 here.2 k after reach
    · rw [outside j here] at reach ⊢
      -- A segment from outside does not reach into this one, or `i` would lie within it.
      have there : ¬(i ≤ k ∧ k < i + (use i).pages) := by
        rintro ⟨lower, upper⟩
        have inner := tiled.later j inside i (by omega) (by omega)
        rw [inner, Use.pages_later] at upper
        omega
      rw [outside k there]
      exact tiled.later j inside k after reach
  covered j inside := by
    by_cases here : i ≤ j ∧ j < i + (use i).pages
    · exact covered j here.1 here.2
    · obtain ⟨k, before, reach⟩ := tiled.covered j inside
      -- The segment that covers a page outside starts outside.
      have starts : 0 < (use k).pages := by omega
      have apart : ¬(i ≤ k ∧ k < i + (use i).pages) := by
        by_cases same : k = i
        · subst same
          omega
        · exact tiled.start_outside (by omega) starts same
      exact ⟨k, before, by rwa [outside k apart]⟩

theorem split (tiled : Tiled n use) (within : i < n) {k l : Nat} (run : use i = .free (k + l))
    (first : change i = .free k) (second : change (i + k) = .free l) (positive : 0 < k)
    (rest : 0 < l) (others : ∀ j, j ≠ i → j ≠ i + k → change j = use j) : Tiled n change := by
  have pages : (use i).pages = k + l := by rw [run, Use.pages]
  have inner : ∀ j, i < j → j ≠ i + k → j < i + (k + l) → change j = .free 0 := by
    intro j after different before
    rw [others j (by omega) different, tiled.later i within j after (by omega), run, Use.later]
  -- A page of the old run opens one of the new ones or lies within one.
  have which : ∀ j, i ≤ j → j < i + (use i).pages →
      j = i ∨ j = i + k ∨ i < j ∧ change j = .free 0 := by
    intro j lower upper
    by_cases one : j = i
    · exact Or.inl one
    · by_cases two : j = i + k
      · exact Or.inr (Or.inl two)
      · exact Or.inr (Or.inr ⟨by omega, inner j (by omega) two (by omega)⟩)
  refine tiled.patch within (fun j outside => others j (by omega) (by omega)) ?_ ?_ ?_
  · intro j lower upper
    rcases which j lower upper with rfl | rfl | ⟨_, same⟩
    · rw [first, Use.pages]
      omega
    · rw [second, Use.pages]
      omega
    · rw [same, Use.pages]
      omega
  · intro j lower upper o after reach
    rcases which j lower upper with rfl | rfl | ⟨_, same⟩
    · rw [first, Use.pages] at reach
      rw [first, Use.later]
      exact inner o after (by omega) (by omega)
    · rw [second, Use.pages] at reach
      rw [second, Use.later]
      exact inner o (by omega) (by omega) (by omega)
    · rw [same, Use.pages] at reach
      omega
  · intro j lower upper
    by_cases before : j < i + k
    · exact ⟨i, lower, by rwa [first, Use.pages]⟩
    · exact ⟨i + k, by omega, by rw [second, Use.pages]; omega⟩

theorem convert (tiled : Tiled n use) (within : i < n) {u : Use} (length : u.pages = (use i).pages)
    (first : change i = u)
    (inner : ∀ j, i < j → j < i + u.pages → change j = u.later)
    (others : ∀ j, ¬(i ≤ j ∧ j < i + u.pages) → change j = use j) : Tiled n change := by
  rw [length] at inner others
  have which : ∀ j, i ≤ j → j < i + (use i).pages → j = i ∨ i < j ∧ change j = u.later := by
    intro j lower upper
    by_cases one : j = i
    · exact Or.inl one
    · exact Or.inr ⟨by omega, inner j (by omega) upper⟩
  refine tiled.patch within others ?_ ?_ ?_
  · intro j lower upper
    rcases which j lower upper with rfl | ⟨_, same⟩
    · rw [first]
      omega
    · rw [same, Use.pages_later]
      omega
  · intro j lower upper o after reach
    rcases which j lower upper with rfl | ⟨_, same⟩
    · rw [first] at reach ⊢
      exact inner o after (by omega)
    · rw [same, Use.pages_later] at reach
      omega
  · intro j lower upper
    exact ⟨i, lower, by rw [first]; omega⟩

end Tiled

/-- What holds of the page map of a pool at all times. -/
structure PageMap.Sound (r : Region) (t : PageMap) : Prop where
  tiled : Tiled r.pageCount t.use
  free : ∀ i, i ∈ t.lists .free ↔ i < r.pageCount ∧ ∃ n, 0 < n ∧ t.use i = .free n
  slot : ∀ s < r.slotCount, ∀ i, i ∈ t.lists (.slot s) ↔ i < r.pageCount ∧ ∃ c taken,
    t.use i = .slab c taken ∧ r.geometry.slotOf c.shift = s ∧ taken ≠ r.geometry.fullRecord c
  slab : ∀ i < r.pageCount, ∀ c taken, t.use i = .slab c taken →
    r.geometry.IsClass c ∧ r.geometry.Kept c taken

/-- A use that a descriptor can spell. -/
def Use.Spelled (r : Region) (u : Use) : Prop :=
  u.pages ≤ r.pageCount ∧
    ∀ c taken, u = .slab c taken → r.geometry.IsClass c ∧ r.geometry.Fits c taken

namespace Use

variable {r : Region} {u : Use}

theorem stores_role (spelled : u.Spelled r) : r.geometry.Stores u.role := by
  have most : r.pageCount ≤ Layout.maxPages := Layout.pageCount_le r.planned
  obtain ⟨pages, slab⟩ := spelled
  rcases u with n | n | _ | ⟨c, taken⟩
  · exact Nat.le_trans pages most
  · exact Nat.le_trans pages most
  · trivial
  · obtain ⟨cls, fits⟩ := slab c taken rfl
    obtain ⟨kind, shift⟩ := c
    cases kind with
    | small => exact ⟨cls.2.1, cls.small_shift rfl⟩
    | exact => trivial
    | big => exact ⟨cls.2.1, cls.big_shift rfl, cls.2.2, fits.headD_lt nofun⟩

theorem role_descriptor (spelled : u.Spelled r) : u.descriptor.role = u.role := by
  rw [descriptor_eq_asRole, Descriptor.role_asRole _ r.valid (stores_role spelled)]

/-- The row that a page holds lies in the chunks that are set aside for it. -/
theorem row_le_reserved (spelled : u.Spelled r) {c : Carving} {taken : ChunkSet}
    (slab : u = .slab c taken) :
    8 * u.row.length ≤ r.geometry.recordReserved c * 2 ^ c.shift := by
  obtain ⟨cls, fits⟩ := spelled.2 c taken slab
  subst slab
  obtain ⟨kind, shift⟩ := c
  cases kind with
  | small =>
    have reach := cls.record_le_reserved rfl
    rw [← fits.length] at reach
    exact reach
  | exact => exact Nat.zero_le _
  | big => exact Nat.zero_le _

theorem row_eq_nil (other : ∀ c taken, u ≠ .slab c taken) : u.row = [] := by
  rcases u with n | n | _ | ⟨c, taken⟩
  · rfl
  · rfl
  · rfl
  · exact absurd rfl (other c taken)

theorem row_le (spelled : u.Spelled r) : 8 * u.row.length ≤ r.pageSize := by
  by_cases slab : ∃ c taken, u = .slab c taken
  · obtain ⟨c, taken, slab⟩ := slab
    obtain ⟨cls, _⟩ := spelled.2 c taken slab
    have reach := row_le_reserved spelled slab
    have room := cls.reserved_add_two_le r.valid
    have whole := Geometry.chunks_mul (Nat.le_of_lt cls.2.2)
    have part := Nat.mul_le_mul_right (2 ^ c.shift)
      (show r.geometry.recordReserved c ≤ r.geometry.chunks c.shift by omega)
    unfold Region.pageSize
    omega
  · rw [row_eq_nil fun c taken same => slab ⟨c, taken, same⟩]
    exact Nat.zero_le _

end Use

namespace PageMap.Sound

variable {r : Region} {t : PageMap} {i : Nat}

/-- A page on the list of free runs starts one. -/
theorem listed_free {xs ys : List Nat} (sound : t.Sound r) (split : t.lists .free = xs ++ i :: ys) :
    i < r.pageCount ∧ ∃ n, 0 < n ∧ t.use i = .free n :=
  (sound.free i).mp (by rw [split]; simp)

theorem first_free {ys : List Nat} (sound : t.Sound r) (first : t.lists .free = i :: ys) :
    i < r.pageCount ∧ ∃ n, 0 < n ∧ t.use i = .free n :=
  (sound.free i).mp (by rw [first]; exact List.mem_cons_self)

/-- The first page on the list of a class is cut as the class asks and has
room. -/
theorem first_slot {c : Carving} {ys : List Nat} (sound : t.Sound r) (cls : r.geometry.IsClass c)
    (first : t.lists (.slot (r.geometry.slotOf c.shift)) = i :: ys) :
    i < r.pageCount ∧ ∃ taken, t.use i = .slab c taken ∧ taken ≠ r.geometry.fullRecord c := by
  obtain ⟨within, d, taken, slab, slot, room⟩ :=
    (sound.slot _ (Region.hasList_slotOf cls) i).mp (by rw [first]; exact List.mem_cons_self)
  -- A slot serves one class.
  obtain rfl : d = c := (sound.slab i within d taken slab).1.eq_of_slot cls slot
  exact ⟨within, taken, slab, room⟩

theorem spelled (sound : t.Sound r) (within : i < r.pageCount) : (t.use i).Spelled r := by
  refine ⟨?_, fun c taken same => ?_⟩
  · have := sound.tiled.fits i within
    omega
  · obtain ⟨cls, kept⟩ := sound.slab i within c taken same
    exact ⟨cls, kept.toFits⟩

theorem rows (sound : t.Sound r) :
    ∀ j < r.pageCount, 8 * (t.use j).row.length ≤ r.pageSize :=
  fun _ within => Use.row_le (sound.spelled within)

theorem run_positive (sound : t.Sound r) (within : i < r.pageCount) {n : Nat}
    (run : t.use i = .run n) : 0 < n := by
  rcases Nat.eq_zero_or_pos n with rfl | positive
  -- A run of no pages would lie within a segment, and no segment goes on with runs.
  · obtain ⟨j, _, _, same⟩ := sound.tiled.inner within (by rw [run]; rfl)
    rw [run] at same
    generalize t.use j = u at same
    cases u <;> cases same
  · exact positive

/-- A page that counts as free without starting a run lies in a free run. -/
theorem inner_free (sound : t.Sound r) (within : i < r.pageCount) (use : t.use i = .free 0) :
    ∃ j < i, ∃ n, t.use j = .free n ∧ i < j + n := by
  obtain ⟨j, before, reach, same⟩ := sound.tiled.inner within (by rw [use]; rfl)
  rw [use] at same
  cases start : t.use j with
  | free n =>
    rw [start] at reach
    exact ⟨j, before, n, start, reach⟩
  | run n =>
    rw [start] at same
    cases same
  | interior =>
    rw [start] at same
    cases same
  | slab c taken =>
    rw [start] at same
    cases same

/-- A later page of an allocated run lies in one. -/
theorem inner_run (sound : t.Sound r) (within : i < r.pageCount) (use : t.use i = .interior) :
    ∃ j < i, ∃ n, t.use j = .run n ∧ i < j + n := by
  obtain ⟨j, before, reach, same⟩ := sound.tiled.inner within (by rw [use]; rfl)
  rw [use] at same
  cases start : t.use j with
  | free n =>
    rw [start] at same
    cases same
  | run n =>
    rw [start] at reach
    exact ⟨j, before, n, start, reach⟩
  | interior =>
    rw [start, Use.pages] at reach
    omega
  | slab c taken =>
    rw [start, Use.pages] at reach
    omega

/-- Only the first pages of free runs and the pages of chunks with room are on
lists. -/
theorem unlisted (sound : t.Sound r) (busy : ∀ n, 0 < n → t.use i ≠ .free n)
    (full : ∀ c taken, t.use i = .slab c taken → taken = r.geometry.fullRecord c)
    (list : PageList) (known : r.HasList list) : i ∉ t.lists list := by
  intro member
  cases list with
  | free =>
    obtain ⟨_, n, positive, same⟩ := (sound.free i).mp member
    exact busy n positive same
  | slot s =>
    obtain ⟨_, c, taken, same, _, room⟩ := (sound.slot s known i).mp member
    exact room (full c taken same)

/-- The later pages of a free run are on no list. -/
theorem later_free (sound : t.Sound r) (within : i < r.pageCount) {k j : Nat}
    (run : t.use i = .free k) (after : i < j) (before : j < i + k) :
    t.use j = .free 0 ∧ ∀ list, r.HasList list → j ∉ t.lists list := by
  have use : t.use j = .free 0 := by
    have later := sound.tiled.later i within j after (by rwa [run])
    rwa [run] at later
  refine ⟨use, sound.unlisted (fun n positive same => ?_) fun c taken same => ?_⟩
  · rw [use] at same
    cases same
    exact Nat.lt_irrefl 0 positive
  · rw [use] at same
    cases same

theorem later_busy (sound : t.Sound r) (within : i < r.pageCount) {j : Nat}
    (busy : (t.use i).later = .interior) (after : i < j) (before : j < i + (t.use i).pages) :
    t.use j = .interior ∧ ∀ list, r.HasList list → j ∉ t.lists list := by
  have use : t.use j = .interior := by
    rw [sound.tiled.later i within j after before, busy]
  refine ⟨use, sound.unlisted (fun n _ same => ?_) fun c taken same => ?_⟩
  · rw [use] at same
    cases same
  · rw [use] at same
    cases same

/-- Where only the pages of one segment change, on lists or off them, it is
enough to look at these. -/
theorem patch {change : PageMap} (sound : t.Sound r) (tiled : Tiled r.pageCount change.use)
    (within : i < r.pageCount)
    (outside : ∀ j, ¬(i ≤ j ∧ j < i + (t.use i).pages) → change.use j = t.use j ∧
      ∀ list, r.HasList list → (j ∈ change.lists list ↔ j ∈ t.lists list))
    (free : ∀ j, i ≤ j → j < i + (t.use i).pages →
      (j ∈ change.lists .free ↔ ∃ n, 0 < n ∧ change.use j = .free n))
    (slot : ∀ s < r.slotCount, ∀ j, i ≤ j → j < i + (t.use i).pages →
      (j ∈ change.lists (.slot s) ↔ ∃ c taken, change.use j = .slab c taken ∧
        r.geometry.slotOf c.shift = s ∧ taken ≠ r.geometry.fullRecord c))
    (slab : ∀ j, i ≤ j → j < i + (t.use i).pages → ∀ c taken, change.use j = .slab c taken →
      r.geometry.IsClass c ∧ r.geometry.Kept c taken) : change.Sound r where
  tiled := tiled
  free j := by
    have most := sound.tiled.fits i within
    by_cases here : i ≤ j ∧ j < i + (t.use i).pages
    · rw [free j here.1 here.2]
      exact (and_iff_right (by omega)).symm
    · rw [(outside j here).2 .free trivial, (outside j here).1, sound.free]
  slot s known j := by
    have most := sound.tiled.fits i within
    by_cases here : i ≤ j ∧ j < i + (t.use i).pages
    · rw [slot s known j here.1 here.2]
      exact (and_iff_right (by omega)).symm
    · rw [(outside j here).2 (.slot s) known, (outside j here).1, sound.slot s known]
  slab j inside c taken same := by
    by_cases here : i ≤ j ∧ j < i + (t.use i).pages
    · exact slab j here.1 here.2 c taken same
    · rw [(outside j here).1] at same
      exact sound.slab j inside c taken same

end PageMap.Sound

namespace Region

/-- A page of a class is read as carved in that way. -/
theorem carvingOf?_role {r : Region} {c : Carving} (taken : ChunkSet)
    (cls : r.geometry.IsClass c) : r.carvingOf? (Use.slab c taken).role = some c := by
  have shift := cls.exact_shift
  clear cls
  obtain ⟨kind, own⟩ := c
  cases kind with
  | small => rfl
  | exact =>
    obtain rfl : own = _ := shift rfl
    rfl
  | big => rfl

variable {r : Region} {m : Memory} {t : PageMap} {i : Nat}

theorem Shows.role_eq (shows_ : r.Shows m t) (within : i < r.pageCount)
    (spelled : (t.use i).Spelled r) : (r.descriptor i m).role = (t.use i).role := by
  rw [← Use.role_descriptor spelled, ← shows_.descriptor i within]
  exact Descriptor.role_congr rfl rfl

theorem Shows.recordOf_eq {c : Carving} {taken : ChunkSet} (shows_ : r.Shows m t)
    (within : i < r.pageCount) (spelled : (t.use i).Spelled r) (slab : t.use i = .slab c taken) :
    r.recordOf c i m = taken := by
  obtain ⟨cls, fits⟩ := spelled.2 c taken slab
  have role := shows_.role_eq within spelled
  have row := shows_.row i within
  have word := congrArg Descriptor.word (shows_.descriptor i within)
  rw [slab] at role row word
  obtain ⟨kind, shift⟩ := c
  cases kind with
  | small =>
    have length : taken.words.length = r.geometry.bitmapWords shift := fits.length
    change m.words (r.pageAddress i) taken.words.length = taken.words at row
    rw [length] at row
    rw [recordOf, row]
  | exact =>
    change (r.descriptor i m).word = taken.words.headD 0 at word
    rw [recordOf, word, ← fits.words_eq (by simp)]
  | big =>
    have map : (r.descriptor i m).upperMap = taken.words.headD 0 := by
      have kindOf := congrArg Descriptor.pageKind (shows_.descriptor i within)
      rw [slab] at kindOf
      change (r.descriptor i m).pageKind = .slab .big at kindOf
      rw [Descriptor.role, kindOf] at role
      exact (Role.big.inj role).2
    rw [recordOf, map, ← fits.words_eq (by simp)]

end Region

end SlabAllocator
