import SlabAllocator.Proofs.RunLinks
import SlabAllocator.Proofs.Sound

namespace SlabAllocator

namespace PageMap

/-- The map with `n` pages of the free run at page `i` taken out of the free
runs `xs`, `i`, `ys`. What is left of the run keeps its place. -/
def cutRun (t : PageMap) (xs : List Nat) (i : Nat) (ys : List Nat) (n : Nat) : PageMap :=
  if n < (t.use i).pages then
    (t.assign (i + n) 1 (.free ((t.use i).pages - n))).relist .free (xs ++ (i + n) :: ys)
  else
    t.relist .free (xs ++ ys)

/-- The map after `n` pages were allocated from the free run at page `i`. -/
def takeRun (t : PageMap) (xs : List Nat) (i : Nat) (ys : List Nat) (n : Nat) : PageMap :=
  (t.cutRun xs i ys n).convert i (.run n)

/-- The map after the segment of `n` pages at page `i` became a free run. -/
def returnRun (t : PageMap) (i n : Nat) : PageMap :=
  ((t.unlist i).convert i (.free n)).push .free i

theorem returnRun_assign (t : PageMap) (i : Nat) (u : Use) :
    (t.assign i 1 u).returnRun i 1 = t.returnRun i 1 := by
  have same : (t.unlist i).assign i 1 (.free 1) = ((t.assign i 1 u).unlist i).assign i 1 (.free 1) :=
    (assign_assign (t.unlist i) i u (.free 1)).symm
  rw [returnRun, returnRun, convert, convert, same]

variable {t : PageMap} {xs ys : List Nat} {i n : Nat}

theorem use_cutRun_rest (left : n < (t.use i).pages) :
    (t.cutRun xs i ys n).use (i + n) = .free ((t.use i).pages - n) := by
  rw [cutRun, if_pos left]
  exact use_assign_self t (i + n) _

theorem use_cutRun_of_ne {j : Nat} (other : j ≠ i + n) : (t.cutRun xs i ys n).use j = t.use j := by
  unfold cutRun
  split
  · exact use_assign_of_ne t _ other
  · rfl

theorem use_cutRun_whole (whole : ¬n < (t.use i).pages) :
    (t.cutRun xs i ys n).use = t.use := by
  rw [cutRun, if_neg whole]
  rfl

@[simp] theorem use_takeRun_self : (t.takeRun xs i ys n).use i = .run n := use_convert_self ..

theorem use_takeRun_later {j : Nat} (after : i < j) (before : j < i + n) :
    (t.takeRun xs i ys n).use j = .interior :=
  use_convert_later _ after before

theorem use_takeRun_of_outside {j : Nat} (positive : 0 < n) (outside : ¬(i ≤ j ∧ j < i + n)) :
    (t.takeRun xs i ys n).use j = (t.cutRun xs i ys n).use j :=
  use_convert_of_outside _ (by omega) (by rw [Use.pages]; omega)

theorem lists_takeRun : (t.takeRun xs i ys n).lists = (t.cutRun xs i ys n).lists := rfl

theorem lists_cutRun : (t.cutRun xs i ys n).lists =
    Function.update t.lists .free (Region.cutList xs i (t.use i).pages n ys) := by
  unfold cutRun Region.cutList
  split <;> rfl

@[simp] theorem lists_cutRun_slot (s : Nat) :
    (t.cutRun xs i ys n).lists (.slot s) = t.lists (.slot s) := by
  rw [lists_cutRun, Function.update_of_ne (by simp)]

theorem mem_cutRun_free {j : Nat} : j ∈ (t.cutRun xs i ys n).lists .free ↔
    (n < (t.use i).pages ∧ j = i + n) ∨ j ∈ xs ++ ys := by
  rw [lists_cutRun, Function.update_self, Region.mem_cutList]

@[simp] theorem use_returnRun_self : (t.returnRun i n).use i = .free n := use_convert_self ..

theorem use_returnRun_later {j : Nat} (after : i < j) (before : j < i + n) :
    (t.returnRun i n).use j = .free 0 :=
  use_convert_later (t.unlist i) (u := .free n) after before

theorem use_returnRun_of_outside {j : Nat} (other : j ≠ i) (outside : ¬(i < j ∧ j < i + n)) :
    (t.returnRun i n).use j = t.use j :=
  use_convert_of_outside (t.unlist i) (u := .free n) other outside

@[simp] theorem lists_returnRun_free : (t.returnRun i n).lists .free = i :: (t.lists .free).erase i :=
  lists_relist_self ..

@[simp] theorem lists_returnRun_slot (s : Nat) :
    (t.returnRun i n).lists (.slot s) = (t.lists (.slot s)).erase i :=
  lists_relist_of_ne _ _ (by simp)

namespace Sound

variable {r : Region}

theorem tiled_takeRun (sound : t.Sound r) (within : i < r.pageCount) {k : Nat}
    (run : t.use i = .free k) (positive : 0 < n) (enough : n ≤ k) :
    Tiled r.pageCount (t.takeRun xs i ys n).use := by
  have pages : (t.use i).pages = k := by rw [run, Use.pages]
  have inner : ∀ j, i < j → j < i + n → (t.takeRun xs i ys n).use j = .interior :=
    fun j after before => use_takeRun_later after before
  have first : (t.takeRun xs i ys n).use i = .run n := use_takeRun_self
  -- The run is split in two, and its front then becomes an allocated one.
  by_cases left : n < k
  · obtain ⟨l, rfl⟩ := Nat.exists_eq_add_of_lt left
    let halves : Nat → Use := fun j => if j = i then .free n else (t.cutRun xs i ys n).use j
    have halved : Tiled r.pageCount halves := by
      refine sound.tiled.split within (k := n) (l := l + 1) run (if_pos rfl) ?_ positive (by omega)
        fun j one two => ?_
      · simp only [halves]
        rw [if_neg (by omega), use_cutRun_rest (by omega), pages]
        congr 1
        omega
      · simp only [halves]
        rw [if_neg one, use_cutRun_of_ne two]
    refine halved.convert within (u := .run n) ?_ first inner fun j outside => ?_
    · simp only [halves, if_true, Use.pages]
    · rw [Use.pages] at outside
      rw [use_takeRun_of_outside positive outside]
      exact (if_neg (by omega)).symm
  · refine sound.tiled.convert within (u := .run n) ?_ first inner fun j outside => ?_
    · rw [pages, Use.pages]
      omega
    · rw [use_takeRun_of_outside positive outside, use_cutRun_whole (by omega)]

/-- What is left of a free run after pages were allocated from its front. -/
theorem use_takeRun_rest (xs ys : List Nat) (sound : t.Sound r) (within : i < r.pageCount) {k j : Nat}
    (run : t.use i = .free k) (positive : 0 < n) (lower : i + n ≤ j) (upper : j < i + k) :
    (t.takeRun xs i ys n).use j = if j = i + n then .free (k - n) else .free 0 := by
  have pages : (t.use i).pages = k := by rw [run, Use.pages]
  rw [use_takeRun_of_outside positive (by omega)]
  split
  · rename_i same
    rw [same, use_cutRun_rest (by omega), pages]
  · rename_i other
    rw [use_cutRun_of_ne other, (sound.later_free within run (by omega) upper).1]

/-- Only the first page of a free run is on a list. -/
theorem quiet_of_run (sound : t.Sound r) (split : t.lists .free = xs ++ i :: ys)
    (distinct : (t.lists .free).Nodup) {k j : Nat} (run : t.use i = .free k) (lower : i ≤ j)
    (upper : j < i + k) : j ∉ xs ++ ys ∧ ∀ s < r.slotCount, j ∉ t.lists (.slot s) := by
  obtain ⟨within, _⟩ := sound.listed_free split
  by_cases first : j = i
  · subst first
    rw [split] at distinct
    refine ⟨(List.nodup_cons.mp (List.nodup_middle.mp distinct)).1, fun s known member => ?_⟩
    obtain ⟨_, c, taken, slab, _⟩ := (sound.slot s known j).mp member
    rw [run] at slab
    cases slab
  · obtain ⟨_, unlisted⟩ := sound.later_free within run (by omega) upper
    refine ⟨fun member => unlisted .free trivial ?_, fun s known => unlisted (.slot s) known⟩
    rw [split]
    exact List.perm_middle.mem_iff.mpr (List.mem_cons_of_mem i member)

theorem unlisted_cutRun (sound : t.Sound r) (split : t.lists .free = xs ++ i :: ys)
    (distinct : (t.lists .free).Nodup) {k j : Nat} (run : t.use i = .free k) (enough : n ≤ k)
    (lower : i ≤ j) (upper : j < i + n) (list : PageList) (known : r.HasList list) :
    j ∉ (t.cutRun xs i ys n).lists list := by
  obtain ⟨free, slot⟩ := sound.quiet_of_run split distinct run lower (by omega)
  cases list with
  | free =>
    rw [mem_cutRun_free]
    exact not_or.mpr ⟨by omega, free⟩
  | slot s =>
    rw [lists_cutRun_slot]
    exact slot s known

/-- The pages of the run are allocated ones, then the first and the other pages
of what is left. -/
theorem use_takeRun_cases (xs ys : List Nat) (sound : t.Sound r) (within : i < r.pageCount)
    {k j : Nat} (run : t.use i = .free k) (positive : 0 < n) (lower : i ≤ j) (upper : j < i + k) :
    (j < i + n ∧
      ((t.takeRun xs i ys n).use j = .run n ∨ (t.takeRun xs i ys n).use j = .interior)) ∨
    (j = i + n ∧ (t.takeRun xs i ys n).use j = .free (k - n)) ∨
    (i + n < j ∧ (t.takeRun xs i ys n).use j = .free 0) := by
  by_cases before : j < i + n
  · refine Or.inl ⟨before, ?_⟩
    by_cases first : j = i
    · exact Or.inl (by rw [first]; exact use_takeRun_self)
    · exact Or.inr (use_takeRun_later (by omega) before)
  · have rest := sound.use_takeRun_rest xs ys within run positive (Nat.le_of_not_lt before) upper
    split at rest
    · exact Or.inr (Or.inl ⟨by assumption, rest⟩)
    · exact Or.inr (Or.inr ⟨by omega, rest⟩)

/-- Allocating pages keeps all that holds of the map. -/
theorem takeRun (sound : t.Sound r) (split : t.lists .free = xs ++ i :: ys)
    (distinct : (t.lists .free).Nodup) (positive : 0 < n) (enough : n ≤ (t.use i).pages) :
    (t.takeRun xs i ys n).Sound r := by
  obtain ⟨within, k, _, run⟩ := sound.listed_free split
  have pages : (t.use i).pages = k := by rw [run, Use.pages]
  have unslabbed : ∀ j, i ≤ j → j < i + k → ∀ c taken, (t.takeRun xs i ys n).use j ≠ .slab c taken := by
    intro j lower upper c taken
    rcases sound.use_takeRun_cases xs ys within run positive lower upper with
      ⟨_, same | same⟩ | ⟨_, same⟩ | ⟨_, same⟩ <;> simp [same]
  rw [pages] at enough
  -- Only the pages of the run change; what is left of it takes its place in the list.
  refine sound.patch (sound.tiled_takeRun within run positive enough) within ?_ ?_ ?_ ?_ <;>
    rw [pages]
  · intro j outside
    constructor
    · rw [use_takeRun_of_outside positive (by omega)]
      by_cases rest : j = i + n
      · rw [use_cutRun_whole (by omega)]
      · rw [use_cutRun_of_ne rest]
    · intro list known
      cases list with
      | free =>
        rw [lists_takeRun, mem_cutRun_free, split, List.perm_middle.mem_iff, List.mem_cons,
          or_iff_right (by omega), or_iff_right (show j ≠ i by omega)]
      | slot s => rw [lists_takeRun, lists_cutRun_slot]
  · intro j lower upper
    obtain ⟨absent, _⟩ := sound.quiet_of_run split distinct run lower upper
    rw [lists_takeRun, mem_cutRun_free, or_iff_left absent, pages]
    rcases sound.use_takeRun_cases xs ys within run positive lower upper with
      ⟨_, same | same⟩ | ⟨_, same⟩ | ⟨_, same⟩ <;> rw [same]
    · exact iff_of_false (by omega) (by simp)
    · exact iff_of_false (by omega) (by simp)
    · exact iff_of_true (by omega) ⟨k - n, by omega, rfl⟩
    · exact iff_of_false (by omega) (by simp)
  · intro s known j lower upper
    rw [lists_takeRun, lists_cutRun_slot]
    obtain ⟨_, absent⟩ := sound.quiet_of_run split distinct run lower upper
    refine iff_of_false (absent s known) ?_
    rintro ⟨c, taken, slab, _⟩
    exact unslabbed j lower upper c taken slab
  · intro j lower upper c taken slab
    exact absurd slab (unslabbed j lower upper c taken)

theorem returnRun (sound : t.Sound r) (within : i < r.pageCount)
    (distinct : ∀ list, r.HasList list → (t.lists list).Nodup) (busy : (t.use i).later = .interior)
    (length : (t.use i).pages = n) (positive : 0 < n) : (t.returnRun i n).Sound r := by
  have first : (t.returnRun i n).use i = .free n := use_returnRun_self
  have inner : ∀ j, i < j → j < i + n → (t.returnRun i n).use j = .free 0 :=
    fun j => use_returnRun_later
  have others : ∀ j, ¬(i ≤ j ∧ j < i + n) → (t.returnRun i n).use j = t.use j :=
    fun j outside => use_returnRun_of_outside (by omega) (by omega)
  have quiet : ∀ j, i < j → j < i + n → ∀ list, r.HasList list → j ∉ t.lists list :=
    fun j after before => (sound.later_busy within busy after (by omega)).2
  have tiled : Tiled r.pageCount (t.returnRun i n).use :=
    sound.tiled.convert within (u := .free n) length.symm first inner others
  refine sound.patch tiled within ?_ ?_ ?_ ?_ <;> rw [length]
  · intro j outside
    refine ⟨others j outside, fun list known => ?_⟩
    cases list with
    | free =>
      rw [lists_returnRun_free, List.mem_cons, List.mem_erase_of_ne (by omega)]
      exact or_iff_right (by omega)
    | slot s => rw [lists_returnRun_slot, List.mem_erase_of_ne (by omega)]
  · intro j lower upper
    rw [lists_returnRun_free, List.mem_cons]
    by_cases here : j = i
    · rw [here, first]
      exact iff_of_true (Or.inl rfl) ⟨n, positive, rfl⟩
    · rw [inner j (by omega) upper, List.mem_erase_of_ne here]
      refine iff_of_false (not_or.mpr ⟨here, quiet j (by omega) upper .free trivial⟩) ?_
      rintro ⟨k, some, same⟩
      cases same
      exact Nat.lt_irrefl 0 some
  · intro s known j lower upper
    rw [lists_returnRun_slot]
    by_cases here : j = i
    · rw [here, first, (distinct (.slot s) known).mem_erase_iff]
      exact iff_of_false (fun member => member.1 rfl) fun ⟨_, _, same, _⟩ => nomatch same
    · rw [inner j (by omega) upper, List.mem_erase_of_ne here]
      exact iff_of_false (quiet j (by omega) upper (.slot s) known) fun ⟨_, _, same, _⟩ => nomatch same
  · intro j lower upper c taken same
    by_cases here : j = i
    · rw [here, first] at same
      cases same
    · rw [inner j (by omega) upper] at same
      cases same

end Sound

end PageMap

end SlabAllocator
