import SlabAllocator.Proofs.Partition
import SlabAllocator.Proofs.RunLinks

namespace SlabAllocator

/-- The length of the free run that a page with this role starts. -/
def Role.freePages : Role → Nat
  | free n => n
  | _ => 0

namespace Region

/-- The free run at a page, as its first page and its length. -/
def interval (r : Region) (m : Memory) (i : Nat) : Nat × Nat :=
  (i, (r.descriptor i m).role.freePages)

/-- The free runs in the order of their list. -/
def intervals (r : Region) (m : Memory) : Except Fault (List (Nat × Nat)) := do
  let listed ← r.members .free m
  return listed.map (r.interval m)

/-- Between two memories the first `n` pages of a free run of `k` pages became
an allocated run, and what is left is a free run. Nothing else is said of any
page than before, but for its place in the lists. -/
structure Allots (r : Region) (m after : Memory) (i k n : Nat) : Prop where
  first : (r.descriptor i after).role = .run n
  later : ∀ j, i < j → j < i + n → (r.descriptor j after).role = .interior
  rest : n < k → (r.descriptor (i + n) after).role = .free (k - n)
  others : ∀ j, ¬(i ≤ j ∧ j < i + n) → ¬(n < k ∧ j = i + n) →
    (r.descriptor j after).detached = (r.descriptor j m).detached

/-- Between two memories the `n` pages from page `i` on became a free run. -/
structure Frees (r : Region) (m after : Memory) (i n : Nat) : Prop where
  first : (r.descriptor i after).role = .free n
  later : ∀ j, i < j → j < i + n → r.descriptor j after = .blank
  others : ∀ j, ¬(i ≤ j ∧ j < i + n) → (r.descriptor j after).detached = (r.descriptor j m).detached

variable {r : Region} {m after : Memory} {lists : PageList → List Nat} {xs ys : List Nat}
  {i k n : Nat}

/-- A listed page starts a free run. -/
theorem Partitioned.opens_listed (part : r.Partitioned m lists) (listed : i ∈ lists .free) :
    ∃ k, (r.descriptor i m).role = .free k ∧ r.Opens m i (.free k) ∧ i + k ≤ r.pageCount := by
  obtain ⟨within, k, positive, role⟩ := (part.free i).mp listed
  obtain ⟨segments, split⟩ := part.split
  exact ⟨k, role, split.opens_of_role within (by rw [role, segmentOf?_free positive])⟩

theorem Partitioned.role_listed (part : r.Partitioned m lists) (listed : i ∈ lists .free) :
    (r.descriptor i m).role = .free (r.descriptor i m).role.freePages := by
  obtain ⟨_, _, _, role⟩ := (part.free i).mp listed
  rw [role, Role.freePages]

theorem Partitioned.takeRun_none (part : r.Partitioned m lists)
    (short : ∀ i ∈ lists .free, (r.descriptor i m).role.freePages < n) :
    r.takeRun n m = .ok (none, m) :=
  part.linked.takeRun_none fun i listed => ⟨_, short i listed, part.role_listed listed⟩

/-- Pages are taken from the first free run that is long enough. -/
theorem Partitioned.takeRun_some (part : r.Partitioned m lists) (split : lists .free = xs ++ i :: ys)
    (opens : r.Opens m i (.free k)) (fits : i + k ≤ r.pageCount) (positive : 1 ≤ n) (enough : n ≤ k)
    (short : ∀ j ∈ xs, (r.descriptor j m).role.freePages < n) :
    ∃ after, r.takeRun n m = .ok (some i, after) ∧ r.Allots m after i k n ∧
      r.Linked after (Function.update lists .free (cutList xs i k n ys)) := by
  have most : r.pageCount ≤ 2 ^ 32 - 2 := Layout.pageCount_le r.planned
  obtain ⟨after, run, linked, first, inner, rest, others⟩ := part.linked.takeRun_some split
    (fun _ => part.linked.later_unlisted opens fits) fits positive enough opens.2.1
    fun j member => ⟨_, short j member, part.role_listed (by rw [split]; simp [member])⟩
  refine ⟨after, run, ⟨?_, fun j later upper => ?_, fun left => ?_, others⟩, linked⟩
  · rw [first, Descriptor.role_asRun _ (by omega)]
  · rw [inner j later upper, Descriptor.role_asInterior]
  · rw [role_eq_of_detached (rest left)]
    exact Descriptor.role_asFreeRun _ (by omega)

/-- The pages allocated are a segment if they are on no list. -/
theorem Allots.opens_run (allots : r.Allots m after i k n) (positive : 1 ≤ n)
    (loose : ∀ j, i ≤ j → j < i + n → (r.descriptor j after).Loose) : r.Opens after i (.run n) :=
  ⟨positive, allots.first, loose i (Nat.le_refl i) (by omega), fun j later reach =>
    ⟨allots.later j later reach, loose j (by omega) reach⟩⟩

/-- Behind the pages allocated, the later pages of the free run are blank as
they were. -/
theorem Allots.opens_rest (allots : r.Allots m after i k n) (opens : r.Opens m i (.free k))
    (positive : 1 ≤ n) (left : n < k)
    (loose : ∀ j, i + n < j → j < i + k → (r.descriptor j after).Loose) :
    r.Opens after (i + n) (.free (k - n)) := by
  refine ⟨by omega, allots.rest left, fun j later reach => ?_⟩
  rw [← (loose j later (by omega)).detached_eq, allots.others j (by omega) (by omega),
    opens.2.2 j (by omega) (by omega)]
  rfl

theorem mem_cutList_of_outside {j : Nat} (split : lists .free = xs ++ i :: ys) (enough : n ≤ k)
    (positive : 1 ≤ n) (outside : ¬(i ≤ j ∧ j < i + k)) (list : PageList) :
    j ∈ Function.update lists .free (cutList xs i k n ys) list ↔ j ∈ lists list := by
  by_cases same : list = .free
  · rw [same, Function.update_self, mem_cutList, split, List.perm_middle.mem_iff, List.mem_cons,
      or_iff_right (by omega), or_iff_right (by omega)]
  · rw [Function.update_of_ne same]

/-- The page table is in order again once pages were allocated. -/
theorem Partitioned.allots (part : r.Partitioned m lists) (split : lists .free = xs ++ i :: ys)
    (opens : r.Opens m i (.free k)) (fits : i + k ≤ r.pageCount) (positive : 1 ≤ n) (enough : n ≤ k)
    (allots : r.Allots m after i k n)
    (linked : r.Linked after (Function.update lists .free (cutList xs i k n ys))) :
    r.Partitioned after (Function.update lists .free (cutList xs i k n ys)) := by
  have apart : ∀ j, i < j → j < i + k → ∀ list, r.HasList list → j ∉ lists list :=
    fun _ => part.linked.later_unlisted opens fits
  have loose : ∀ j, i ≤ j → j < i + k → ¬(n < k ∧ j = i + n) → (r.descriptor j after).Loose :=
    fun j lower upper other =>
      linked.loose j (by omega) (part.linked.unlisted_cutList split apart lower upper other)
  have run : r.Opens after i (.run n) := allots.opens_run positive fun j lower upper =>
    loose j lower (by omega) (by omega)
  have rest : n < k → r.Opens after (i + n) (.free (k - n)) := fun left =>
    allots.opens_rest opens positive left fun j later upper =>
      loose j (by omega) upper (by omega)
  refine part.patch opens fits linked (fun j outside => ?_)
    (fun j outside list _ => mem_cutList_of_outside split enough positive outside list)
    (fun back later => ?_) fun j lower upper => ?_
  · rw [Segment.pages] at outside
    exact allots.others j (by omega) (by omega)
  · by_cases left : n < k
    · have next : i + n + (k - n) = i + k := by omega
      refine ⟨.run n :: .free (k - n) :: back, run, rest left, ?_⟩
      rwa [Segment.pages, Segment.pages, next]
    · obtain rfl : n = k := by omega
      exact ⟨.run n :: back, run, later⟩
  · rw [Function.update_self, mem_cutList,
      or_iff_left (part.linked.quiet_of_split split apart lower upper).1]
    rw [Segment.pages] at upper
    by_cases taken : j < i + n
    · rw [run.free_iff lower taken]
      exact iff_of_false (by omega) (by simp)
    · rw [(rest (by omega)).free_iff (by omega) (by rw [Segment.pages]; omega)]
      exact ⟨fun here => ⟨here.2, _, rfl⟩, fun here => ⟨by omega, here.1⟩⟩

/-- Freed pages become a free run, off whatever list their first one was on. -/
theorem Linked.returnRun_frees (linked : r.Linked m lists) (positive : 1 ≤ n)
    (reach : i + n ≤ r.pageCount)
    (quiet : ∀ j, i < j → j < i + n → ∀ list, r.HasList list → j ∉ lists list) :
    ∃ after, r.returnRun i n m = .ok after ∧ r.Frees m after i n ∧
      r.Linked after (freedLists lists i) := by
  have most : r.pageCount ≤ 2 ^ 32 - 2 := Layout.pageCount_le r.planned
  obtain ⟨after, run, done, first, inner, others⟩ := linked.returnRun positive reach quiet
  refine ⟨after, run, ⟨?_, inner, others⟩, done⟩
  rw [role_eq_of_detached first]
  exact Descriptor.role_asFreeRun _ (by omega)

/-- The later pages of an allocated run are on no list, and a carved page has
none. -/
theorem Linked.quiet_of_busy {s : Segment} {j : Nat} (linked : r.Linked m lists)
    (opens : r.Opens m i s) (fits : i + s.pages ≤ r.pageCount) (busy : ∀ k, s ≠ .free k)
    (later : i < j) (reach : j < i + s.pages) : ∀ list, r.HasList list → j ∉ lists list := by
  cases s with
  | free k => exact absurd rfl (busy k)
  | run k => exact (linked.detached_iff (by omega)).mp (opens.2.2.2 j later reach).2.2.2
  | slab c =>
    rw [Segment.pages] at reach
    omega

/-- No page of a segment in use is on the list of free runs. -/
theorem Partitioned.not_listed {s : Segment} {j : Nat} (part : r.Partitioned m lists)
    (opens : r.Opens m i s) (busy : ∀ k, s ≠ .free k) (lower : i ≤ j) (upper : j < i + s.pages) :
    j ∉ lists .free := by
  intro listed
  obtain ⟨_, starts⟩ := (part.free j).mp listed
  obtain ⟨_, k, free⟩ := (opens.free_iff lower upper).mp starts
  exact busy k free

/-- The page table is in order again once a segment in use became a free
run. -/
theorem Partitioned.frees {s : Segment} (part : r.Partitioned m lists) (opens : r.Opens m i s)
    (fits : i + s.pages ≤ r.pageCount) (busy : ∀ k, s ≠ .free k) (frees : r.Frees m after i s.pages)
    (linked : r.Linked after (freedLists lists i)) : r.Partitioned after (freedLists lists i) := by
  have positive := opens.pages_pos
  have free : r.Opens after i (.free s.pages) := ⟨positive, frees.first, frees.later⟩
  refine part.patch opens fits linked frees.others
    (fun j outside list _ => mem_freedLists_of_ne (by omega))
    (fun back later => ⟨.free s.pages :: back, free, later⟩) fun j lower upper => ?_
  rw [free.free_iff lower upper]
  by_cases first : j = i
  · rw [first, freedLists, Function.update_self]
    exact iff_of_true List.mem_cons_self ⟨rfl, _, rfl⟩
  · rw [mem_freedLists_of_ne first]
    exact iff_of_false (part.not_listed opens busy lower upper) fun here => first here.1

theorem Linked.intervals_eq (linked : r.Linked m lists) : r.intervals m =
    .ok ((lists .free).map (r.interval m)) := by
  rw [intervals, linked.members_eq r.hasList_free]
  rfl

/-- The free runs once pages were allocated from one of them. -/
theorem Partitioned.intervals_allots (part : r.Partitioned m lists)
    (split : lists .free = xs ++ i :: ys) (opens : r.Opens m i (.free k))
    (fits : i + k ≤ r.pageCount) (enough : n ≤ k) (allots : r.Allots m after i k n)
    (linked : r.Linked after (Function.update lists .free (cutList xs i k n ys))) :
    r.intervals after = .ok
      (xs.map (r.interval m) ++ (if n < k then [(i + n, k - n)] else []) ++
        ys.map (r.interval m)) := by
  have same : ∀ j ∈ xs ++ ys, r.interval after j = r.interval m j := by
    intro j member
    have outside : ¬(i ≤ j ∧ j < i + k) := fun inside =>
      (part.linked.quiet_of_split split (fun _ => part.linked.later_unlisted opens fits) inside.1
        inside.2).1 member
    rw [interval, interval, role_eq_of_detached (allots.others j (by omega) (by omega))]
  have front := List.map_congr_left fun j member => same j (List.mem_append_left ys member)
  have back := List.map_congr_left fun j member => same j (List.mem_append_right xs member)
  rw [linked.intervals_eq, Function.update_self, cutList, List.map_append, front]
  split
  · rename_i left
    rw [List.map_cons, back, interval, allots.rest left, Role.freePages, List.append_assoc]
    rfl
  · rw [back, List.append_nil]

/-- The free runs once a segment in use became one. -/
theorem Partitioned.intervals_frees {s : Segment} (part : r.Partitioned m lists)
    (opens : r.Opens m i s) (busy : ∀ k, s ≠ .free k) (frees : r.Frees m after i s.pages)
    (linked : r.Linked after (freedLists lists i)) :
    r.intervals after = .ok ((i, s.pages) :: (lists .free).map (r.interval m)) := by
  have positive := opens.pages_pos
  have absent : i ∉ lists .free := part.not_listed opens busy (Nat.le_refl i) (by omega)
  have others : (lists .free).map (r.interval after) = (lists .free).map (r.interval m) := by
    refine List.map_congr_left fun j member => ?_
    have outside : ¬(i ≤ j ∧ j < i + s.pages) := fun inside =>
      part.not_listed opens busy inside.1 inside.2 member
    rw [interval, interval, role_eq_of_detached (frees.others j outside)]
  rw [linked.intervals_eq, freedLists, Function.update_self, List.erase_of_not_mem absent,
    List.map_cons, others, interval, frees.first, Role.freePages]

section Refinement

variable {runs front back : List (Nat × Nat)}

/-- Pages are taken from the first free run that is long enough, and what is
left of it keeps its place among the free runs. -/
theorem Partitioned.takes_interval (part : r.Partitioned m lists) (seen : r.intervals m = .ok runs)
    (split : runs = front ++ (i, k) :: back) (short : ∀ run ∈ front, run.2 < n) (positive : 1 ≤ n)
    (enough : n ≤ k) :
    ∃ after, r.takeRun n m = .ok (some i, after) ∧
      r.intervals after = .ok (front ++ (if n < k then [(i + n, k - n)] else []) ++ back) ∧
      r.Allots m after i k n ∧
      (∀ index < r.slotCount, r.members (.slot index) after = r.members (.slot index) m) ∧
      ∃ others, r.Partitioned after others := by
  rw [part.linked.intervals_eq] at seen
  obtain rfl := Except.ok.inj seen
  obtain ⟨xs, _, listed, rfl, tail⟩ := List.map_eq_append_iff.mp split
  obtain ⟨first, ys, rfl, here, rfl⟩ := List.map_eq_cons_iff.mp tail
  obtain ⟨rfl, rfl⟩ := Prod.mk.inj here
  obtain ⟨k, role, opens, fits⟩ := part.opens_listed (i := first) (by rw [listed]; simp)
  rw [role, Role.freePages] at enough ⊢
  obtain ⟨after, run, allots, linked⟩ := part.takeRun_some listed opens fits positive enough
    fun j member => short _ (List.mem_map_of_mem member)
  refine ⟨after, run, part.intervals_allots listed opens fits enough allots linked, allots,
    fun index below => ?_, _, part.allots listed opens fits positive enough allots linked⟩
  have known : r.HasList (.slot index) := below
  rw [linked.members_eq known, Function.update_of_ne (by simp), part.linked.members_eq known]

/-- No pages are taken exactly where no free run is long enough, and then
nothing changes. -/
theorem Partitioned.takes_none_iff (part : r.Partitioned m lists) (seen : r.intervals m = .ok runs)
    (positive : 1 ≤ n) :
    r.takeRun n m = .ok (none, after) ↔ after = m ∧ ∀ run ∈ runs, run.2 < n := by
  cases search : runs.find? fun run => decide (n ≤ run.2) with
  | none =>
    have short : ∀ run ∈ runs, run.2 < n := fun run member => by
      simpa using List.find?_eq_none.mp search run member
    have none_taken : r.takeRun n m = .ok (none, m) := by
      rw [part.linked.intervals_eq] at seen
      obtain rfl := Except.ok.inj seen
      exact part.takeRun_none fun i listed => short _ (List.mem_map_of_mem listed)
    rw [none_taken]
    constructor
    · intro same
      cases same
      exact ⟨rfl, short⟩
    · rintro ⟨rfl, _⟩
      rfl
  | some run =>
    obtain ⟨i, k⟩ := run
    obtain ⟨enough, front, back, split, short⟩ := List.find?_eq_some_iff_append.mp search
    have enough : n ≤ k := of_decide_eq_true enough
    obtain ⟨after, taken, _⟩ := part.takes_interval seen split
      (fun run member => by simpa using short run member) positive enough
    rw [taken]
    refine iff_of_false nofun ?_
    rintro ⟨_, short⟩
    have := short (i, k) (by rw [split]; simp)
    omega

/-- Freed pages become the first of the free runs. -/
theorem Partitioned.frees_interval {s : Segment} (part : r.Partitioned m lists)
    (seen : r.intervals m = .ok runs) (within : i < r.pageCount) (opens : r.Opens m i s)
    (busy : ∀ k, s ≠ .free k) :
    ∃ after, r.returnRun i s.pages m = .ok after ∧
      r.intervals after = .ok ((i, s.pages) :: runs) ∧ r.Frees m after i s.pages ∧
      (∀ index < r.slotCount, ∀ pages, r.members (.slot index) m = .ok pages →
        r.members (.slot index) after = .ok (pages.erase i)) ∧
      ∃ others, r.Partitioned after others := by
  rw [part.linked.intervals_eq] at seen
  obtain rfl := Except.ok.inj seen
  obtain ⟨segments, split⟩ := part.split
  obtain ⟨_, fits⟩ := split.opens_of_role within opens.segmentOf?_eq
  obtain ⟨after, run, frees, linked⟩ := part.linked.returnRun_frees opens.pages_pos fits
    fun j => part.linked.quiet_of_busy opens fits busy
  refine ⟨after, run, part.intervals_frees opens busy frees linked, frees,
    fun index below pages members => ?_, _, part.frees opens fits busy frees linked⟩
  have known : r.HasList (.slot index) := below
  rw [part.linked.members_eq known] at members
  obtain rfl := Except.ok.inj members
  rw [linked.members_eq known, freedLists, Function.update_of_ne (by simp)]

end Refinement

/-- On a page table in order, allocating and freeing pages are operations on the
sequence of the free runs. -/
theorem Partitioned.refines_intervals (part : r.Partitioned m lists) :
    ∃ runs, r.intervals m = .ok runs ∧
      (∀ n, 1 ≤ n →
        (∀ after, r.takeRun n m = .ok (none, after) ↔ after = m ∧ ∀ run ∈ runs, run.2 < n) ∧
        ∀ front i k back, runs = front ++ (i, k) :: back → (∀ run ∈ front, run.2 < n) → n ≤ k →
          ∃ after, r.takeRun n m = .ok (some i, after) ∧
            r.intervals after = .ok (front ++ (if n < k then [(i + n, k - n)] else []) ++ back) ∧
            r.Allots m after i k n ∧
            (∀ index < r.slotCount,
              r.members (.slot index) after = r.members (.slot index) m) ∧
            ∃ others, r.Partitioned after others) ∧
      ∀ i s, i < r.pageCount → r.Opens m i s → (∀ k, s ≠ .free k) →
        ∃ after, r.returnRun i s.pages m = .ok after ∧
          r.intervals after = .ok ((i, s.pages) :: runs) ∧ r.Frees m after i s.pages ∧
          (∀ index < r.slotCount, ∀ pages, r.members (.slot index) m = .ok pages →
            r.members (.slot index) after = .ok (pages.erase i)) ∧
          ∃ others, r.Partitioned after others :=
  have seen := part.linked.intervals_eq
  ⟨_, seen, fun _ positive =>
    ⟨fun _ => part.takes_none_iff seen positive, fun _ _ _ _ split short enough =>
      part.takes_interval seen split short positive enough⟩,
    fun _ _ within opens busy => part.frees_interval seen within opens busy⟩

/-- The free runs of a pool with one page of chunks and two free ones. -/
theorem refines_intervals_two_free : ∃ (pool : Pool) (s : PoolState) (after : Memory),
    pool.region.intervals s.memory = .ok [(1, 2)] ∧
      pool.region.takeRun 1 s.memory = .ok (some 1, after) ∧
      pool.region.intervals after = .ok [(2, 1)] := by
  obtain ⟨pool, m, s, created, ran, seen⟩ := of_trial 4096 4096
    [.allocate 5, .allocate 1500, .release 6144] (fun pool s => pool.region.intervals s.memory)
    [(1, 2)] (by decide +kernel)
  have reached := reachable_trial created ran (by simp [Call.Allowed])
  obtain ⟨runs, same, takes, _⟩ := reached.invariant.wellFormed.partitioned.refines_intervals
  rw [seen] at same
  obtain rfl := Except.ok.inj same
  obtain ⟨after, run, left, _⟩ := (takes 1 (Nat.le_refl 1)).2 [] 1 2 [] rfl (by simp) (by decide)
  exact ⟨pool, s, after, seen, run, left⟩

end Region

end SlabAllocator
