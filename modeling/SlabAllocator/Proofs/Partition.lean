import SlabAllocator.Proofs.Segments

namespace SlabAllocator

namespace Region

/-- The page table splits into segments, every list is a chain of pages, and
the list of free runs holds the first page of each of them. -/
structure Partitioned (r : Region) (m : Memory) (lists : PageList → List Nat) : Prop where
  linked : r.Linked m lists
  split : ∃ segments, r.Split m 0 segments
  free : ∀ i, i ∈ lists .free ↔
    i < r.pageCount ∧ ∃ n, 1 ≤ n ∧ (r.descriptor i m).role = .free n

/-- The segment that a page with this role starts, if it starts one. -/
def segmentOf? (r : Region) : Role → Option Segment
  | .free 0 => none
  | .free (n + 1) => some (.free (n + 1))
  | .run n => some (.run n)
  | .interior => none
  | role => (r.carvingOf? role).map .slab

variable {r : Region} {m after : Memory} {lists : PageList → List Nat} {i k : Nat} {s : Segment}

theorem segmentOf?_free {n : Nat} (positive : 1 ≤ n) :
    r.segmentOf? (.free n) = some (.free n) := by
  obtain ⟨n, rfl⟩ := Nat.exists_eq_add_of_le' positive
  rfl

theorem segmentOf?_slab {role : Role} {c : Carving} (carved : r.carvingOf? role = some c) :
    r.segmentOf? role = some (.slab c) := by
  cases role <;> simp_all [carvingOf?, segmentOf?]

theorem Opens.segmentOf?_eq (opens : r.Opens m i s) :
    r.segmentOf? (r.descriptor i m).role = some s := by
  cases s with
  | free n => rw [opens.2.1, segmentOf?_free opens.1]
  | run n =>
    rw [opens.2.1]
    rfl
  | slab c => exact segmentOf?_slab opens.1

/-- No segment starts within another one. -/
theorem Opens.segmentOf?_later {j : Nat} (opens : r.Opens m i s) (later : i < j)
    (reach : j < i + s.pages) : r.segmentOf? (r.descriptor j m).role = none := by
  cases s with
  | free n =>
    rw [opens.2.2 j later reach]
    rfl
  | run n =>
    rw [(opens.2.2.2 j later reach).1]
    rfl
  | slab c =>
    rw [Segment.pages] at reach
    omega

theorem Opens.unique {u : Segment} (opens : r.Opens m i s) (also : r.Opens m i u) : s = u :=
  Option.some.inj (opens.segmentOf?_eq.symm.trans also.segmentOf?_eq)

/-- Only the first page of a segment can start a free run. -/
theorem Opens.free_iff {j : Nat} (opens : r.Opens m i s) (lower : i ≤ j) (upper : j < i + s.pages) :
    (∃ n, 1 ≤ n ∧ (r.descriptor j m).role = .free n) ↔ j = i ∧ ∃ n, s = .free n := by
  rcases Nat.eq_or_lt_of_le lower with rfl | later
  · rw [and_iff_right rfl]
    constructor
    · rintro ⟨n, positive, role⟩
      have starts := opens.segmentOf?_eq
      rw [role, segmentOf?_free positive] at starts
      exact ⟨n, (Option.some.inj starts).symm⟩
    · rintro ⟨n, rfl⟩
      exact ⟨n, opens.1, opens.2.1⟩
  · refine iff_of_false ?_ (by omega)
    rintro ⟨n, positive, role⟩
    have starts := opens.segmentOf?_later later upper
    rw [role, segmentOf?_free positive] at starts
    cases starts

/-- Every page from the start of a split on lies in one of its segments. -/
theorem Split.covered {segments : List Segment} {j : Nat} (split : r.Split m i segments)
    (lower : i ≤ j) (within : j < r.pageCount) :
    ∃ k ≤ j, ∃ s, r.Opens m k s ∧ j < k + s.pages ∧ k + s.pages ≤ r.pageCount := by
  induction segments generalizing i with
  | nil =>
    have last : i = r.pageCount := split
    omega
  | cons s rest ih =>
    obtain ⟨opens, later⟩ := split
    have left := later.sum_pages
    by_cases here : j < i + s.pages
    · exact ⟨i, lower, s, opens, here, by omega⟩
    · exact ih later (by omega)

/-- Where the role of a page starts a segment, that segment is part of the
split. -/
theorem Split.opens_of_role {segments : List Segment} (split : r.Split m 0 segments)
    (within : i < r.pageCount) (starts : r.segmentOf? (r.descriptor i m).role = some s) :
    r.Opens m i s ∧ i + s.pages ≤ r.pageCount := by
  obtain ⟨k, before, u, opens, reach, fits⟩ := split.covered (Nat.zero_le i) within
  by_cases first : k = i
  · subst first
    obtain rfl : u = s := Option.some.inj (opens.segmentOf?_eq.symm.trans starts)
    exact ⟨opens, fits⟩
  · have inner := opens.segmentOf?_later (by omega) reach
    rw [starts] at inner
    cases inner

theorem Split.congr {segments : List Segment} (split : r.Split m i segments)
    (kept : ∀ k u, i ≤ k → k + u.pages ≤ r.pageCount → r.Opens m k u → r.Opens after k u) :
    r.Split after i segments := by
  induction segments generalizing i with
  | nil => exact split
  | cons s rest ih =>
    obtain ⟨opens, later⟩ := split
    have left := later.sum_pages
    exact ⟨kept i s (Nat.le_refl i) (by omega) opens,
      ih later fun k u lower => kept k u (by omega)⟩

/-- One segment may be split anew without regard to the others. -/
theorem Split.patch {segments : List Segment} {first : Nat} (split : r.Split m first segments)
    (lower : first ≤ i) (within : i < r.pageCount) (opens : r.Opens m i s)
    (kept : ∀ k u, k + u.pages ≤ i ∨ i + s.pages ≤ k → k + u.pages ≤ r.pageCount →
      r.Opens m k u → r.Opens after k u)
    (anew : ∀ rest, r.Split after (i + s.pages) rest → ∃ segments, r.Split after i segments) :
    ∃ segments, r.Split after first segments := by
  induction segments generalizing first with
  | nil =>
    have last : first = r.pageCount := split
    omega
  | cons u rest ih =>
    obtain ⟨start, later⟩ := split
    have left := later.sum_pages
    by_cases here : first = i
    · subst here
      obtain rfl := start.unique opens
      exact anew rest (later.congr fun k v beyond => kept k v (Or.inr beyond))
    · -- The segment ends before page `i`, which starts one of its own.
      have before : first + u.pages ≤ i := by
        by_contra reach
        have inner := start.segmentOf?_later (by omega) (show i < first + u.pages by omega)
        rw [opens.segmentOf?_eq] at inner
        cases inner
      obtain ⟨segments, others⟩ := ih later before
      exact ⟨u :: segments, kept first u (Or.inl before) (by omega) start, others⟩

theorem role_eq_of_detached {d e : Descriptor} (same : d.detached = e.detached) :
    d.role = e.role := by
  have word := congrArg Descriptor.word same
  have kind := congrArg Descriptor.kind same
  exact Descriptor.role_congr word kind

/-- A segment stays as long as its pages keep their roles and join no list. -/
theorem Linked.opens_congr {others : PageList → List Nat} (linked : r.Linked m lists)
    (also : r.Linked after others) (opens : r.Opens m i s) (fits : i + s.pages ≤ r.pageCount)
    (same : ∀ j, i ≤ j → j < i + s.pages →
      (r.descriptor j after).detached = (r.descriptor j m).detached)
    (joins : ∀ j, i ≤ j → j < i + s.pages → ∀ list, r.HasList list → j ∈ others list →
      j ∈ lists list) : r.Opens after i s := by
  have first := same i (Nat.le_refl i) (Nat.lt_add_of_pos_right opens.pages_pos)
  have loose : ∀ j, i ≤ j → j < i + s.pages → (r.descriptor j m).Loose →
      (r.descriptor j after).Loose := fun j lower upper loose =>
    also.loose j (by omega) fun list known member =>
      (linked.detached_iff (by omega)).mp loose.2.2 list known (joins j lower upper list known member)
  cases s with
  | free n =>
    refine ⟨opens.1, (role_eq_of_detached first).trans opens.2.1, fun j later reach => ?_⟩
    have blank := opens.2.2 j later reach
    have there : (r.descriptor j m).Loose := by
      rw [blank]
      exact Descriptor.loose_detached .blank
    rw [← (loose j (by omega) reach there).detached_eq, same j (by omega) reach, blank]
    rfl
  | run n =>
    obtain ⟨positive, role, quiet, inner⟩ := opens
    refine ⟨positive, (role_eq_of_detached first).trans role,
      loose i (Nat.le_refl i) (Nat.lt_add_of_pos_right positive) quiet, fun j later reach => ?_⟩
    obtain ⟨interior, quiet⟩ := inner j later reach
    exact ⟨(role_eq_of_detached (same j (by omega) reach)).trans interior,
      loose j (by omega) reach quiet⟩
  | slab c =>
    refine ⟨?_, opens.2⟩
    rw [role_eq_of_detached first]
    exact opens.1

/-- The later pages of a free run are on no list. -/
theorem Linked.later_unlisted {j : Nat} (linked : r.Linked m lists) (opens : r.Opens m i (.free k))
    (fits : i + k ≤ r.pageCount) (later : i < j) (reach : j < i + k) :
    ∀ list, r.HasList list → j ∉ lists list := by
  refine (linked.detached_iff (by omega)).mp ?_
  rw [opens.2.2 j later reach]
  rfl

/-- The page table is in order again once one segment of it was split anew and
the lists were brought in line with that. -/
theorem Partitioned.patch {others : PageList → List Nat} (part : r.Partitioned m lists)
    (opens : r.Opens m i s) (fits : i + s.pages ≤ r.pageCount) (linked : r.Linked after others)
    (same : ∀ j, ¬(i ≤ j ∧ j < i + s.pages) →
      (r.descriptor j after).detached = (r.descriptor j m).detached)
    (beside : ∀ j, ¬(i ≤ j ∧ j < i + s.pages) → ∀ list, r.HasList list →
      (j ∈ others list ↔ j ∈ lists list))
    (anew : ∀ rest, r.Split after (i + s.pages) rest → ∃ segments, r.Split after i segments)
    (free : ∀ j, i ≤ j → j < i + s.pages →
      (j ∈ others .free ↔ ∃ n, 1 ≤ n ∧ (r.descriptor j after).role = .free n)) :
    r.Partitioned after others := by
  have positive := opens.pages_pos
  refine ⟨linked, ?_, fun j => ?_⟩
  · obtain ⟨segments, split⟩ := part.split
    refine split.patch (Nat.zero_le i) (by omega) opens (fun k u apart inside there => ?_) anew
    exact part.linked.opens_congr linked there inside (fun j lower upper => same j (by omega))
      fun j lower upper list known => (beside j (by omega) list known).mp
  · by_cases inner : i ≤ j ∧ j < i + s.pages
    · rw [free j inner.1 inner.2]
      exact (and_iff_right (by omega)).symm
    · rw [beside j inner .free trivial, part.free, role_eq_of_detached (same j inner)]

/-- The pages that a walk along a list visits, if it ends. -/
def walked (r : Region) (m : Memory) (list : PageList) : List Nat :=
  (r.members list m).toOption.getD []

theorem Visits.walked {list : PageList} {wanted : Nat → Prop} (visits : r.Visits m list wanted) :
    (r.walked m list).Nodup ∧ (∀ i, i ∈ r.walked m list ↔ i < r.pageCount ∧ wanted i) ∧
      r.headOf list m = Link.first .nil (r.walked m list) ∧
      r.Strung m list .nil .nil (r.walked m list) := by
  obtain ⟨pages, members, facts⟩ := visits
  have same : r.walked m list = pages := by simp [Region.walked, members, Except.toOption]
  rw [same]
  exact facts

/-- Tables that are in order for a whole pool are so for the runs of pages. -/
theorem WellFormed.partitioned {live : List Block} (order : r.WellFormed m live) :
    r.Partitioned m (r.walked m) := by
  have chains : ∀ list, r.HasList list → (r.walked m list).Nodup ∧
      r.headOf list m = Link.first .nil (r.walked m list) ∧
      r.Strung m list .nil .nil (r.walked m list) := by
    intro list known
    cases list with
    | free =>
      obtain ⟨distinct, _, chain⟩ := order.free.walked
      exact ⟨distinct, chain⟩
    | slot index =>
      obtain ⟨distinct, _, chain⟩ := (order.slot index known).walked
      exact ⟨distinct, chain⟩
  have free := order.free.walked.2.1
  refine ⟨⟨fun list known => (chains list known).2.1, fun list known => (chains list known).2.2,
    fun list known => (chains list known).1, fun i within unlisted => ?_⟩, order.split, free⟩
  -- A page on no list is no free run, and it has no room if it is carved.
  obtain ⟨segments, split⟩ := order.split
  obtain ⟨k, before, s, opens, reach, _⟩ := split.covered (Nat.zero_le i) within
  rcases Nat.eq_or_lt_of_le before with rfl | later
  · cases s with
    | free n => exact absurd ((free k).mpr ⟨within, n, opens.1, opens.2.1⟩) (unlisted .free trivial)
    | run n => exact opens.2.2.1
    | slab c =>
      obtain ⟨carved, cls⟩ := opens
      have known : r.HasList (.slot (r.geometry.slotOf c.shift)) := hasList_slotOf cls
      refine order.full k within c carved fun room => unlisted _ known ?_
      exact ((order.slot _ known).walked.2.1 k).mpr ⟨within, c, carved, rfl, room⟩
  · cases s with
    | free n =>
      rw [opens.2.2 i later reach]
      exact Descriptor.loose_detached .blank
    | run n => exact (opens.2.2.2 i later reach).2
    | slab c =>
      rw [Segment.pages] at reach
      omega

end Region

end SlabAllocator
