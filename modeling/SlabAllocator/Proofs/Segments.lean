import Mathlib.Algebra.GroupWithZero.Nat
import SlabAllocator.Proofs.WellFormed

namespace SlabAllocator

namespace Segment

/-- The length of a free run. -/
def freeLength? : Segment → Option Nat
  | free n => some n
  | _ => none

end Segment

/-- The lengths of the free runs among some segments. -/
def freeLengths (segments : List Segment) : List Nat := segments.filterMap Segment.freeLength?

namespace Use

/-- The segment that starts at a page, if one does. -/
def segment? : Use → Option Segment
  | free 0 => none
  | free (n + 1) => some (.free (n + 1))
  | run n => some (.run n)
  | interior => none
  | slab c _ => some (.slab c)

theorem segment?_later (u : Use) : u.later.segment? = none := by
  cases u <;> rfl

/-- The length of the free run that starts at a page, if one does. -/
def freeLength? (u : Use) : Option Nat := u.segment?.bind Segment.freeLength?

theorem freeLength?_eq_some_iff {u : Use} {n : Nat} :
    u.freeLength? = some n ↔ 0 < n ∧ u = .free n := by
  rcases u with k | k | _ | ⟨c, taken⟩
  · cases k with
    | zero =>
      refine iff_of_false nofun ?_
      rintro ⟨positive, same⟩
      cases same
      exact Nat.lt_irrefl 0 positive
    | succ k =>
      constructor
      · rintro same
        cases same
        exact ⟨Nat.succ_pos k, rfl⟩
      · rintro ⟨_, same⟩
        cases same
        rfl
  · exact iff_of_false nofun fun same => nomatch same.2
  · exact iff_of_false nofun fun same => nomatch same.2
  · exact iff_of_false nofun fun same => nomatch same.2

end Use

namespace Region

variable {r : Region} {m : Memory} {t : PageMap} {i : Nat}

/-- The segments of a split take up all pages from its start on. -/
theorem Split.sum_pages {segments : List Segment} (split : r.Split m i segments) :
    i + (segments.map Segment.pages).sum = r.pageCount := by
  induction segments generalizing i with
  | nil => exact split
  | cons s rest ih =>
    have rest := ih split.2
    rw [List.map_cons, List.sum_cons]
    omega

theorem Opens.pages_pos {s : Segment} (opens : r.Opens m i s) : 0 < s.pages := by
  cases s with
  | free n => exact opens.1
  | run n => exact opens.1
  | slab c => exact Nat.one_pos

/-- The segment that opens at a page for the tables starts there for the map. -/
theorem Shows.segment?_eq {s : Segment} (shows_ : r.Shows m t) (sound : t.Sound r)
    (within : i < r.pageCount) (opens : r.Opens m i s) :
    (t.use i).segment? = some s ∧ (t.use i).pages = s.pages := by
  have role := shows_.role_eq within (sound.spelled within)
  cases s with
  | free n =>
    obtain ⟨positive, same, _⟩ := opens
    rw [(shows_.free_iff sound within n).mp same]
    obtain ⟨k, rfl⟩ := Nat.exists_eq_add_of_le' positive
    exact ⟨rfl, rfl⟩
  | run n =>
    rw [opens.2.1] at role
    rcases use : t.use i with k | k | _ | ⟨⟨kind, shift⟩, taken⟩
    · rw [use] at role
      cases role
    · rw [use] at role
      cases role
      exact ⟨rfl, rfl⟩
    · rw [use] at role
      cases role
    · rw [use] at role
      cases kind <;> cases role
  | slab c =>
    obtain ⟨taken, slab⟩ := (shows_.carvingOf?_iff sound within).mp opens.1
    rw [slab]
    exact ⟨rfl, rfl⟩

/-- A split lists the segments of the map in the order of their pages. -/
theorem Shows.split_eq {segments : List Segment} (shows_ : r.Shows m t) (sound : t.Sound r)
    (split : r.Split m i segments) : segments =
      (List.range' i (r.pageCount - i)).filterMap fun j => (t.use j).segment? := by
  induction segments generalizing i with
  | nil =>
    have last : i = r.pageCount := split
    rw [last, Nat.sub_self]
    rfl
  | cons s rest ih =>
    obtain ⟨opens, later⟩ := split
    have some := opens.pages_pos
    have left := later.sum_pages
    obtain ⟨here, pages⟩ := shows_.segment?_eq sound (by omega) opens
    obtain ⟨inner, length⟩ := Nat.exists_eq_add_of_le' some
    have apart : r.pageCount - i = (1 + inner) + (r.pageCount - (i + s.pages)) := by omega
    have quiet : (List.range' (i + 1) inner).filterMap (fun j => (t.use j).segment?) = [] := by
      refine List.filterMap_eq_nil_iff.mpr fun j member => ?_
      obtain ⟨lower, upper⟩ := List.mem_range'_1.mp member
      rw [sound.tiled.later i (by omega) j (by omega) (by omega), Use.segment?_later]
    rw [apart, ← List.range'_append_1, ← List.range'_append_1, List.filterMap_append,
      List.filterMap_append, quiet, List.append_nil, show i + (1 + inner) = i + s.pages by omega,
      ← ih later]
    simp [here]

/-- The listed free runs are the free ones among the segments. -/
theorem Shows.freeLengths_perm {segments : List Segment} (shows_ : r.Shows m t) (sound : t.Sound r)
    (split : r.Split m 0 segments) :
    ((t.lists .free).filterMap fun i => (t.use i).freeLength?).Perm (freeLengths segments) := by
  have listed : (t.lists .free).Perm ((List.range r.pageCount).filter fun i =>
      (t.use i).freeLength?.isSome) := by
    refine (List.perm_ext_iff_of_nodup (shows_.linked.distinct .free r.hasList_free)
      (List.nodup_range.filter _)).mpr fun i => ?_
    simp only [sound.free, List.mem_filter, List.mem_range, Option.isSome_iff_exists,
      Use.freeLength?_eq_some_iff]
  refine (listed.filterMap _).trans (List.Perm.of_eq ?_)
  rw [freeLengths, shows_.split_eq sound split, List.filterMap_filterMap, List.filterMap_filter,
    Nat.sub_zero, ← List.range_eq_range']
  refine List.filterMap_congr fun i _ => ?_
  change (if _ then _ else _) = (t.use i).freeLength?
  split
  · rfl
  · rename_i none
    exact (Option.not_isSome_iff_eq_none.mp (by simpa using none)).symm

end Region

end SlabAllocator
