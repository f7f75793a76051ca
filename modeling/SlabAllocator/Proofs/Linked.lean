import Mathlib.Data.List.Perm.Subperm
import SlabAllocator.Proofs.Strung

namespace SlabAllocator

namespace Region

/-- Every list of the region is a chain of pages that starts at its head and
ends in both directions. -/
structure Chained (r : Region) (m : Memory) (lists : PageList → List Nat) : Prop where
  head : ∀ list, r.HasList list → r.headOf list m = Link.first .nil (lists list)
  strung : ∀ list, r.HasList list → r.Strung m list .nil .nil (lists list)
  distinct : ∀ list, r.HasList list → (lists list).Nodup

/-- Every list of the region is a chain of pages that starts at its head and
ends in both directions, and a page that is on none of them is loose. -/
structure Linked (r : Region) (m : Memory) (lists : PageList → List Nat) : Prop where
  head : ∀ list, r.HasList list → r.headOf list m = Link.first .nil (lists list)
  strung : ∀ list, r.HasList list → r.Strung m list .nil .nil (lists list)
  distinct : ∀ list, r.HasList list → (lists list).Nodup
  loose : ∀ i < r.pageCount, (∀ list, r.HasList list → i ∉ lists list) →
    (r.descriptor i m).Loose

/-- A list was strung together anew: what dropped out of it is loose, and the
pages that it neither had nor has are as they were. -/
structure Relists (r : Region) (m after : Memory) (lists : PageList → List Nat)
    (list : PageList) (new : List Nat) : Prop where
  chained : r.Chained after (Function.update lists list new)
  dropped : ∀ j ∈ lists list, j ∉ new → (r.descriptor j after).Loose
  kept : ∀ j, j ∉ lists list → j ∉ new → r.descriptor j after = r.descriptor j m

variable {r : Region} {m after : Memory} {lists : PageList → List Nat} {list : PageList}

namespace Chained

theorem within (chained : r.Chained m lists) (known : r.HasList list) {i : Nat}
    (member : i ∈ lists list) : i < r.pageCount :=
  (chained.strung list known).within i member

theorem list?_of_mem (chained : r.Chained m lists) (known : r.HasList list) {i : Nat}
    (member : i ∈ lists list) : (r.descriptor i m).list? = some list := by
  rw [Descriptor.list?, (chained.strung list known).named i member, r.ofCode?_code known]

theorem unique (chained : r.Chained m lists) {other : PageList} {i : Nat}
    (known : r.HasList list) (too : r.HasList other) (member : i ∈ lists list)
    (also : i ∈ lists other) : list = other := by
  have one := chained.list?_of_mem known member
  rw [chained.list?_of_mem too also] at one
  exact (Option.some.inj one).symm

theorem unlisted_of_detached (chained : r.Chained m lists) {i : Nat}
    (detached : (r.descriptor i m).list = PageList.detachedCode) (known : r.HasList list) :
    i ∉ lists list := by
  intro member
  have named := chained.list?_of_mem known member
  rw [Descriptor.list?_of_detached detached] at named
  cases named

theorem length_le (chained : r.Chained m lists) (known : r.HasList list) :
    (lists list).length ≤ r.pageCount := by
  have inside : lists list ⊆ List.range r.pageCount := fun i member =>
    List.mem_range.mpr (chained.within known member)
  have shorter := (List.subperm_of_subset (chained.distinct list known) inside).length_le
  rwa [List.length_range] at shorter

/-- The lists stay chains when one of them is strung together anew and what it
gains was on no list. -/
theorem restring {new : List Nat} (chained : r.Chained m lists) (known : r.HasList list)
    (change : r.Relinks m after list (lists list ++ new))
    (head : r.headOf list after = Link.first .nil new) (strung : r.Strung after list .nil .nil new)
    (distinct : new.Nodup)
    (fresh : ∀ j ∈ new, j ∉ lists list → ∀ other, r.HasList other → j ∉ lists other)
    (dropped : ∀ j ∈ lists list, j ∉ new → (r.descriptor j after).Loose) :
    r.Relists m after lists list new where
  chained := by
    refine ⟨fun other too => ?_, fun other too => ?_, fun other too => ?_⟩ <;>
      by_cases same : other = list
    · rw [same, Function.update_self, head]
    · rw [Function.update_of_ne same, change.head other too same, chained.head other too]
    · rwa [same, Function.update_self]
    · rw [Function.update_of_ne same]
      refine (chained.strung other too).congr fun j member => change.page j fun touched => ?_
      by_cases old : j ∈ lists list
      · exact same (chained.unique too known member old)
      · exact fresh j ((List.mem_append.mp touched).resolve_left old) old other too member
    · rwa [same, Function.update_self]
    · rw [Function.update_of_ne same]
      exact chained.distinct other too
  dropped := dropped
  kept j old gone := change.page j (by simp [old, gone])

theorem pushFront {i : Nat} (chained : r.Chained m lists) (known : r.HasList list)
    (within : i < r.pageCount) (unlisted : ∀ other, r.HasList other → i ∉ lists other) :
    ∃ after, r.pushFront list i m = .ok after ∧
      r.Relists m after lists list (i :: lists list) := by
  have head := chained.head list known
  have distinct := chained.distinct list known
  have fresh := unlisted list known
  -- The page is written first, then the link back of the old first page, then the head.
  let d : Descriptor :=
    { r.descriptor i m with next := Link.first .nil (lists list), prev := .nil, list := list.code }
  have one : r.Relinks m (r.putDescriptor i d m) list [i] := .putDescriptor i d m list
  have chain : r.Strung (r.putDescriptor i d m) list .nil .nil (lists list) := by
    refine (chained.strung list known).congr fun j member => ?_
    have other : j ≠ i := fun same => fresh (same ▸ member)
    simp [other]
  obtain ⟨between, second, _, strung, two⟩ :=
    setPrevBefore_strung (.page i) known chain distinct
  have three : r.Relinks between (r.putHead list (.page i) between) list [] :=
    .putHead (.page i) between known
  have change : r.Relinks m (r.putHead list (.page i) between) list
      (lists list ++ i :: lists list) := ((one.trans two).trans three).mono (by simp)
  refine ⟨r.putHead list (.page i) between, ?_, chained.restring known change ?_ ?_ ?_ ?_ ?_⟩
  · rw [Region.pushFront, r.head_eq m known, ok_bind, linkTo_eq r within, ok_bind,
      r.modifyPage_eq _ m within, head, ok_bind, second, ok_bind]
    exact r.setHead_eq (.page i) between known
  · simp
  · have same : r.descriptor i (r.putHead list (.page i) between) = d := by
      simp [three.page i, two.page i fresh]
    refine ⟨⟨within, ?_, ?_, ?_⟩, strung.congr fun j _ => three.page j (by simp)⟩ <;> rw [same]
  · exact List.nodup_cons.mpr ⟨fresh, distinct⟩
  · intro j member old
    rw [(List.mem_cons.mp member).resolve_right old]
    exact unlisted
  · exact fun j old gone => absurd (List.mem_cons_of_mem i old) gone

/-- What a page in the middle of a list says of the two parts around it. -/
theorem split {xs ys : List Nat} {i : Nat} (chained : r.Chained m lists)
    (known : r.HasList list) (split : lists list = xs ++ i :: ys) :
    r.headOf list m = Link.first (.page i) xs ∧ r.Strung m list (.page i) .nil xs ∧
      r.Strung m list .nil (.page i) ys ∧ (xs ++ ys).Nodup ∧ i ∉ xs ++ ys ∧ i < r.pageCount ∧
      (r.descriptor i m).prev = Link.last .nil xs ∧ (r.descriptor i m).next = Link.first .nil ys ∧
      (r.descriptor i m).list = list.code := by
  have distinct := chained.distinct list known
  have strung := chained.strung list known
  have head := chained.head list known
  rw [split] at distinct strung head
  obtain ⟨front, ⟨within, prev, next, named⟩, back⟩ := strung_append.mp strung
  have parts := List.nodup_middle.mp distinct
  rw [Link.first_append] at head
  exact ⟨head, front, back, (List.nodup_cons.mp parts).2, (List.nodup_cons.mp parts).1, within,
    prev, next, named⟩

/-- Taking a page off its list, once the rest of the list is strung together
without it. The pages of `mid` may have come in between. -/
theorem retire {xs ys : List Nat} {i : Nat} {between : Memory} (mid : List Nat)
    (chained : r.Chained m lists) (known : r.HasList list) (split : lists list = xs ++ i :: ys)
    (change : r.Relinks m between list (mid ++ (xs ++ ys)))
    (head : r.headOf list between = Link.first .nil (xs ++ (mid ++ ys)))
    (strung : r.Strung between list .nil .nil (xs ++ (mid ++ ys)))
    (distinct : (xs ++ (mid ++ ys)).Nodup) (gone : i ∉ xs ++ (mid ++ ys))
    (unlisted : ∀ j ∈ mid, ∀ other, r.HasList other → j ∉ lists other) :
    r.Relists m (r.putDescriptor i (r.descriptor i between).detached between) lists list
      (xs ++ (mid ++ ys)) := by
  have last : r.Relinks between (r.putDescriptor i (r.descriptor i between).detached between) list
      [i] := .putDescriptor i _ between list
  have touched : mid ++ (xs ++ ys) ++ [i] ⊆ lists list ++ (xs ++ (mid ++ ys)) := by
    intro j member
    rw [split]
    simp only [List.mem_append, List.mem_cons, List.not_mem_nil, or_false] at member ⊢
    tauto
  refine chained.restring known ((change.trans last).mono touched) ?_ ?_ distinct ?_ ?_
  · simp [known, head]
  · refine strung.congr fun j member => ?_
    have other : j ≠ i := fun same => gone (same ▸ member)
    simp [other]
  · intro j member old
    refine unlisted j ?_
    rw [split] at old
    simp only [List.mem_append, List.mem_cons] at member old
    tauto
  · intro j old outside
    have here : j = i := by
      rw [split] at old
      simp only [List.mem_append, List.mem_cons] at old outside
      tauto
    simp [here]

/-- Detaching a page takes it out of its list and leaves the others there in
their order. -/
theorem detach {xs ys : List Nat} {i : Nat} (chained : r.Chained m lists)
    (known : r.HasList list) (split : lists list = xs ++ i :: ys) :
    ∃ after, r.detach i m = .ok after ∧ r.Relists m after lists list (xs ++ ys) := by
  obtain ⟨head, front, back, distinct, fresh, within, prev, next, named⟩ :=
    chained.split known split
  obtain ⟨one, two, first, second, headTwo, frontTwo, backTwo, change⟩ :=
    rejoin_strung (Link.last .nil xs) (Link.first .nil ys) known head front back distinct
  have strung : r.Strung two list .nil .nil (xs ++ ys) := strung_append.mpr ⟨frontTwo, backTwo⟩
  rw [← Link.first_append] at headTwo
  refine ⟨_, ?_, chained.retire [] known split change headTwo strung distinct fresh nofun⟩
  rw [Region.detach, r.page_eq m within, ok_bind, Descriptor.list?, named, r.ofCode?_code known,
    prev, next]
  dsimp only
  rw [first, ok_bind, second, ok_bind]
  exact r.modifyPage_eq _ two within

/-- Substituting a page that is on no list for a listed one puts it into the
same place. -/
theorem substitute {xs ys : List Nat} {old new : Nat} (chained : r.Chained m lists)
    (known : r.HasList list) (split : lists list = xs ++ old :: ys) (within : new < r.pageCount)
    (unlisted : ∀ other, r.HasList other → new ∉ lists other) :
    ∃ after, r.substitute old new m = .ok after ∧
      r.Relists m after lists list (xs ++ new :: ys) := by
  obtain ⟨head, front, back, distinct, fresh, inside, prev, next, named⟩ :=
    chained.split known split
  have absent : new ∉ xs ++ ys ∧ new ≠ old := by
    have here := unlisted list known
    rw [split] at here
    constructor
    · intro member
      exact here (List.perm_middle.mem_iff.mpr (List.mem_cons_of_mem old member))
    · rintro rfl
      exact here (by simp)
  -- The new page is written first, with the links that the old one has.
  let e : Descriptor :=
    { r.descriptor new m with
      next := Link.first .nil ys, prev := Link.last .nil xs, list := list.code }
  let start := r.putDescriptor new e m
  have begin : r.Relinks m start list [new] := .putDescriptor new e m list
  have kept : ∀ j ∈ xs ++ ys, r.descriptor j start = r.descriptor j m := fun j member => by
    have other : j ≠ new := fun same => absent.1 (same ▸ member)
    simp [start, other]
  have headStart : r.headOf list start = Link.first (.page old) xs := by
    simp [start, known, head]
  obtain ⟨one, two, first, second, headTwo, frontTwo, backTwo, change⟩ :=
    rejoin_strung (.page new) (.page new) known headStart
      (front.congr fun j earlier => kept j (List.mem_append_left ys earlier))
      (back.congr fun j later => kept j (List.mem_append_right xs later)) distinct
  have placed : r.descriptor new two = e := by
    simp [change.page new absent.1, start]
  have strung : r.Strung two list .nil .nil (xs ++ new :: ys) := by
    refine strung_append.mpr ⟨frontTwo, ⟨within, ?_, ?_, ?_⟩, backTwo⟩ <;> rw [placed]
  have headNew : r.headOf list two = Link.first .nil (xs ++ new :: ys) := by
    rw [headTwo, Link.first_append]
    rfl
  have distinctNew : (xs ++ new :: ys).Nodup :=
    List.nodup_middle.mpr (List.nodup_cons.mpr ⟨absent.1, distinct⟩)
  have gone : old ∉ xs ++ new :: ys := by
    intro member
    rcases List.mem_cons.mp (List.perm_middle.mem_iff.mp member) with same | member
    · exact absent.2 same.symm
    · exact fresh member
  refine ⟨_, ?_, chained.retire [new] known split (begin.trans change) headNew strung
    distinctNew gone fun j member => ?_⟩
  · rw [Region.substitute, r.page_eq m inside, ok_bind, Descriptor.list?, named,
      r.ofCode?_code known, prev, next]
    dsimp only
    rw [linkTo_eq r within, ok_bind, r.modifyPage_eq _ m within, ok_bind, first, ok_bind, second,
      ok_bind]
    exact r.modifyPage_eq _ two inside
  · rw [List.mem_singleton.mp member]
    exact unlisted

end Chained

/-- A page that is on no list afterwards either dropped out or was on none before. -/
theorem Relists.off {new : List Nat} {i : Nat} (done : r.Relists m after lists list new)
    (known : r.HasList list)
    (unlisted : ∀ other, r.HasList other → i ∉ Function.update lists list new other) :
    (r.descriptor i after).Loose ∨
      (∀ other, r.HasList other → i ∉ lists other) ∧ r.descriptor i after = r.descriptor i m := by
  have here := unlisted list known
  rw [Function.update_self] at here
  by_cases old : i ∈ lists list
  · exact Or.inl (done.dropped i old here)
  · refine Or.inr ⟨fun other too => ?_, done.kept i old here⟩
    by_cases same : other = list
    · rwa [same]
    · have there := unlisted other too
      rwa [Function.update_of_ne same] at there

/-- Detaching a page that names no list changes nothing. -/
theorem detach_of_detached {i : Nat} (within : i < r.pageCount)
    (detached : (r.descriptor i m).list = PageList.detachedCode) : r.detach i m = .ok m := by
  simp [Region.detach, within, Descriptor.list?_of_detached detached]

namespace Linked

theorem chained (linked : r.Linked m lists) : r.Chained m lists :=
  ⟨linked.head, linked.strung, linked.distinct⟩

theorem relist {new : List Nat} (linked : r.Linked m lists) (known : r.HasList list)
    (done : r.Relists m after lists list new) :
    r.Linked after (Function.update lists list new) where
  head := done.chained.head
  strung := done.chained.strung
  distinct := done.chained.distinct
  loose i within unlisted := by
    obtain loose | ⟨before, same⟩ := done.off known unlisted
    · exact loose
    · rw [same]
      exact linked.loose i within before

theorem within (linked : r.Linked m lists) (known : r.HasList list) {i : Nat}
    (member : i ∈ lists list) : i < r.pageCount := linked.chained.within known member

theorem unique (linked : r.Linked m lists) {other : PageList} {i : Nat}
    (known : r.HasList list) (too : r.HasList other) (member : i ∈ lists list)
    (also : i ∈ lists other) : list = other := linked.chained.unique known too member also

theorem detached_iff (linked : r.Linked m lists) {i : Nat} (within : i < r.pageCount) :
    (r.descriptor i m).list = PageList.detachedCode ↔ ∀ list, r.HasList list → i ∉ lists list :=
  ⟨fun detached _ known => linked.chained.unlisted_of_detached detached known,
    fun unlisted => (linked.loose i within unlisted).2.2⟩

/-- The lists stay linked when no page changes its place. -/
theorem congr_place (linked : r.Linked m lists)
    (head : ∀ list, r.HasList list → r.headOf list after = r.headOf list m)
    (same : ∀ i < r.pageCount, (r.descriptor i after).SamePlace (r.descriptor i m)) :
    r.Linked after lists where
  head list known := (head list known).trans (linked.head list known)
  strung list known := (linked.strung list known).congr_place fun i member =>
    same i (linked.within known member)
  distinct := linked.distinct
  loose i within unlisted := (linked.loose i within unlisted).samePlace (same i within)

/-- Only the lists that the region has count. -/
theorem congr_lists {others : PageList → List Nat} (linked : r.Linked m lists)
    (same : ∀ list, r.HasList list → others list = lists list) : r.Linked m others where
  head list known := by rw [same list known, linked.head list known]
  strung list known := by
    rw [same list known]
    exact linked.strung list known
  distinct list known := by
    rw [same list known]
    exact linked.distinct list known
  loose i within unlisted := linked.loose i within fun list known => by
    rw [← same list known]
    exact unlisted list known

theorem pushFront {i : Nat} (linked : r.Linked m lists) (known : r.HasList list)
    (within : i < r.pageCount) (unlisted : ∀ other, r.HasList other → i ∉ lists other) :
    ∃ after, r.pushFront list i m = .ok after ∧
      r.Linked after (Function.update lists list (i :: lists list)) := by
  obtain ⟨after, run, done⟩ := linked.chained.pushFront known within unlisted
  exact ⟨after, run, linked.relist known done⟩

theorem detach {xs ys : List Nat} {i : Nat} (linked : r.Linked m lists)
    (known : r.HasList list) (split : lists list = xs ++ i :: ys) :
    ∃ after, r.detach i m = .ok after ∧
      r.Linked after (Function.update lists list (xs ++ ys)) := by
  obtain ⟨after, run, done⟩ := linked.chained.detach known split
  exact ⟨after, run, linked.relist known done⟩

/-- Detaching a page takes it off the list that it is on, if any. -/
theorem unlist {i : Nat} (linked : r.Linked m lists) (within : i < r.pageCount) :
    ∃ after, r.detach i m = .ok after ∧ r.Linked after fun list => (lists list).erase i := by
  by_cases listed : ∃ list, r.HasList list ∧ i ∈ lists list
  · obtain ⟨list, known, member⟩ := listed
    obtain ⟨xs, ys, split⟩ := List.append_of_mem member
    obtain ⟨after, run, linkedAfter⟩ := linked.detach known split
    refine ⟨after, run, linkedAfter.congr_lists fun other too => ?_⟩
    by_cases same : other = list
    · obtain ⟨_, _, _, _, fresh, _⟩ := linked.chained.split known split
      have before : i ∉ xs := fun earlier => fresh (List.mem_append_left ys earlier)
      rw [same, Function.update_self, split, List.erase_append_right _ before, List.erase_cons_head]
    · rw [Function.update_of_ne same]
      exact List.erase_of_not_mem fun also => same (linked.unique too known also member)
  · have unlisted : ∀ list, r.HasList list → i ∉ lists list :=
      fun list known member => listed ⟨list, known, member⟩
    exact ⟨m, detach_of_detached within (linked.loose i within unlisted).2.2,
      linked.congr_lists fun list known => List.erase_of_not_mem (unlisted list known)⟩

theorem substitute {xs ys : List Nat} {old new : Nat} (linked : r.Linked m lists)
    (known : r.HasList list) (split : lists list = xs ++ old :: ys) (within : new < r.pageCount)
    (unlisted : ∀ other, r.HasList other → new ∉ lists other) :
    ∃ after, r.substitute old new m = .ok after ∧
      r.Linked after (Function.update lists list (xs ++ new :: ys)) := by
  obtain ⟨after, run, done⟩ := linked.chained.substitute known split within unlisted
  exact ⟨after, run, linked.relist known done⟩

theorem length_le (linked : r.Linked m lists) (known : r.HasList list) :
    (lists list).length ≤ r.pageCount := linked.chained.length_le known

end Linked

theorem follow_end {link : Link} {fuel : Nat} (ends : link.target? = none) :
    r.follow m fuel link = .ok [] := by
  unfold follow
  rw [ends]

theorem follow_page {i fuel : Nat} (within : i < r.pageCount) :
    r.follow m (fuel + 1) (.page i) = (do
      let rest ← r.follow m fuel (r.descriptor i m).next
      return i :: rest) := by
  rw [follow.eq_def]
  simp [r.target?_page within, within]

theorem follow_strung {before : Link} {xs : List Nat} {fuel : Nat}
    (strung : r.Strung m list .nil before xs) (enough : xs.length ≤ fuel) :
    r.follow m fuel (Link.first .nil xs) = .ok xs := by
  -- On the pages of the chain; each one uses up one step of the fuel.
  induction xs generalizing before fuel with
  | nil => exact follow_end (by simp)
  | cons i rest ih =>
    obtain ⟨⟨within, _, next, _⟩, others⟩ := strung
    rw [List.length_cons] at enough
    obtain ⟨fuel, rfl⟩ := Nat.exists_eq_add_of_le' (show 1 ≤ fuel by omega)
    rw [Link.first, follow_page within, next, ih others (by omega)]
    rfl

/-- Walking a list visits its pages in their order and ends. -/
theorem Chained.members_eq (chained : r.Chained m lists) (known : r.HasList list) :
    r.members list m = .ok (lists list) := by
  simp only [members, known, head_eq, ok_bind, chained.head list known]
  exact follow_strung (chained.strung list known) (chained.length_le known)

theorem Linked.members_eq (linked : r.Linked m lists) (known : r.HasList list) :
    r.members list m = .ok (lists list) := linked.chained.members_eq known

/-- The first of some pages for which `accept` has an answer. The pages are
asked one after the other, each once. -/
def firstAccepted {β : Type} (accept : Nat → Except Fault (Option β)) :
    List Nat → Except Fault (Option (Nat × β))
  | [] => .ok none
  | i :: rest => do
    match ← accept i with
    | some answer => return some (i, answer)
    | none => firstAccepted accept rest

section Search

variable {β : Type} {accept : Nat → Except Fault (Option β)} {before : Link} {fuel : Nat}

theorem search_end {link : Link} (ends : link.target? = none) :
    r.search m accept fuel link = .ok none := by
  unfold search
  rw [ends]

theorem search_page {i : Nat} (within : i < r.pageCount) :
    r.search m accept (fuel + 1) (.page i) = (do
      match ← accept i with
      | some answer => return some (i, answer)
      | none => r.search m accept fuel (r.descriptor i m).next) := by
  rw [search.eq_def]
  dsimp only
  rw [r.target?_page within]
  exact congrArg (fun found => found >>= _) (r.page_eq m within)

theorem search_strung {xs : List Nat} (strung : r.Strung m list .nil before xs)
    (enough : xs.length ≤ fuel) :
    r.search m accept fuel (Link.first .nil xs) = firstAccepted accept xs := by
  induction xs generalizing before fuel with
  | nil => exact search_end (by simp)
  | cons i rest ih =>
    obtain ⟨⟨within, _, next, _⟩, others⟩ := strung
    rw [List.length_cons] at enough
    obtain ⟨fuel, rfl⟩ := Nat.exists_eq_add_of_le' (show 1 ≤ fuel by omega)
    rw [Link.first, search_page within, next, ih others (by omega)]
    rfl

theorem firstAccepted_none {xs : List Nat} (refused : ∀ i ∈ xs, accept i = .ok none) :
    firstAccepted accept xs = .ok none := by
  induction xs with
  | nil => rfl
  | cons i rest ih =>
    have others := ih fun j member => refused j (List.mem_cons_of_mem i member)
    simp [firstAccepted, refused i List.mem_cons_self, others]

theorem firstAccepted_some {xs ys : List Nat} {i : Nat} {answer : β}
    (refused : ∀ j ∈ xs, accept j = .ok none) (accepted : accept i = .ok (some answer)) :
    firstAccepted accept (xs ++ i :: ys) = .ok (some (i, answer)) := by
  induction xs with
  | nil =>
    rw [List.nil_append, firstAccepted, accepted]
    rfl
  | cons j rest ih =>
    have others := ih fun k member => refused k (List.mem_cons_of_mem j member)
    simp [firstAccepted, refused j List.mem_cons_self, others]

/-- A search of a list asks its pages in their order. -/
theorem Linked.searchList_eq (linked : r.Linked m lists) (known : r.HasList list) :
    r.searchList list m accept = firstAccepted accept (lists list) := by
  simp only [searchList, known, head_eq, ok_bind, linked.head list known]
  exact search_strung (linked.strung list known) (linked.length_le known)

theorem Linked.searchList_none (linked : r.Linked m lists) (known : r.HasList list)
    (refused : ∀ i ∈ lists list, accept i = .ok none) : r.searchList list m accept = .ok none := by
  rw [linked.searchList_eq known, firstAccepted_none refused]

/-- The search of a list stops at the first page that is accepted. -/
theorem Linked.searchList_some {xs ys : List Nat} {i : Nat} {answer : β}
    (linked : r.Linked m lists) (known : r.HasList list) (split : lists list = xs ++ i :: ys)
    (refused : ∀ j ∈ xs, accept j = .ok none) (accepted : accept i = .ok (some answer)) :
    r.searchList list m accept = .ok (some (i, answer)) := by
  rw [linked.searchList_eq known, split, firstAccepted_some refused accepted]

end Search

end Region

end SlabAllocator
