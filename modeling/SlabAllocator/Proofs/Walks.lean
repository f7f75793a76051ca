import SlabAllocator.Proofs.WellFormed

namespace SlabAllocator

namespace Region

variable {r : Region} {m : Memory} {β : Type} {accept : Nat → Except Fault (Option β)}

/-- Walking the list visits these pages in this order, each of them once, and
ends; a search of the list asks them in that order. -/
structure Walks (r : Region) (m : Memory) (list : PageList) (pages : List Nat) : Prop where
  members : r.members list m = .ok pages
  distinct : pages.Nodup
  within : ∀ i ∈ pages, i < r.pageCount
  search : ∀ {β : Type} (accept : Nat → Except Fault (Option β)),
    r.searchList list m accept = firstAccepted accept pages

theorem search_zero {link : Link} {i : Nat} (target : link.target? = some i) :
    r.search m accept 0 link = .error .endlessWalk := by
  unfold search
  rw [target]

theorem search_succ {link : Link} {i fuel : Nat} (target : link.target? = some i) :
    r.search m accept (fuel + 1) link = (do
      let d ← r.page i m
      match ← accept i with
      | some answer => return some (i, answer)
      | none => r.search m accept fuel d.next) := by
  rw [search.eq_def]
  dsimp only
  rewrite [target]
  rfl

theorem page_ok {i : Nat} {d : Descriptor} (read : r.page i m = .ok d) : i < r.pageCount := by
  obtain ⟨_, inside, _⟩ := answer_of_bind read
  exact of_require inside

/-- A search that finds a page finds one that there is and that is accepted. -/
theorem search_found {fuel i : Nat} {link : Link} {answer : β}
    (found : r.search m accept fuel link = .ok (some (i, answer))) :
    i < r.pageCount ∧ accept i = .ok (some answer) := by
  induction fuel generalizing link with
  | zero =>
    cases target : link.target? with
    | none =>
      rw [search_end target] at found
      cases found
    | some j =>
      rw [search_zero target] at found
      cases found
  | succ fuel ih =>
    cases target : link.target? with
    | none =>
      rw [search_end target] at found
      cases found
    | some j =>
      rw [search_succ target] at found
      obtain ⟨d, read, found⟩ := answer_of_bind found
      obtain ⟨answered, accepted, found⟩ := answer_of_bind found
      cases answered with
      | none => exact ih found
      | some answer =>
        cases found
        exact ⟨page_ok read, accepted⟩

theorem searchList_found {list : PageList} {i : Nat} {answer : β}
    (found : r.searchList list m accept = .ok (some (i, answer))) :
    i < r.pageCount ∧ accept i = .ok (some answer) := by
  obtain ⟨_, _, found⟩ := answer_of_bind found
  exact search_found found

/-- The run that is taken starts at a page that there is. -/
theorem takeRun_within {n i : Nat} {after : Memory}
    (run : r.takeRun n m = .ok (some i, after)) : i < r.pageCount := by
  obtain ⟨found, searched, run⟩ := answer_of_bind run
  split at run
  · cases run
  · obtain ⟨_, _, run⟩ := answer_of_bind run
    obtain ⟨_, _, run⟩ := answer_of_bind run
    cases run
    exact (searchList_found searched).1

/-- Only what is answered for the pages that there are makes a difference to a
search. -/
theorem search_congr {other : Nat → Except Fault (Option β)} {fuel : Nat} {link : Link}
    (same : ∀ i < r.pageCount, accept i = other i) :
    r.search m accept fuel link = r.search m other fuel link := by
  induction fuel generalizing link with
  | zero =>
    cases target : link.target? with
    | none => rw [search_end target, search_end target]
    | some i => rw [search_zero target, search_zero target]
  | succ fuel ih =>
    cases target : link.target? with
    | none => rw [search_end target, search_end target]
    | some i =>
      rw [search_succ target, search_succ target]
      refine bind_congr_answer fun d read => ?_
      rw [same i (page_ok read)]
      refine bind_congr_answer fun answered _ => ?_
      cases answered with
      | none => exact ih
      | some answer => rfl

theorem searchList_congr {other : Nat → Except Fault (Option β)} {list : PageList}
    (same : ∀ i < r.pageCount, accept i = other i) :
    r.searchList list m accept = r.searchList list m other :=
  bind_congr_answer fun _ _ => search_congr same

/-- Where the lists are chains, each of them can be walked. -/
theorem Linked.walks {lists : PageList → List Nat} {list : PageList} (linked : r.Linked m lists)
    (known : r.HasList list) : r.Walks m list (lists list) where
  members := linked.members_eq known
  distinct := linked.distinct list known
  within _ := linked.within known
  search _ := linked.searchList_eq known

end Region

end SlabAllocator
