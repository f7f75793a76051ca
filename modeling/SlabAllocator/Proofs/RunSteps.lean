import SlabAllocator.Proofs.PageRuns

namespace SlabAllocator

namespace Region

variable {r : Region} {m after : Memory} {t : PageMap} {i n : Nat}

/-- Taking a page off its list, if it is on one, takes it off in the map. -/
theorem Shows.detach (shows_ : r.Shows m t) (within : i < r.pageCount) :
    ∃ after, r.detach i m = .ok after ∧ r.Shows after (t.unlist i) := by
  obtain ⟨after, run, linked⟩ := shows_.linked.unlist within
  exact ⟨after, run, shows_.relink (detach_links run) linked⟩

theorem Shows.pushFront {list : PageList} (shows_ : r.Shows m t) (known : r.HasList list)
    (within : i < r.pageCount) (unlisted : ∀ other, r.HasList other → i ∉ t.lists other) :
    ∃ after, r.pushFront list i m = .ok after ∧ r.Shows after (t.push list i) := by
  obtain ⟨after, run, linked⟩ := shows_.linked.pushFront known within unlisted
  exact ⟨after, run, shows_.relink (pushFront_links run) linked⟩

/-- Where a page either keeps its use or gets one without a row, the tables tell
what it is used for. -/
theorem Shows.reuse {u : PageMap} (shows_ : r.Shows m t) (tables : r.TablesOnly m after)
    (linked : r.Linked after u.lists)
    (pages : ∀ j < r.pageCount,
      (u.use j = t.use j ∧ (r.descriptor j after).detached = (r.descriptor j m).detached) ∨
        ((u.use j).row = [] ∧ (r.descriptor j after).detached = (u.use j).descriptor)) :
    r.Shows after u where
  linked := linked
  descriptor j within := by
    rcases pages j within with ⟨same, kept⟩ | ⟨_, written⟩
    · rw [kept, same, shows_.descriptor j within]
    · exact written
  row j within := by
    rw [tables.words_eq]
    rcases pages j within with ⟨same, _⟩ | ⟨none, _⟩
    · rw [same, shows_.row j within]
    · rw [none]
      rfl

/-- A listed page starts a free run, of which the descriptor holds the length. -/
theorem Shows.role_listed (shows_ : r.Shows m t) (sound : t.Sound r) (listed : i ∈ t.lists .free) :
    (r.descriptor i m).role = .free (t.use i).pages := by
  obtain ⟨within, k, _, run⟩ := (sound.free i).mp listed
  rw [shows_.role_eq within (sound.spelled within), run]
  rfl

theorem Shows.takeRun_none (shows_ : r.Shows m t) (sound : t.Sound r)
    (short : ∀ j ∈ t.lists .free, (t.use j).pages < n) : r.takeRun n m = .ok (none, m) :=
  shows_.linked.takeRun_none fun j listed => ⟨_, short j listed, shows_.role_listed sound listed⟩

/-- Pages are allocated from the first free run that is long enough. -/
theorem Shows.takeRun_some {xs ys : List Nat} (shows_ : r.Shows m t) (sound : t.Sound r)
    (split : t.lists .free = xs ++ i :: ys) (positive : 0 < n) (enough : n ≤ (t.use i).pages)
    (short : ∀ j ∈ xs, (t.use j).pages < n) :
    ∃ after, r.takeRun n m = .ok (some i, after) ∧ r.Shows after (t.takeRun xs i ys n) := by
  obtain ⟨within, k, _, run⟩ := sound.listed_free split
  have pages : (t.use i).pages = k := by rw [run, Use.pages]
  obtain ⟨after, ran, linked, first, inner, rest, others⟩ := shows_.linked.takeRun_some split
    (fun j later upper => (sound.later_free within run later (by omega)).2)
    (sound.tiled.fits i within) positive enough
    (shows_.role_listed sound (by rw [split]; simp))
    fun j member => ⟨_, short j member, shows_.role_listed sound (by rw [split]; simp [member])⟩
  refine ⟨after, ran, shows_.reuse (takeRun_tables ran) ?_ fun j inside => ?_⟩
  · rwa [PageMap.lists_takeRun, PageMap.lists_cutRun]
  have spare := shows_.spare_eq inside
  by_cases here : j = i
  · subst here
    rw [PageMap.use_takeRun_self, first, Use.asRun_eq n spare, (Use.loose_descriptor _).detached_eq]
    exact Or.inr ⟨rfl, rfl⟩
  by_cases taken : i < j ∧ j < i + n
  · rw [PageMap.use_takeRun_later taken.1 taken.2, inner j taken.1 taken.2, Use.asInterior_eq spare,
      (Use.loose_descriptor _).detached_eq]
    exact Or.inr ⟨rfl, rfl⟩
  rw [PageMap.use_takeRun_of_outside positive (by omega)]
  by_cases left : n < (t.use i).pages ∧ j = i + n
  · obtain ⟨left, rfl⟩ := left
    rw [PageMap.use_cutRun_rest left, rest left, Use.detached_asFreeRun _ spare]
    exact Or.inr ⟨rfl, rfl⟩
  · refine Or.inl ⟨?_, others j (by omega) left⟩
    by_cases next : j = i + n
    · rw [PageMap.use_cutRun_whole (by omega)]
    · exact PageMap.use_cutRun_of_ne next

/-- A segment goes back to the free runs, whatever its first page was used for. -/
theorem Shows.returnRun (shows_ : r.Shows m t) (positive : 0 < n) (reach : i + n ≤ r.pageCount)
    (quiet : ∀ j, i < j → j < i + n → ∀ list, r.HasList list → j ∉ t.lists list) :
    ∃ after, r.returnRun i n m = .ok after ∧ r.Shows after (t.returnRun i n) := by
  obtain ⟨after, ran, linked, first, inner, others⟩ :=
    shows_.linked.returnRun positive reach quiet
  refine ⟨after, ran, shows_.reuse (returnRun_tables ran) linked fun j inside => ?_⟩
  by_cases here : j = i
  · subst here
    rw [PageMap.use_returnRun_self, first, Use.detached_asFreeRun n (shows_.spare_eq inside)]
    exact Or.inr ⟨rfl, rfl⟩
  by_cases within : i < j ∧ j < i + n
  · rw [PageMap.use_returnRun_later within.1 within.2, inner j within.1 within.2]
    exact Or.inr ⟨rfl, rfl⟩
  · exact Or.inl ⟨PageMap.use_returnRun_of_outside here within, others j (by omega)⟩

end Region

end SlabAllocator
