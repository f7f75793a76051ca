import SlabAllocator.Descriptor.Role
import SlabAllocator.Proofs.Frame
import SlabAllocator.Proofs.Linked

namespace SlabAllocator

namespace Region

/-- A list of free runs once the first `n` of the `k` pages at page `i` were
cut off the run between `xs` and `ys`. -/
def cutList (xs : List Nat) (i k n : Nat) (ys : List Nat) : List Nat :=
  xs ++ if n < k then (i + n) :: ys else ys

/-- The lists once page `i` left the one that it was on, if any, for the front
of the free runs. -/
def freedLists (lists : PageList → List Nat) (i : Nat) : PageList → List Nat :=
  Function.update (fun list => (lists list).erase i) .free (i :: (lists .free).erase i)

variable {r : Region} {m : Memory} {lists : PageList → List Nat} {xs ys : List Nat} {i j k n : Nat}

theorem mem_cutList : j ∈ cutList xs i k n ys ↔ (n < k ∧ j = i + n) ∨ j ∈ xs ++ ys := by
  unfold cutList
  split
  · rename_i left
    rw [List.perm_middle.mem_iff, List.mem_cons, and_iff_right left]
  · rename_i whole
    exact (or_iff_right fun both => whole both.1).symm

theorem mem_freedLists_of_ne {list : PageList} (other : j ≠ i) :
    j ∈ freedLists lists i list ↔ j ∈ lists list := by
  unfold freedLists
  by_cases same : list = .free
  · rw [same, Function.update_self, List.mem_cons, List.mem_erase_of_ne other]
    exact or_iff_right other
  · rw [Function.update_of_ne same, List.mem_erase_of_ne other]

/-- Changing one descriptor after the other changes those and no other. -/
theorem modifyPages_eq (change : Descriptor → Descriptor) {count : Nat} (m : Memory)
    (within : i + count ≤ r.pageCount) :
    ∃ after, r.modifyPages i change count m = .ok after ∧
      (∀ list, r.HasList list → r.headOf list after = r.headOf list m) ∧
      ∀ j, r.descriptor j after =
        if i ≤ j ∧ j < i + count then change (r.descriptor j m) else r.descriptor j m := by
  induction count generalizing i m with
  | zero =>
    refine ⟨m, rfl, fun _ _ => rfl, fun j => ?_⟩
    rw [if_neg (by omega)]
  | succ count ih =>
    have run := r.modifyPage_eq change m (show i < r.pageCount by omega)
    obtain ⟨after, ran, heads, pages⟩ := ih (i := i + 1)
      (r.putDescriptor i (change (r.descriptor i m)) m) (by omega)
    refine ⟨after, by rw [modifyPages, run, ok_bind, ran], fun list known => ?_, fun j => ?_⟩
    · simp [heads list known, known]
    · rw [pages j, descriptor_putDescriptor]
      by_cases here : j = i
      · subst here
        rw [if_neg (by omega), if_pos rfl, if_pos (by omega)]
      · rw [if_neg here]
        by_cases inside : i + 1 ≤ j ∧ j < i + 1 + count
        · rw [if_pos inside, if_pos (by omega)]
        · rw [if_neg inside, if_neg (by omega)]

theorem freeRun?_eq (within : i < r.pageCount) (role : (r.descriptor i m).role = .free k) :
    r.freeRun? m n i = .ok (if n ≤ k then some k else none) := by
  simp only [freeRun?, within, page_eq, ok_bind, role]
  split <;> rfl

/-- Where every free run is too short, none of them is taken from. -/
theorem Linked.takeRun_none (linked : r.Linked m lists)
    (short : ∀ j ∈ lists .free, ∃ k < n, (r.descriptor j m).role = .free k) :
    r.takeRun n m = .ok (none, m) := by
  have refused : ∀ j ∈ lists .free, r.freeRun? m n j = .ok none := by
    intro j listed
    obtain ⟨k, less, role⟩ := short j listed
    rw [freeRun?_eq (linked.within r.hasList_free listed) role, if_neg (by omega)]
  rw [Region.takeRun, linked.searchList_none r.hasList_free refused]
  rfl

/-- Pages that are on no list become an allocated run. -/
theorem Linked.markRun (linked : r.Linked m lists) (positive : 1 ≤ n) (reach : i + n ≤ r.pageCount)
    (unlisted : ∀ j, i ≤ j → j < i + n → ∀ list, r.HasList list → j ∉ lists list) :
    ∃ after, r.markRun i n m = .ok after ∧ r.Linked after lists ∧
      r.descriptor i after = (r.descriptor i m).asRun n ∧
      (∀ j, i < j → j < i + n → r.descriptor j after = (r.descriptor j m).asInterior) ∧
      ∀ j, ¬(i ≤ j ∧ j < i + n) → r.descriptor j after = r.descriptor j m := by
  have within : i < r.pageCount := by omega
  have first := r.modifyPage_eq (fun d => d.asRun n) m within
  obtain ⟨after, second, heads, pages⟩ := r.modifyPages_eq Descriptor.asInterior
    (r.putDescriptor i ((r.descriptor i m).asRun n) m)
    (show i + 1 + (n - 1) ≤ r.pageCount by omega)
  simp only [descriptor_putDescriptor] at pages
  have one : r.descriptor i after = (r.descriptor i m).asRun n := by
    rw [pages i, if_neg (by omega), if_pos rfl]
  have inner : ∀ j, i < j → j < i + n →
      r.descriptor j after = (r.descriptor j m).asInterior := fun j later upper => by
    rw [pages j, if_pos (by omega), if_neg (by omega)]
  have others : ∀ j, ¬(i ≤ j ∧ j < i + n) → r.descriptor j after = r.descriptor j m :=
    fun j outside => by rw [pages j, if_neg (by omega), if_neg (by omega)]
  refine ⟨after, ?_, ?_, one, inner, others⟩
  · rw [Region.markRun, first, ok_bind, require_of ⟨positive, reach⟩, ok_bind, second]
  · -- Both marks detach the page, and each of these pages is loose as it is.
    refine linked.congr_place (fun list known => ?_) fun j inside => ?_
    · simp [heads list known, known]
    · by_cases here : i ≤ j ∧ j < i + n
      · have loose := linked.loose j inside (unlisted j here.1 here.2)
        rcases Nat.eq_or_lt_of_le here.1 with rfl | later
        · rw [one]
          exact ⟨loose.1.symm, loose.2.1.symm, loose.2.2.symm⟩
        · rw [inner j later here.2]
          exact ⟨loose.1.symm, loose.2.1.symm, loose.2.2.symm⟩
      · rw [others j here]
        exact ⟨rfl, rfl, rfl⟩

section Cutting

variable (linked : r.Linked m lists) (split : lists .free = xs ++ i :: ys)
  (apart : ∀ j, i < j → j < i + k → ∀ list, r.HasList list → j ∉ lists list)
include linked split apart

/-- The pages of a listed run are on no list apart from its first one. -/
theorem Linked.quiet_of_split (lower : i ≤ j) (upper : j < i + k) :
    j ∉ xs ++ ys ∧ ∀ list, r.HasList list → list ≠ .free → j ∉ lists list := by
  obtain ⟨_, _, _, _, fresh, within, _⟩ := linked.chained.split r.hasList_free split
  rcases Nat.eq_or_lt_of_le lower with rfl | later
  · exact ⟨fresh, fun list known other member => other
      (linked.unique known trivial member (by rw [split]; simp))⟩
  · have unlisted := apart j later upper
    refine ⟨fun member => unlisted .free trivial ?_, fun list known _ => unlisted list known⟩
    rw [split]
    exact List.perm_middle.mem_iff.mpr (List.mem_cons_of_mem i member)

/-- Once pages were cut off a free run, the only page of it that is on a list is
the first one of what is left. -/
theorem Linked.unlisted_cutList (lower : i ≤ j) (upper : j < i + k) (other : ¬(n < k ∧ j = i + n))
    (list : PageList) (known : r.HasList list) :
    j ∉ Function.update lists .free (cutList xs i k n ys) list := by
  obtain ⟨free, others⟩ := linked.quiet_of_split split apart lower upper
  by_cases same : list = .free
  · rw [same, Function.update_self, mem_cutList]
    exact not_or.mpr ⟨other, free⟩
  · rw [Function.update_of_ne same]
    exact others list known same

/-- Cutting pages off the front of a free run leaves the rest of it in its
place. -/
theorem Linked.cutRun (fits : i + k ≤ r.pageCount) (positive : 1 ≤ n) :
    ∃ after, r.cutRun i k n m = .ok after ∧
      r.Linked after (Function.update lists .free (cutList xs i k n ys)) ∧
      (n < k → (r.descriptor (i + n) after).detached =
        ((r.descriptor (i + n) m).asFreeRun (k - n)).detached) ∧
      ∀ j, ¬(n < k ∧ j = i + n) →
        (r.descriptor j after).detached = (r.descriptor j m).detached := by
  unfold Region.cutRun cutList
  by_cases left : n < k
  · have inside : i + n < r.pageCount := by omega
    let one := r.putDescriptor (i + n) ((r.descriptor (i + n) m).asFreeRun (k - n)) m
    have first : r.modifyPage (i + n) (fun d => d.asFreeRun (k - n)) m = .ok one :=
      r.modifyPage_eq _ m inside
    -- The new head of the run keeps its place, which is on no list, until it is substituted.
    have kept : r.Linked one lists := by
      refine linked.congr_place (fun list known => r.headOf_putDescriptor _ m known) fun j _ => ?_
      rw [descriptor_putDescriptor]
      split
      · rename_i same
        rw [same]
        exact ⟨rfl, rfl, rfl⟩
      · exact ⟨rfl, rfl, rfl⟩
    obtain ⟨after, second, done⟩ := kept.substitute r.hasList_free split inside
      (apart (i + n) (by omega) (by omega))
    obtain ⟨_, links⟩ := substitute_links second
    rw [if_pos left, if_pos left]
    refine ⟨after, by simp [first, second], done, fun _ => ?_, fun j other => ?_⟩
    · simp [links (i + n), one]
    · rw [links j, r.descriptor_putDescriptor_of_ne _ m (by omega)]
  · obtain ⟨after, run, done⟩ := linked.detach r.hasList_free split
    obtain ⟨_, links⟩ := detach_links run
    rw [if_neg left, if_neg left]
    exact ⟨after, run, done, fun more => absurd more left, fun j _ => links j⟩

/-- Pages are allocated from the first free run that is long enough. -/
theorem Linked.takeRun_some (fits : i + k ≤ r.pageCount) (positive : 1 ≤ n) (enough : n ≤ k)
    (role : (r.descriptor i m).role = .free k)
    (short : ∀ j ∈ xs, ∃ k < n, (r.descriptor j m).role = .free k) :
    ∃ after, r.takeRun n m = .ok (some i, after) ∧
      r.Linked after (Function.update lists .free (cutList xs i k n ys)) ∧
      r.descriptor i after = (r.descriptor i m).asRun n ∧
      (∀ j, i < j → j < i + n → r.descriptor j after = (r.descriptor j m).asInterior) ∧
      (n < k → (r.descriptor (i + n) after).detached =
        ((r.descriptor (i + n) m).asFreeRun (k - n)).detached) ∧
      ∀ j, ¬(i ≤ j ∧ j < i + n) → ¬(n < k ∧ j = i + n) →
        (r.descriptor j after).detached = (r.descriptor j m).detached := by
  have refused : ∀ j ∈ xs, r.freeRun? m n j = .ok none := by
    intro j member
    obtain ⟨l, less, free⟩ := short j member
    have listed : j ∈ lists .free := by rw [split]; simp [member]
    rw [freeRun?_eq (linked.within r.hasList_free listed) free, if_neg (by omega)]
  have accepted : r.freeRun? m n i = .ok (some k) := by
    rw [freeRun?_eq (by omega) role, if_pos enough]
  obtain ⟨one, first, between, rest, others⟩ := linked.cutRun split apart fits positive
  -- Cut off the run, the pages are on no list, so their descriptors may be written as a whole.
  obtain ⟨after, second, done, run, interior, beside⟩ := between.markRun positive (by omega)
    fun j lower upper => linked.unlisted_cutList split apart lower (by omega) (by omega)
  refine ⟨after, ?_, done, ?_, fun j later upper => ?_, fun left => ?_, fun j outside other => ?_⟩
  · simp [Region.takeRun, linked.searchList_some r.hasList_free split refused accepted, first,
      second]
  · rw [run]
    exact congrArg (fun d => d.asRun n) (others i (by omega))
  · rw [interior j later upper]
    exact congrArg (fun d => d.asInterior) (others j (by omega))
  · rw [beside _ (by omega), rest left]
  · rw [beside j outside, others j other]

end Cutting

/-- A segment of pages goes back to the front of the free runs, off whatever
list its first page was on. -/
theorem Linked.returnRun (linked : r.Linked m lists) (positive : 1 ≤ n) (reach : i + n ≤ r.pageCount)
    (quiet : ∀ j, i < j → j < i + n → ∀ list, r.HasList list → j ∉ lists list) :
    ∃ after, r.returnRun i n m = .ok after ∧ r.Linked after (freedLists lists i) ∧
      (r.descriptor i after).detached = ((r.descriptor i m).asFreeRun n).detached ∧
      (∀ j, i < j → j < i + n → r.descriptor j after = .blank) ∧
      ∀ j, ¬(i ≤ j ∧ j < i + n) →
        (r.descriptor j after).detached = (r.descriptor j m).detached := by
  have within : i < r.pageCount := by omega
  obtain ⟨one, first, linkedOne⟩ := linked.unlist within
  obtain ⟨_, linksOne⟩ := detach_links first
  have quietOne : ∀ j, i < j → j < i + n → ∀ list, r.HasList list → j ∉ (lists list).erase i :=
    fun j lower upper list known member => quiet j lower upper list known (List.mem_of_mem_erase member)
  have gone : ∀ list, r.HasList list → i ∉ (lists list).erase i := fun list known =>
    (linked.distinct list known).not_mem_erase
  obtain ⟨two, second, heads, pages⟩ := r.modifyPages_eq (fun _ => .blank) one
    (show i + 1 + (n - 1) ≤ r.pageCount by omega)
  let three := r.putDescriptor i ((r.descriptor i two).asFreeRun n) two
  have third : r.modifyPage i (fun d => d.asFreeRun n) two = .ok three := r.modifyPage_eq _ two within
  -- The pages written to are on no list by now; the descriptor of the first one keeps its place.
  have linkedThree : r.Linked three fun list => (lists list).erase i := by
    refine linkedOne.congr_place (fun list known => ?_) fun j inside => ?_
    · simp [three, known, heads list known]
    · rw [descriptor_putDescriptor]
      by_cases here : j = i
      · rw [if_pos here, ← here, pages j, if_neg (by omega)]
        exact ⟨rfl, rfl, rfl⟩
      · rw [if_neg here, pages j]
        split
        · have loose := linkedOne.loose j inside (quietOne j (by omega) (by omega))
          exact ⟨loose.1.symm, loose.2.1.symm, loose.2.2.symm⟩
        · exact ⟨rfl, rfl, rfl⟩
  obtain ⟨after, fourth, done⟩ := linkedThree.pushFront r.hasList_free within gone
  obtain ⟨_, linksFour⟩ := pushFront_links fourth
  have written : ∀ j, (r.descriptor j after).detached = (r.descriptor j three).detached := linksFour
  refine ⟨after, ?_, done, ?_, fun j later upper => ?_, fun j outside => ?_⟩
  · rw [Region.returnRun, first, ok_bind, require_of ⟨positive, by omega⟩, ok_bind, second, ok_bind,
      third, ok_bind, fourth]
  · rw [written i, descriptor_putDescriptor_self, pages i, if_neg (by omega)]
    exact congrArg (fun d => (d.asFreeRun n).detached) (linksOne i)
  · have loose := done.loose j (by omega) fun list known member =>
      quiet j later upper list known ((mem_freedLists_of_ne (by omega)).mp member)
    rw [← loose.detached_eq, written j, r.descriptor_putDescriptor_of_ne _ two (by omega), pages j,
      if_pos (by omega)]
    rfl
  · rw [written j, r.descriptor_putDescriptor_of_ne _ two (by omega), pages j, if_neg (by omega),
      linksOne j]

end Region

end SlabAllocator
