import SlabAllocator.Proofs.Frame
import SlabAllocator.Proofs.History

namespace SlabAllocator

namespace Region

/-- Every list of the region is a chain of pages, and a page that is on none of
them names no list. Where the links of such a page lead does not matter. -/
structure Threaded (r : Region) (m : Memory) (lists : PageList → List Nat) : Prop
    extends r.Chained m lists where
  off : ∀ i < r.pageCount, (∀ list, r.HasList list → i ∉ lists list) →
    (r.descriptor i m).list = PageList.detachedCode

/-- A page of the region that names no list. -/
def Detached (r : Region) (m : Memory) (i : Nat) : Prop :=
  i < r.pageCount ∧ (r.descriptor i m).list = PageList.detachedCode

instance (r : Region) (m : Memory) (i : Nat) : Decidable (r.Detached m i) :=
  inferInstanceAs (Decidable (_ ∧ _))

/-- An edit of the lists left these sequences behind and nothing else changed:
neither the words and kinds of the pages, nor a page that was on no list and is on
none, nor a byte outside the tables. -/
structure Edits (r : Region) (m after : Memory) (lists : PageList → List Nat) : Prop where
  threaded : r.Threaded after lists
  members : ∀ list, r.HasList list → r.members list after = .ok (lists list)
  unlisted : ∀ j, (∀ list, r.HasList list → j ∉ lists list) →
    (r.descriptor j after).Loose ∨ r.descriptor j after = r.descriptor j m
  word : ∀ j, (r.descriptor j after).word = (r.descriptor j m).word
  kind : ∀ j, (r.descriptor j after).kind = (r.descriptor j m).kind
  tables : r.TablesOnly m after

/-- The lists of a region answer as disjoint sequences of pages do. -/
structure ActsAsSequences (r : Region) (m : Memory) (lists : PageList → List Nat) : Prop where
  members : ∀ list, r.HasList list → r.members list m = .ok (lists list)
  disjoint : ∀ list other, r.HasList list → r.HasList other → list ≠ other →
    (lists list).Disjoint (lists other)
  pushFront : ∀ list i, r.HasList list → r.Detached m i →
    ∃ after, r.pushFront list i m = .ok after ∧
      r.Edits m after (Function.update lists list (i :: lists list))
  detach : ∀ list i, r.HasList list → i ∈ lists list →
    ∃ after, r.detach i m = .ok after ∧ (r.descriptor i after).Loose ∧
      r.Edits m after (Function.update lists list ((lists list).erase i))
  detach_detached : ∀ i, r.Detached m i → r.detach i m = .ok m
  substitute : ∀ list old new, r.HasList list → old ∈ lists list → r.Detached m new →
    ∃ after, r.substitute old new m = .ok after ∧ (r.descriptor old after).Loose ∧
      r.Edits m after (Function.update lists list ((lists list).replace old new))

/-- Where a sequence of edits leads from a memory with certain lists: the memory
and the lists afterwards. Each edit is one that the lists allow at that point. -/
inductive Edited (r : Region) (m : Memory) (lists : PageList → List Nat) :
    Memory → (PageList → List Nat) → Prop
  | start : Edited r m lists m lists
  | pushFront {s after : Memory} {now : PageList → List Nat} {list : PageList} {i : Nat}
      (soFar : Edited r m lists s now) (known : r.HasList list) (detached : r.Detached s i)
      (run : r.pushFront list i s = .ok after) :
      Edited r m lists after (Function.update now list (i :: now list))
  | detach {s after : Memory} {now : PageList → List Nat} {list : PageList} {i : Nat}
      (soFar : Edited r m lists s now) (known : r.HasList list) (member : i ∈ now list)
      (run : r.detach i s = .ok after) :
      Edited r m lists after (Function.update now list ((now list).erase i))
  | substitute {s after : Memory} {now : PageList → List Nat} {list : PageList} {old new : Nat}
      (soFar : Edited r m lists s now) (known : r.HasList list) (member : old ∈ now list)
      (detached : r.Detached s new) (run : r.substitute old new s = .ok after) :
      Edited r m lists after (Function.update now list ((now list).replace old new))

variable {r : Region} {m after last : Memory} {lists others : PageList → List Nat}
  {list : PageList} {i : Nat}

theorem Linked.threaded (linked : r.Linked m lists) : r.Threaded m lists :=
  ⟨linked.chained, fun i within unlisted => (linked.loose i within unlisted).2.2⟩

namespace Edits

theorem refl (threaded : r.Threaded m lists) : r.Edits m m lists :=
  ⟨threaded, fun _ known => threaded.members_eq known, fun _ _ => Or.inr rfl, fun _ => rfl,
    fun _ => rfl, .refl m⟩

theorem trans (one : r.Edits m after lists) (two : r.Edits after last others) :
    r.Edits m last others where
  threaded := two.threaded
  members := two.members
  unlisted j off := by
    obtain loose | same := two.unlisted j off
    · exact Or.inl loose
    · rw [same]
      refine one.unlisted j fun list known member => ?_
      have detached := two.threaded.off j (one.threaded.within known member) off
      rw [same] at detached
      exact one.threaded.unlisted_of_detached detached known member
  word j := (two.word j).trans (one.word j)
  kind j := (two.kind j).trans (one.kind j)
  tables := one.tables.trans two.tables

theorem and_then {step : Except Fault Memory} (one : r.Edits m after lists)
    (run : step = .ok last) (edits : ∃ found, step = .ok found ∧ r.Edits after found others) :
    r.Edits m last others := by
  obtain ⟨found, ran, two⟩ := edits
  rw [run] at ran
  cases ran
  exact one.trans two

/-- Where the pages on no list were loose, they are loose afterwards. -/
theorem linked (edits : r.Edits m after others) (linked : r.Linked m lists) :
    r.Linked after others where
  head := edits.threaded.head
  strung := edits.threaded.strung
  distinct := edits.threaded.distinct
  loose j within off := by
    obtain loose | same := edits.unlisted j off
    · exact loose
    · have detached := edits.threaded.off j within off
      rw [same] at detached ⊢
      exact linked.loose j within ((linked.detached_iff within).mp detached)

end Edits

namespace Threaded

theorem unlisted (threaded : r.Threaded m lists) (detached : r.Detached m i) :
    ∀ list, r.HasList list → i ∉ lists list :=
  fun _ known => threaded.unlisted_of_detached detached.2 known

/-- Where a list was strung together anew by changes of links alone, the lists were
edited. -/
theorem edits {new : List Nat} (threaded : r.Threaded m lists) (known : r.HasList list)
    (done : r.Relists m after lists list new) (links : r.LinksOnly m after) :
    r.Edits m after (Function.update lists list new) where
  threaded := by
    refine ⟨done.chained, fun i within unlisted => ?_⟩
    obtain loose | ⟨before, same⟩ := done.off known unlisted
    · exact loose.2.2
    · rw [same]
      exact threaded.off i within before
  members _ known := done.chained.members_eq known
  unlisted i unlisted := (done.off known unlisted).imp_right fun kept => kept.2
  word j := (congrArg Descriptor.word (links.2 j) :)
  kind j := (congrArg Descriptor.kind (links.2 j) :)
  tables := links.1

/-- What a listed page is between, with its list as the erasure and the
replacement of the page have it. -/
theorem split (threaded : r.Threaded m lists) (known : r.HasList list) (member : i ∈ lists list) :
    ∃ xs ys, lists list = xs ++ i :: ys ∧ i ∉ xs ++ ys ∧ (lists list).erase i = xs ++ ys ∧
      ∀ new, (lists list).replace i new = xs ++ new :: ys := by
  obtain ⟨xs, ys, split⟩ := List.append_of_mem member
  obtain ⟨_, _, _, _, fresh, _⟩ := threaded.toChained.split known split
  have before : i ∉ xs := fun earlier => fresh (List.mem_append_left ys earlier)
  refine ⟨xs, ys, split, fresh, ?_, fun new => ?_⟩
  · rw [split, List.erase_append_right _ before, List.erase_cons_head]
  · rw [split, List.replace_append_right before, List.replace_cons_self]

theorem pushFront (threaded : r.Threaded m lists) (known : r.HasList list)
    (detached : r.Detached m i) :
    ∃ after, r.pushFront list i m = .ok after ∧
      r.Edits m after (Function.update lists list (i :: lists list)) := by
  obtain ⟨after, run, done⟩ :=
    threaded.toChained.pushFront known detached.1 (threaded.unlisted detached)
  exact ⟨after, run, threaded.edits known done (pushFront_links run)⟩

theorem detach (threaded : r.Threaded m lists) (known : r.HasList list)
    (member : i ∈ lists list) :
    ∃ after, r.detach i m = .ok after ∧ (r.descriptor i after).Loose ∧
      r.Edits m after (Function.update lists list ((lists list).erase i)) := by
  obtain ⟨xs, ys, split, fresh, erased, _⟩ := threaded.split known member
  obtain ⟨after, run, done⟩ := threaded.toChained.detach known split
  rw [erased]
  exact ⟨after, run, done.dropped i member fresh,
    threaded.edits known done (detach_links run)⟩

theorem substitute {old new : Nat} (threaded : r.Threaded m lists) (known : r.HasList list)
    (member : old ∈ lists list) (detached : r.Detached m new) :
    ∃ after, r.substitute old new m = .ok after ∧ (r.descriptor old after).Loose ∧
      r.Edits m after (Function.update lists list ((lists list).replace old new)) := by
  have absent := threaded.unlisted detached
  obtain ⟨xs, ys, split, fresh, _, replaced⟩ := threaded.split known member
  obtain ⟨after, run, done⟩ := threaded.toChained.substitute known split detached.1 absent
  have gone : old ∉ xs ++ new :: ys := by
    intro here
    rcases List.mem_cons.mp (List.perm_middle.mem_iff.mp here) with same | here
    · exact absent list known (same ▸ member)
    · exact fresh here
  rw [replaced]
  exact ⟨after, run, done.dropped old member gone,
    threaded.edits known done (substitute_links run)⟩

theorem actsAsSequences (threaded : r.Threaded m lists) : r.ActsAsSequences m lists where
  members _ known := threaded.members_eq known
  disjoint _ _ known too different _ member also :=
    different (threaded.unique known too member also)
  pushFront _ _ known detached := threaded.pushFront known detached
  detach _ _ known member := threaded.detach known member
  detach_detached _ detached := detach_of_detached detached.1 detached.2
  substitute _ _ _ known member detached := threaded.substitute known member detached

/-- What one edit leaves behind, the next one finds. -/
theorem edited (threaded : r.Threaded m lists) (edited : r.Edited m lists after others) :
    r.Edits m after others := by
  induction edited with
  | start => exact .refl threaded
  | pushFront _ known detached run ih =>
    exact ih.and_then run (ih.threaded.pushFront known detached)
  | detach _ known member run ih =>
    obtain ⟨found, ran, _, edits⟩ := ih.threaded.detach known member
    exact ih.and_then run ⟨found, ran, edits⟩
  | substitute _ known member detached run ih =>
    obtain ⟨found, ran, _, edits⟩ := ih.threaded.substitute known member detached
    exact ih.and_then run ⟨found, ran, edits⟩

/-- The linked lists of a region are disjoint sequences of pages. Every edit does
to the chains what it does to the sequences, wherever in its list the page stands,
and it leaves the other lists, the words and the kinds as they are. The same then
holds after any number of edits, and the pages on no list are loose if they were. -/
theorem implements_sequences (threaded : r.Threaded m lists) :
    r.ActsAsSequences m lists ∧ ∀ after others, r.Edited m lists after others →
      r.Edits m after others ∧ r.ActsAsSequences after others ∧
        (r.Linked m lists → r.Linked after others) := by
  refine ⟨threaded.actsAsSequences, fun after others edited => ?_⟩
  have edits := threaded.edited edited
  exact ⟨edits, edits.threaded.actsAsSequences, edits.linked⟩

end Threaded

/-- A free run of two pages comes to be listed by its second page, and the list of
the page with chunks stays. -/
theorem implements_sequences_second_page : ∃ (pool : Pool) (s : PoolState) (after : Memory),
    pool.region.members .free s.memory = .ok [1] ∧
      pool.region.members (.slot 0) s.memory = .ok [0] ∧
      pool.region.substitute 1 2 s.memory = .ok after ∧
      pool.region.members .free after = .ok [2] ∧
      pool.region.members (.slot 0) after = .ok [0] := by
  obtain ⟨pool, m, s, created, ran, seen⟩ := of_trial 4096 4096
    [.allocate 5, .allocate 1500, .release 6144] (fun pool s => do
      let free ← pool.region.members .free s.memory
      let small ← pool.region.members (.slot 0) s.memory
      let fits := pool.region.HasList (.slot 0) ∧ pool.region.Detached s.memory 2
      return (free, small, decide fits))
    ([1], [0], true) (by decide +kernel)
  have reached := reachable_trial created ran (by simp [Call.Allowed])
  obtain ⟨free, freeRun, seen⟩ := answer_of_bind seen
  obtain ⟨small, smallRun, seen⟩ := answer_of_bind seen
  obtain ⟨rfl, rfl, fits⟩ : free = [1] ∧ small = [0] ∧ _ := by
    simpa only [pure_eq_ok, Except.ok.injEq, Prod.mk.injEq, decide_eq_true_eq] using seen
  obtain ⟨known, detached⟩ := fits
  obtain ⟨t, shown⟩ := reached.invariant.shown
  have acts := shown.shows_.linked.threaded.implements_sequences.1
  have hasFree : pool.region.HasList .free := pool.region.hasList_free
  have free : t.lists .free = [1] := Except.ok.inj ((acts.members _ hasFree).symm.trans freeRun)
  have small : t.lists (.slot 0) = [0] := Except.ok.inj ((acts.members _ known).symm.trans smallRun)
  obtain ⟨after, run, _, edits⟩ :=
    acts.substitute .free 1 2 hasFree (by rw [free]; exact List.mem_singleton_self 1) detached
  refine ⟨pool, s, after, freeRun, smallRun, run, ?_, ?_⟩
  · rw [edits.members _ hasFree, Function.update_self, free]
    rfl
  · rw [edits.members _ known, Function.update_of_ne (by simp), small]

end Region

end SlabAllocator
