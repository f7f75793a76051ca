import Mathlib.Data.List.Basic
import Mathlib.Data.List.Nodup
import Mathlib.Logic.Function.Basic
import SlabAllocator.Region.Chain
import SlabAllocator.Region.Tables

namespace SlabAllocator

namespace Descriptor

/-- A page that is on no list: both links lead nowhere and no list is named. -/
def Loose (d : Descriptor) : Prop :=
  d.next = .nil ∧ d.prev = .nil ∧ d.list = PageList.detachedCode

def SamePlace (d e : Descriptor) : Prop := d.next = e.next ∧ d.prev = e.prev ∧ d.list = e.list

@[simp] theorem loose_detached (d : Descriptor) : d.detached.Loose := ⟨rfl, rfl, rfl⟩

/-- A loose descriptor is told by what it says of its page. -/
theorem Loose.detached_eq {d : Descriptor} (loose : d.Loose) : d.detached = d := by
  obtain ⟨word, next, prev, kind, list, spare⟩ := d
  obtain ⟨rfl, rfl, rfl⟩ := loose
  rfl

/-- A descriptor is what it says of its page and its place in the lists. -/
theorem eq_of_samePlace {d e : Descriptor} (same : d.detached = e.detached)
    (place : d.SamePlace e) : d = e := by
  obtain ⟨word, next, prev, kind, list, spare⟩ := d
  obtain ⟨_, _, _, _, _, _⟩ := e
  obtain ⟨rfl, rfl, rfl⟩ := place
  cases same
  rfl

theorem Loose.samePlace {d e : Descriptor} (loose : d.Loose) (same : e.SamePlace d) : e.Loose :=
  ⟨same.1.trans loose.1, same.2.1.trans loose.2.1, same.2.2.trans loose.2.2⟩

end Descriptor

namespace Link

/-- The link to the first of some pages, or to what stands behind them when
there are none. -/
def first (behind : Link) : List Nat → Link
  | [] => behind
  | i :: _ => page i

/-- The link to the last of some pages, or to what stands before them when
there are none. -/
def last (before : Link) : List Nat → Link
  | [] => before
  | i :: rest => last (page i) rest

@[simp] theorem first_nil (behind : Link) : first behind [] = behind := rfl

@[simp] theorem first_cons (behind : Link) (i : Nat) (rest : List Nat) :
    first behind (i :: rest) = page i := rfl

@[simp] theorem last_nil (before : Link) : last before [] = before := rfl

@[simp] theorem last_cons (before : Link) (i : Nat) (rest : List Nat) :
    last before (i :: rest) = last (page i) rest := rfl

@[simp] theorem first_append (behind : Link) (xs ys : List Nat) :
    first behind (xs ++ ys) = first (first behind ys) xs := by
  cases xs <;> rfl

@[simp] theorem last_append (before : Link) (xs ys : List Nat) :
    last before (xs ++ ys) = last (last before xs) ys := by
  induction xs generalizing before with
  | nil => rfl
  | cons i rest ih => exact ih (page i)

end Link

namespace Region

variable (r : Region)

theorem target?_page {i : Nat} (within : i < r.pageCount) : (Link.page i).target? = some i := by
  have most := Layout.pageCount_le r.planned
  unfold Layout.maxPages at most
  exact Link.target?_page (by unfold pageCount at within; omega)

theorem linkTo_eq {i : Nat} (within : i < r.pageCount) : linkTo i = .ok (.page i) := by
  have most := Layout.pageCount_le r.planned
  unfold Layout.maxPages at most
  rw [linkTo, require_of (by unfold pageCount at within; omega)]
  rfl

theorem slotCount_eq : r.slotCount = r.geometry.slotCount := by
  obtain ⟨_, _, layout⟩ := Layout.plan_eq_ok_iff.mp r.planned
  rw [slotCount, layout]

@[simp] theorem hasList_free : r.HasList .free := trivial

theorem ofCode?_code {list : PageList} (known : r.HasList list) :
    PageList.ofCode? list.code = some list := by
  cases list with
  | free => exact PageList.ofCode?_code_free
  | slot index =>
    have below : index < r.slotCount := known
    obtain ⟨_, upper, _, _⟩ := r.valid
    rw [slotCount_eq, Geometry.slotCount] at below
    exact PageList.ofCode?_code_slot (by omega)

theorem descriptor_putDescriptor (i j : Nat) (d : Descriptor) (m : Memory) :
    r.descriptor j (r.putDescriptor i d m) = if j = i then d else r.descriptor j m := by
  by_cases same : j = i <;> simp [same]

/-- What stands between two links: pages that lead to each other in this order
and name the list. -/
def Strung (m : Memory) (list : PageList) (behind : Link) : Link → List Nat → Prop
  | _, [] => True
  | before, i :: rest =>
    (i < r.pageCount ∧ (r.descriptor i m).prev = before ∧
      (r.descriptor i m).next = Link.first behind rest ∧ (r.descriptor i m).list = list.code) ∧
    Strung m list behind (.page i) rest

/-- Between two memories, only the head of one list and the descriptors of some
pages differ. -/
structure Relinks (m after : Memory) (list : PageList) (pages : List Nat) : Prop where
  page : ∀ j, j ∉ pages → r.descriptor j after = r.descriptor j m
  head : ∀ other, r.HasList other → other ≠ list → r.headOf other after = r.headOf other m

variable {r} {m after : Memory} {list : PageList} {before behind : Link}

theorem Relinks.trans {last : Memory} {xs ys : List Nat} (one : r.Relinks m after list xs)
    (two : r.Relinks after last list ys) : r.Relinks m last list (xs ++ ys) where
  page j outside := by
    rw [List.mem_append, not_or] at outside
    rw [two.page j outside.2, one.page j outside.1]
  head other known different := by
    rw [two.head other known different, one.head other known different]

theorem Relinks.mono {xs ys : List Nat} (change : r.Relinks m after list xs)
    (more : xs ⊆ ys) : r.Relinks m after list ys :=
  ⟨fun j outside => change.page j fun member => outside (more member), change.head⟩

theorem Relinks.putDescriptor (i : Nat) (d : Descriptor) (m : Memory) (list : PageList) :
    r.Relinks m (r.putDescriptor i d m) list [i] where
  page j outside := by
    rw [List.mem_singleton] at outside
    simp [outside]
  head _ known _ := by simp [known]

theorem Relinks.putHead (link : Link) (m : Memory) (known : r.HasList list) :
    r.Relinks m (r.putHead list link m) list [] where
  page _ _ := by simp [known]
  head _ _ different := by simp [different]

theorem Strung.congr_place {xs : List Nat} (strung : r.Strung m list behind before xs)
    (same : ∀ i ∈ xs, (r.descriptor i after).SamePlace (r.descriptor i m)) :
    r.Strung after list behind before xs := by
  induction xs generalizing before with
  | nil => trivial
  | cons i rest ih =>
    obtain ⟨⟨within, prev, next, named⟩, others⟩ := strung
    have here := same i List.mem_cons_self
    exact ⟨⟨within, here.2.1.trans prev, here.1.trans next, here.2.2.trans named⟩,
      ih others fun j member => same j (List.mem_cons_of_mem i member)⟩

theorem Strung.congr {xs : List Nat} (strung : r.Strung m list behind before xs)
    (same : ∀ i ∈ xs, r.descriptor i after = r.descriptor i m) :
    r.Strung after list behind before xs :=
  strung.congr_place fun i member => by
    rw [same i member]
    exact ⟨rfl, rfl, rfl⟩

theorem Strung.within {xs : List Nat} (strung : r.Strung m list behind before xs) :
    ∀ i ∈ xs, i < r.pageCount := by
  induction xs generalizing before with
  | nil => simp
  | cons i rest ih =>
    intro j member
    rcases List.mem_cons.mp member with rfl | member
    · exact strung.1.1
    · exact ih strung.2 j member

theorem Strung.named {xs : List Nat} (strung : r.Strung m list behind before xs) :
    ∀ i ∈ xs, (r.descriptor i m).list = list.code := by
  induction xs generalizing before with
  | nil => simp
  | cons i rest ih =>
    intro j member
    rcases List.mem_cons.mp member with rfl | member
    · exact strung.1.2.2.2
    · exact ih strung.2 j member

theorem strung_append {xs ys : List Nat} :
    r.Strung m list behind before (xs ++ ys) ↔
      r.Strung m list (Link.first behind ys) before xs ∧
        r.Strung m list behind (Link.last before xs) ys := by
  induction xs generalizing before with
  | nil => simp [Strung, Link.last]
  | cons i rest ih =>
    simp only [List.cons_append, Strung, ih, Link.first_append, Link.last]
    exact and_assoc.symm

/-- The page after a chain may be exchanged by changing the last link of the
chain, or the head of the list where the chain is empty. -/
theorem setNextAfter_strung {xs : List Nat} (link : Link) (known : r.HasList list)
    (head : r.headOf list m = Link.first behind xs) (strung : r.Strung m list behind .nil xs)
    (distinct : xs.Nodup) :
    ∃ after, r.setNextAfter list (Link.last .nil xs) link m = .ok after ∧
      r.headOf list after = Link.first link xs ∧ r.Strung after list link .nil xs ∧
      r.Relinks m after list xs := by
  -- What leads to the gap is the head of the list, or else the last page of the chain.
  rcases List.eq_nil_or_concat xs with rfl | ⟨ys, i, rfl⟩
  · refine ⟨r.putHead list link m, r.setHead_eq link m known, ?_, trivial, .putHead link m known⟩
    simp
  · rw [List.concat_eq_append] at head strung distinct ⊢
    obtain ⟨front, ⟨within, prev, next, named⟩, _⟩ := strung_append.mp strung
    have outside : i ∉ ys := fun member => by simpa using List.disjoint_of_nodup_append distinct member
    refine ⟨r.putDescriptor i { r.descriptor i m with next := link } m, ?_, ?_, ?_, ?_⟩
    · simp [setNextAfter, r.target?_page within, within]
    · simp [known, head]
    · have kept : r.Strung (r.putDescriptor i { r.descriptor i m with next := link } m) list
          (.page i) .nil ys := front.congr fun j member => by
        have other : j ≠ i := fun same => outside (same ▸ member)
        simp [other]
      refine strung_append.mpr ⟨kept, ⟨within, ?_, ?_, ?_⟩, trivial⟩
      · simpa using prev
      · simp
      · simpa using named
    · exact (Relinks.putDescriptor i _ m list).mono (by simp)

/-- What stands before a chain may be exchanged by changing the first link
back. -/
theorem setPrevBefore_strung {xs : List Nat} (link : Link) (known : r.HasList list)
    (strung : r.Strung m list .nil before xs) (distinct : xs.Nodup) :
    ∃ after, r.setPrevBefore (Link.first .nil xs) link m = .ok after ∧
      r.headOf list after = r.headOf list m ∧ r.Strung after list .nil link xs ∧
      r.Relinks m after list xs := by
  cases xs with
  | nil =>
    exact ⟨m, by simp [setPrevBefore], rfl, trivial, fun _ _ => rfl, fun _ _ _ => rfl⟩
  | cons i rest =>
    obtain ⟨⟨within, prev, next, named⟩, others⟩ := strung
    refine ⟨r.putDescriptor i { r.descriptor i m with prev := link } m, ?_, ?_, ⟨⟨within, ?_⟩, ?_⟩, ?_⟩
    · simp [setPrevBefore, r.target?_page within, within]
    · simp [known]
    · simpa using ⟨next, named⟩
    · refine others.congr fun j member => ?_
      have other : j ≠ i := fun same => (List.nodup_cons.mp distinct).1 (same ▸ member)
      simp [other]
    · exact (Relinks.putDescriptor i _ m list).mono (by simp)

/-- The two parts of a list around a gap may be given new links to what is in
the gap. -/
theorem rejoin_strung {xs ys : List Nat} {gap : Link} (before after : Link)
    (known : r.HasList list)
    (head : r.headOf list m = Link.first gap xs) (front : r.Strung m list gap .nil xs)
    (back : r.Strung m list .nil behind ys) (distinct : (xs ++ ys).Nodup) :
    ∃ one two, r.setNextAfter list (Link.last .nil xs) after m = .ok one ∧
      r.setPrevBefore (Link.first .nil ys) before one = .ok two ∧
      r.headOf list two = Link.first after xs ∧ r.Strung two list after .nil xs ∧
      r.Strung two list .nil before ys ∧ r.Relinks m two list (xs ++ ys) := by
  obtain ⟨left, right, apart⟩ := List.nodup_append.mp distinct
  obtain ⟨one, first, headOne, frontOne, changeOne⟩ :=
    setNextAfter_strung after known head front left
  have backOne : r.Strung one list .nil behind ys := back.congr fun j later =>
    changeOne.page j fun earlier => apart j earlier j later rfl
  obtain ⟨two, second, headTwo, backTwo, changeTwo⟩ :=
    setPrevBefore_strung before known backOne right
  have frontTwo : r.Strung two list after .nil xs := frontOne.congr fun j earlier =>
    changeTwo.page j fun later => apart j earlier j later rfl
  exact ⟨one, two, first, second, headTwo.trans headOne, frontTwo, backTwo,
    changeOne.trans changeTwo⟩

end Region

end SlabAllocator
