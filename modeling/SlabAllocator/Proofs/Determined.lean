import SlabAllocator.Proofs.SameShape

namespace SlabAllocator

/-- The first element of a list for which something holds splits the list in one
way only. -/
theorem first_split_unique {α : Type} {P : α → Prop} {xs ys xs' ys' : List α} {i j : α}
    (same : xs ++ i :: ys = xs' ++ j :: ys') (hit : P i) (also : P j) (miss : ∀ k ∈ xs, ¬P k)
    (too : ∀ k ∈ xs', ¬P k) : xs = xs' ∧ i = j ∧ ys = ys' := by
  induction xs generalizing xs' with
  | nil =>
    cases xs' with
    | nil =>
      obtain ⟨rfl, rfl⟩ := List.cons.inj same
      exact ⟨rfl, rfl, rfl⟩
    | cons k rest =>
      obtain ⟨rfl, _⟩ := List.cons.inj same
      exact absurd hit (too _ List.mem_cons_self)
  | cons k rest ih =>
    cases xs' with
    | nil =>
      obtain ⟨rfl, _⟩ := List.cons.inj same
      exact absurd also (miss _ List.mem_cons_self)
    | cons l rest' =>
      obtain ⟨rfl, tails⟩ := List.cons.inj same
      obtain ⟨rfl, rest⟩ := ih tails (fun m member => miss m (List.mem_cons_of_mem _ member))
        fun m member => too m (List.mem_cons_of_mem _ member)
      exact ⟨rfl, rest⟩

theorem Geometry.LowestFree.unique {g : Geometry} {c : Carving} {taken : ChunkSet} {k l : Nat}
    (one : g.LowestFree c taken k) (two : g.LowestFree c taken l) : k = l := by
  have first := one.before l
  have second := two.before k
  rw [two.missing] at first
  rw [one.missing] at second
  rcases Nat.lt_trichotomy k l with less | same | less
  · cases second less
  · exact same
  · cases first less

namespace PageMap

variable {r : Region} {t next after : PageMap} {size : Nat} {found also : Option Nat}

/-- The map alone decides where a request is placed. -/
theorem Placed.unique (one : t.Placed r size found next) (two : t.Placed r size also after) :
    found = also ∧ next = after := by
  cases one with
  | @run xs ys i large split enough short =>
    cases two with
    | run _ again long fewer =>
      obtain ⟨rfl, rfl, rfl⟩ := first_split_unique
        (P := fun j => r.geometry.pagesFor size ≤ (t.use j).pages) (split.symm.trans again) enough
        long (fun j member => Nat.not_le.mpr (short j member)) fun j member =>
          Nat.not_le.mpr (fewer j member)
      exact ⟨rfl, rfl⟩
    | noRun _ fewer => exact absurd enough (Nat.not_le.mpr (fewer i (by rw [split]; simp)))
    | chunk small => exact absurd large (Nat.not_le.mpr small)
    | page small => exact absurd large (Nat.not_le.mpr small)
    | noPage small => exact absurd large (Nat.not_le.mpr small)
  | noRun large short =>
    cases two with
    | @run _ _ j _ split enough => exact absurd enough (Nat.not_le.mpr (short j (by rw [split]; simp)))
    | noRun => exact ⟨rfl, rfl⟩
    | chunk small => exact absurd large (Nat.not_le.mpr small)
    | page small => exact absurd large (Nat.not_le.mpr small)
    | noPage small => exact absurd large (Nat.not_le.mpr small)
  | chunk small form listed slab room lowest =>
    subst form
    cases two with
    | run large => exact absurd large (Nat.not_le.mpr small)
    | noRun large => exact absurd large (Nat.not_le.mpr small)
    | chunk _ form again there _ least =>
      subst form
      obtain ⟨rfl, rfl⟩ := List.cons.inj (listed.symm.trans again)
      obtain ⟨_, rfl⟩ := Use.slab.inj (slab.symm.trans there)
      obtain rfl := lowest.unique least
      exact ⟨rfl, rfl⟩
    | page _ form unlisted =>
      subst form
      cases listed.symm.trans unlisted
    | noPage _ form unlisted =>
      subst form
      cases listed.symm.trans unlisted
  | page small form unlisted free =>
    subst form
    cases two with
    | run large => exact absurd large (Nat.not_le.mpr small)
    | noRun large => exact absurd large (Nat.not_le.mpr small)
    | chunk _ form listed =>
      subst form
      cases listed.symm.trans unlisted
    | page _ form _ again =>
      subst form
      obtain ⟨rfl, rfl⟩ := List.cons.inj (free.symm.trans again)
      exact ⟨rfl, rfl⟩
    | noPage _ form _ spent => cases free.symm.trans spent
  | noPage small form unlisted spent =>
    subst form
    cases two with
    | run large => exact absurd large (Nat.not_le.mpr small)
    | noRun large => exact absurd large (Nat.not_le.mpr small)
    | chunk _ form listed =>
      subst form
      cases listed.symm.trans unlisted
    | page _ form _ free => cases free.symm.trans spent
    | noPage => exact ⟨rfl, rfl⟩

/-- The map alone decides what the return of a block leaves. -/
theorem Freed.unique {p q size other : Nat} (one : t.Freed r p size next)
    (two : t.Freed r q other after) (same : p = q) (sound : t.Sound r) : next = after := by
  have place {i k : Nat} {c : Carving} {taken : ChunkSet} (within : i < r.pageCount)
      (slab : t.use i = .slab c taken) (has : taken.has k = true) : k * 2 ^ c.shift < r.pageSize := by
    obtain ⟨cls, kept⟩ := sound.slab i within c taken slab
    exact cls.chunk_lt (kept.within k has)
  have positive : 0 < r.pageSize := Nat.two_pow_pos _
  cases one with
  | run within use =>
    cases two with
    | run _ also =>
      obtain ⟨rfl, _⟩ := r.pageAddress_inj (congrArg (· + 0) same) positive positive
      cases use.symm.trans also
      rfl
    | chunk inside slab _ has =>
      obtain ⟨rfl, _⟩ := r.pageAddress_inj (i := _) same positive (place inside slab has)
      cases use.symm.trans slab
  | @chunk c i k taken within slab caller has =>
    cases two with
    | run _ use =>
      obtain ⟨rfl, _⟩ := r.pageAddress_inj same.symm positive (place within slab has)
      cases use.symm.trans slab
    | @chunk d j l left inside also _ too =>
      obtain ⟨rfl, offset⟩ := r.pageAddress_inj same (place within slab has) (place inside also too)
      cases slab.symm.trans also
      obtain rfl := Nat.eq_of_mul_eq_mul_right (Nat.two_pow_pos c.shift) offset
      rfl

/-- The map alone decides what is answered when an address is handed back. -/
theorem Returned.unique {p q : Nat} {verdict answer : Except ReleaseError Unit}
    (one : t.Returned r p verdict next) (two : t.Returned r q answer after) (same : p = q)
    (sound : t.Sound r) : verdict = answer ∧ next = after := by
  cases one with
  | outside beyond =>
    cases two with
    | outside => exact ⟨rfl, rfl⟩
    | refused within inside => exact absurd same.symm (beyond _ within _ inside)
    | accepted within inside => exact absurd same.symm (beyond _ within _ inside)
  | refused within inside refused =>
    cases two with
    | outside beyond => exact absurd same (beyond _ within _ inside)
    | refused _ small also =>
      obtain ⟨rfl, rfl⟩ := r.pageAddress_inj same inside small
      exact ⟨refused.symm.trans also, rfl⟩
    | accepted _ small accepted =>
      obtain ⟨rfl, rfl⟩ := r.pageAddress_inj same inside small
      cases refused.symm.trans accepted
  | accepted within inside accepted freed =>
    cases two with
    | outside beyond => exact absurd same (beyond _ within _ inside)
    | refused _ small refused =>
      obtain ⟨rfl, rfl⟩ := r.pageAddress_inj same inside small
      cases refused.symm.trans accepted
    | accepted _ small _ also => exact ⟨rfl, freed.unique also same sound⟩

end PageMap

namespace Region

variable {r : Region} {m seen : Memory} {t : PageMap} {i : Nat}

namespace Shows

theorem headOf_eq {list : PageList} (one : r.Shows m t) (two : r.Shows seen t)
    (known : r.HasList list) : r.headOf list seen = r.headOf list m :=
  (two.linked.head list known).trans (one.linked.head list known).symm

/-- A map fixes every field of every descriptor. -/
theorem descriptor_eq (one : r.Shows m t) (two : r.Shows seen t) (within : i < r.pageCount) :
    r.descriptor i seen = r.descriptor i m :=
  one.descriptor_eq_of_shape (.refl r) two within

/-- A sound map fixes the words that a page of small chunks keeps of them. -/
theorem bitmap_eq {shift : Nat} (one : r.Shows m t) (two : r.Shows seen t) (sound : t.Sound r)
    (within : i < r.pageCount) (small : (r.descriptor i m).role = .small shift) :
    seen.words (r.pageAddress i) (r.geometry.bitmapWords shift) =
      m.words (r.pageAddress i) (r.geometry.bitmapWords shift) := by
  have carved : r.carvingOf? (r.descriptor i m).role = some ⟨.small, shift⟩ := by
    rw [small]
    rfl
  obtain ⟨taken, slab⟩ := (one.carvingOf?_iff sound within).mp carved
  obtain ⟨_, kept⟩ := sound.slab i within _ taken slab
  have length : taken.words.length = r.geometry.bitmapWords shift := kept.length
  have first := one.row i within
  have second := two.row i within
  rw [slab, Use.row_small taken rfl, length] at first second
  exact second.trans first.symm

theorem usage_same (one : r.Shows m t) (two : r.Shows seen t) (sound : t.Sound r) :
    r.usage seen = r.usage m :=
  one.usage_same_of_shape (.refl r) two sound

theorem snapshot_same (one : r.Shows m t) (two : r.Shows seen t) :
    r.snapshot seen = r.snapshot m :=
  one.snapshot_same_of_shape (.refl r) two

end Shows

end Region

end SlabAllocator
