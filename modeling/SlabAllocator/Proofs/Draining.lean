import SlabAllocator.Proofs.RoundTrips

namespace SlabAllocator

/-- Hands back some addresses one after another, and answers what each of them
was answered. -/
def Pool.releaseEach (pool : Pool) : List Nat → Memory →
    Except Fault (List (Except ReleaseError Unit) × Memory)
  | [], m => return ([], m)
  | p :: rest, m => do
    let (answer, m) ← pool.release p m
    let (answers, m) ← pool.releaseEach rest m
    return (answer :: answers, m)

namespace Use

/-- What becomes of the use of a page while blocks go back and none is handed
out. -/
def Drains : Use → Use → Prop
  | free n, v => v = free n
  | run n, v => v = run n ∨ v = free n
  | interior, v => v = interior ∨ v = free 0
  | slab c _, v => (∃ left, v = slab c left) ∨ v = free 1

variable {g : Geometry} {u v w : Use}

theorem Drains.refl (u : Use) : u.Drains u := by
  cases u with
  | free n => rfl
  | run n => exact Or.inl rfl
  | interior => exact Or.inl rfl
  | slab c taken => exact Or.inl ⟨taken, rfl⟩

theorem Drains.trans (one : u.Drains v) (two : v.Drains w) : u.Drains w := by
  cases u with
  | free n =>
    cases one
    exact two
  | run n =>
    obtain rfl | rfl := one
    · exact two
    · exact Or.inr two
  | interior =>
    obtain rfl | rfl := one
    · exact two
    · exact Or.inr two
  | slab c taken =>
    obtain ⟨left, rfl⟩ | rfl := one
    · exact two
    · exact Or.inr two

/-- Pages are cut for requests only. -/
theorem Drains.was_cut {c : Carving} {left : ChunkSet} (drains : u.Drains (.slab c left)) :
    ∃ taken, u = .slab c taken := by
  cases u with
  | free n => cases drains
  | run n => rcases drains with same | same <;> cases same
  | interior => rcases drains with same | same <;> cases same
  | slab d taken =>
    obtain ⟨_, same⟩ | same := drains
    · cases same
      exact ⟨taken, rfl⟩
    · cases same

section Lending

variable {c : Carving} {left rest : ChunkSet} {k : Nat}

/-- As long as a page is cut, some caller holds a chunk of it. -/
theorem lends_of_kept (cls : g.IsClass c) (kept : g.Kept c left) :
    ∃ offset < g.pageSize, (slab c left).Lends g offset (2 ^ c.shift) := by
  obtain ⟨k, caller, has⟩ := kept.used
  exact ⟨k * 2 ^ c.shift, cls.chunk_lt (kept.within k has), k, caller, has, rfl, rfl⟩

theorem lends_chunk_iff : (slab c left).Lends g (k * 2 ^ c.shift) (2 ^ c.shift) ↔
    g.recordReserved c ≤ k ∧ left.has k = true := by
  constructor
  · rintro ⟨l, caller, has, place, _⟩
    obtain rfl : k = l := Nat.eq_of_mul_eq_mul_right (Nat.two_pow_pos _) place
    exact ⟨caller, has⟩
  · rintro ⟨caller, has⟩
    exact ⟨k, caller, has, rfl, rfl⟩

/-- The blocks of a page tell its record. -/
theorem record_eq_of_lends (cls : g.IsClass c) (one : g.Kept c left) (two : g.Kept c rest)
    (same : ∀ offset < g.pageSize, ∀ size,
      (slab c rest).Lends g offset size ↔ (slab c left).Lends g offset size) : rest = left := by
  refine two.toFits.ext one.toFits fun k chunk => ?_
  by_cases record : k < g.recordReserved c
  · rw [two.reserved k record, one.reserved k record]
  · have lends := same _ (cls.chunk_lt chunk) (2 ^ c.shift)
    rw [lends_chunk_iff, lends_chunk_iff] at lends
    rw [Bool.eq_iff_iff]
    exact (and_congr_right_iff.mp lends) (Nat.le_of_not_lt record)

end Lending

/-- The blocks that are left tell what has become of a page, if it is the first
of its segment. -/
theorem Drains.eq_of_lends (one : u.Drains v) (two : u.Drains w)
    (first : u ≠ .interior) (some : ∀ n, u = .run n → 0 < n)
    (kept : ∀ c left, v = .slab c left → g.IsClass c ∧ g.Kept c left)
    (also : ∀ c left, w = .slab c left → g.IsClass c ∧ g.Kept c left)
    (same : ∀ offset < g.pageSize, ∀ size, w.Lends g offset size ↔ v.Lends g offset size) :
    w = v := by
  cases u with
  | free n =>
    cases one
    exact two
  | run n =>
    have positive : 0 < g.pageSize := Nat.two_pow_pos _
    have lends : (run n).Lends g 0 (n * g.pageSize) := ⟨some n rfl, rfl, rfl⟩
    obtain rfl | rfl := one
    · obtain rfl | rfl := two
      · rfl
      · exact absurd ((same 0 positive _).mpr lends) id
    · obtain rfl | rfl := two
      · exact absurd ((same 0 positive _).mp lends) id
      · rfl
  | interior => exact absurd rfl first
  | slab c taken =>
    obtain ⟨left, rfl⟩ | rfl := one
    · obtain ⟨cls, held⟩ := kept c left rfl
      obtain ⟨rest, rfl⟩ | rfl := two
      · rw [record_eq_of_lends cls held (also c rest rfl).2 same]
      · obtain ⟨offset, inside, lends⟩ := lends_of_kept cls held
        exact absurd ((same _ inside _).mpr lends) id
    · obtain ⟨rest, rfl⟩ | rfl := two
      · obtain ⟨cls, held⟩ := also c rest rfl
        obtain ⟨offset, inside, lends⟩ := lends_of_kept cls held
        exact absurd ((same _ inside _).mp lends) id
      · rfl

end Use

/-- A page that goes back is drained, and so is none beside it. -/
theorem PageMap.Freed.drains {r : Region} {t next : PageMap} {p size j : Nat}
    (freed : t.Freed r p size next) (sound : t.Sound r) : (t.use j).Drains (next.use j) := by
  cases freed with
  | @run i n within run =>
    by_cases first : j = i
    · rw [first, run, use_returnRun_self]
      exact Or.inr rfl
    · by_cases inner : i < j ∧ j < i + n
      · rw [use_returnRun_later inner.1 inner.2,
          (sound.later_busy within (by rw [run]; rfl) inner.1 (by rw [run]; exact inner.2)).1]
        exact Or.inr rfl
      · rw [use_returnRun_of_outside first inner]
        exact .refl _
  | @chunk c i k taken within slab caller has =>
    by_cases here : j = i
    · rw [here, slab, use_settle_self]
      split
      · exact Or.inr rfl
      · exact Or.inl ⟨_, rfl⟩
    · rw [use_settle_of_ne here]
      exact .refl _

/-- Only the pages of small chunks hold a record. -/
theorem PageMap.InRow.small {r : Region} {t : PageMap} {x : Nat} (row : t.InRow r x) :
    ∃ i < r.pageCount, ∃ c taken, t.use i = .slab c taken ∧ c.kind = .small ∧
      r.pageAddress i ≤ x ∧ x < r.pageAddress i + 8 * taken.words.length := by
  obtain ⟨i, within, lower, upper⟩ := row
  have some : (t.use i).row ≠ [] := by
    intro none
    rw [none] at upper
    exact Nat.not_lt.mpr lower upper
  have slab : ∃ c taken, t.use i = .slab c taken := by
    by_contra other
    exact some (Use.row_eq_nil fun c taken use => other ⟨c, taken, use⟩)
  obtain ⟨c, taken, use⟩ := slab
  rw [use] at some upper
  have small : c.kind = .small := by
    by_contra other
    exact some (Use.row_not_small taken other)
  rw [Use.row_small taken small] at upper
  exact ⟨i, within, c, taken, use, small, lower, upper⟩

/-- A byte of one of the blocks at some addresses. -/
def PageMap.Covers (t : PageMap) (r : Region) (gone : List Nat) (x : Nat) : Prop :=
  ∃ p ∈ gone, ∃ n, t.Holds r p n ∧ p ≤ x ∧ x < p + n

/-- The blocks at some addresses went back: what becomes of the pages, which
blocks are left, and which bytes change beside those of the tables. -/
structure Region.Drained (r : Region) (junk : Bool) (gone : List Nat) (t : PageMap) (m : Memory)
    (next : PageMap) (after : Memory) : Prop where
  uses : ∀ i < r.pageCount, (t.use i).Drains (next.use i)
  holds : ∀ p n, next.Holds r p n ↔ t.Holds r p n ∧ p ∉ gone
  emptied : r.LeavesEmpty t next after
  kept : ∀ x, r.Idle t x → (junk = true → ¬t.Covers r gone x) → after.byte x = m.byte x
  spoiled : junk = true → ∀ x, t.Covers r gone x → after.byte x = Pool.junkByte

namespace Region.Drained

variable {r : Region} {junk : Bool} {one two : List Nat} {t next last : PageMap}
  {m between after : Memory} {i x : Nat}

theorem nil (r : Region) (junk : Bool) (t : PageMap) (m : Memory) : r.Drained junk [] t m t m where
  uses i _ := .refl _
  holds p n := by simp
  emptied i _ c taken slab _ free := by
    rw [slab] at free
    cases free
  kept x _ _ := rfl
  spoiled _ x := by
    rintro ⟨p, member, _⟩
    cases member

/-- A page keeps its record where it was, or needs none any more. -/
theorem inRow (drained : r.Drained junk one t m next after) (sound : t.Sound r)
    (good : next.Sound r) (row : next.InRow r x) : t.InRow r x := by
  obtain ⟨i, within, c, left, cut, small, lower, upper⟩ := row.small
  have drains := drained.uses i within
  rw [cut] at drains
  obtain ⟨taken, use⟩ := drains.was_cut
  obtain ⟨_, old⟩ := sound.slab i within c taken use
  obtain ⟨_, kept⟩ := good.slab i within c left cut
  rw [kept.length, ← old.length] at upper
  exact ⟨i, within, lower, by rwa [use, Use.row_small taken small]⟩

theorem idle (drained : r.Drained junk one t m next after) (sound : t.Sound r)
    (good : next.Sound r) (idle : r.Idle t x) : r.Idle next x :=
  ⟨idle.1, fun row => idle.2 (drained.inRow sound good row)⟩

theorem covers (drained : r.Drained junk one t m next after) (covered : next.Covers r two x) :
    t.Covers r two x := by
  obtain ⟨p, member, n, holds, bounds⟩ := covered
  exact ⟨p, member, n, ((drained.holds p n).mp holds).1, bounds⟩

/-- The record of a page that is no longer cut stays in its row from then on. -/
theorem row_kept (first : r.Drained junk one t m next between)
    (second : r.Drained junk two next between last after) (sound : t.Sound r)
    (good : next.Sound r) (within : i < r.pageCount) (quiet : (next.use i).row = []) :
    after.words (r.pageAddress i) (t.use i).row.length =
      between.words (r.pageAddress i) (t.use i).row.length := by
  have room := sound.rows i within
  refine Memory.words_congr fun k inside => second.kept _ ⟨?_, ?_⟩ fun _ covered => ?_
  · exact r.not_inTables_of_start_le (Nat.le_trans (r.start_le_pageAddress i) (Nat.le_add_right _ k))
  · rintro ⟨j, known, lower, upper⟩
    have short := good.rows j known
    obtain rfl : j = i := by
      by_contra other
      have apart := r.pageAddress_apart other
      omega
    rw [quiet] at upper
    exact absurd upper (Nat.not_lt.mpr lower)
  · obtain ⟨p, _, n, holds, lower, upper⟩ := first.covers covered
    exact sound.not_inRow holds lower upper ⟨i, within, Nat.le_add_right _ k, by omega⟩

/-- What goes back later is added to what went back before. -/
theorem append (first : r.Drained junk one t m next between)
    (second : r.Drained junk two next between last after) (sound : t.Sound r)
    (good : next.Sound r) : r.Drained junk (one ++ two) t m last after where
  uses i within := (first.uses i within).trans (second.uses i within)
  holds p n := by
    rw [second.holds, first.holds, and_assoc, List.mem_append, not_or]
  emptied i within c taken slab small free := by
    have drains := first.uses i within
    rw [slab] at drains
    obtain ⟨left, cut⟩ | quiet := drains
    · obtain ⟨_, old⟩ := sound.slab i within c taken slab
      obtain ⟨_, kept⟩ := good.slab i within c left cut
      rw [old.length, ← kept.length]
      exact second.emptied i within c left cut small free
    · have row := first.row_kept second sound good within (by rw [quiet]; rfl)
      rw [slab, Use.row_small taken small] at row
      rw [row]
      exact first.emptied i within c taken slab small quiet
  kept x idle outside := by
    rw [second.kept x (first.idle sound good idle) fun spoils covered => ?_,
      first.kept x idle fun spoils covered => ?_]
    · obtain ⟨p, member, block⟩ := covered
      exact outside spoils ⟨p, List.mem_append_left two member, block⟩
    · obtain ⟨p, member, block⟩ := first.covers covered
      exact outside spoils ⟨p, List.mem_append_right one member, block⟩
  spoiled spoils x := by
    rintro ⟨p, member, n, holds, lower, upper⟩
    by_cases late : next.Covers r two x
    · exact second.spoiled spoils x late
    · have idle := first.idle sound good (Region.idle_of_holds sound holds lower upper)
      rw [second.kept x idle fun _ => late]
      refine first.spoiled spoils x ⟨p, ?_, n, holds, lower, upper⟩
      by_contra missing
      have rest := (List.mem_append.mp member).resolve_left missing
      exact late ⟨p, rest, n, (first.holds p n).mpr ⟨holds, missing⟩, lower, upper⟩

end Region.Drained

theorem Pool.byte_spoil_of_outside {pool : Pool} {p size x : Nat} (m : Memory)
    (outside : ¬(p ≤ x ∧ x < p + size)) : (pool.spoil p size m).byte x = m.byte x := by
  unfold spoil
  split
  · rw [Memory.byte_fill, if_neg outside]
  · rfl

namespace Region.Shows

variable {r : Region} {pool : Pool} {m : Memory} {t : PageMap} {p size : Nat} {order : List Nat}

/-- A handle takes back one block. -/
theorem drain (shows_ : r.Shows m t) (sound : t.Sound r) (handle : pool.region = r)
    (holds : t.Holds r p size) :
    ∃ after next, pool.release p m = .ok (.ok (), after) ∧ r.Shows after next ∧ next.Sound r ∧
      r.Drained pool.junk [p] t m next after := by
  subst handle
  obtain ⟨between, next, run, freed, shown, keeps, emptied⟩ := shows_.reclaim sound rfl holds
  have good := freed.sound sound shows_.linked.distinct
  have gains := freed.gains sound good
  obtain ⟨spoiled, _⟩ := Pool.spoil_freed freed sound shows_.linked.distinct shown keeps
  refine ⟨_, next, run, spoiled, good, fun i _ => freed.drains sound, fun q n => ?_,
    fun i within c taken slab small free => ?_, fun x idle outside => ?_, ?_⟩
  · rw [gains.holds, List.mem_singleton]
    constructor
    · intro left
      refine ⟨Or.inl left, ?_⟩
      rintro rfl
      exact gains.fresh n left
    · rintro ⟨left | ⟨same, _⟩, other⟩
      · exact left
      · exact absurd same other
  · rw [← emptied i within c taken slab small free]
    refine Memory.words_congr fun k inside => Pool.byte_spoil_of_outside _ fun block => ?_
    refine sound.not_inRow holds block.1 block.2 ⟨i, within, Nat.le_add_right _ k, ?_⟩
    rw [slab, Use.row_small taken small]
    omega
  · rw [← keeps x idle]
    unfold Pool.spoil
    split
    · rename_i spoils
      rw [Memory.byte_fill, if_neg fun block =>
        outside spoils ⟨p, List.mem_singleton_self p, size, holds, block⟩]
    · rfl
  · rintro spoils x ⟨q, member, n, lent, block⟩
    obtain rfl := List.mem_singleton.mp member
    obtain rfl := sound.size_eq lent holds
    rw [Pool.spoil, if_pos spoils, Memory.byte_fill, if_pos block]

/-- A handle takes back any number of blocks, in the order in which they are
named. -/
theorem drainEach (shows_ : r.Shows m t) (sound : t.Sound r) (handle : pool.region = r)
    (distinct : order.Nodup) (lent : ∀ p ∈ order, ∃ n, t.Holds r p n) :
    ∃ after next, pool.releaseEach order m = .ok (order.map fun _ => .ok (), after) ∧
      r.Shows after next ∧ next.Sound r ∧ r.Drained pool.junk order t m next after := by
  induction order generalizing m t with
  | nil => exact ⟨m, t, rfl, shows_, sound, .nil r pool.junk t m⟩
  | cons p rest ih =>
    obtain ⟨fresh, others⟩ := List.nodup_cons.mp distinct
    obtain ⟨size, holds⟩ := lent p List.mem_cons_self
    obtain ⟨between, next, run, shown, good, first⟩ := shows_.drain sound handle holds
    obtain ⟨after, last, ran, done, sane, second⟩ := ih shown good others fun q member => by
      obtain ⟨n, also⟩ := lent q (List.mem_cons_of_mem p member)
      refine ⟨n, (first.holds q n).mpr ⟨also, fun same => ?_⟩⟩
      rw [List.mem_singleton.mp same] at member
      exact fresh member
    refine ⟨after, last, ?_, done, sane, first.append second sound good⟩
    simp [Pool.releaseEach, run, ran]

end Region.Shows

end SlabAllocator
