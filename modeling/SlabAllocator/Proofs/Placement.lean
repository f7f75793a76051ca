import SlabAllocator.Pool.Basic
import SlabAllocator.Proofs.ChunkSteps

namespace SlabAllocator

/-- Where a request is placed, and what the pages are used for afterwards. -/
inductive PageMap.Placed (r : Region) (t : PageMap) (size : Nat) : Option Nat → PageMap → Prop
  /-- The front of the first free run that is long enough. -/
  | run {xs ys : List Nat} {i : Nat} (large : r.geometry.maxSize ≤ size)
      (split : t.lists .free = xs ++ i :: ys)
      (enough : r.geometry.pagesFor size ≤ (t.use i).pages)
      (short : ∀ j ∈ xs, (t.use j).pages < r.geometry.pagesFor size) :
      Placed r t size (some (r.pageAddress i)) (t.takeRun xs i ys (r.geometry.pagesFor size))
  | noRun (large : r.geometry.maxSize ≤ size)
      (short : ∀ j ∈ t.lists .free, (t.use j).pages < r.geometry.pagesFor size) :
      Placed r t size none t
  /-- The lowest free chunk of the first page on the list of the class. -/
  | chunk {c : Carving} {i k : Nat} {ys : List Nat} {old : ChunkSet}
      (small : size < r.geometry.maxSize) (form : c = r.geometry.classFor size)
      (listed : t.lists (.slot (r.geometry.slotOf c.shift)) = i :: ys)
      (slab : t.use i = .slab c old) (room : old ≠ r.geometry.fullRecord c)
      (lowest : r.geometry.LowestFree c old k) :
      Placed r t size (some (r.chunkAddress c.shift i k)) (t.occupy r c i (old.insert k))
  /-- The first chunk that callers receive of one page of the first free run. -/
  | page {c : Carving} {i : Nat} {ys : List Nat} (small : size < r.geometry.maxSize)
      (form : c = r.geometry.classFor size)
      (unlisted : t.lists (.slot (r.geometry.slotOf c.shift)) = [])
      (free : t.lists .free = i :: ys) :
      Placed r t size (some (r.chunkAddress c.shift i (r.geometry.recordReserved c)))
        ((t.takeRun [] i ys 1).carve r c i (r.geometry.firstRecord c))
  | noPage {c : Carving} (small : size < r.geometry.maxSize) (form : c = r.geometry.classFor size)
      (unlisted : t.lists (.slot (r.geometry.slotOf c.shift)) = []) (spent : t.lists .free = []) :
      Placed r t size none t

namespace PageMap.Placed

variable {r : Region} {t next : PageMap} {size : Nat} {found : Option Nat}

theorem sound (placed : t.Placed r size found next) (sound : t.Sound r)
    (distinct : ∀ list, r.HasList list → (t.lists list).Nodup) : next.Sound r := by
  cases placed with
  | run large split enough short =>
    exact sound.takeRun split (distinct .free trivial) (Geometry.pagesFor_pos r.valid large) enough
  | noRun => exact sound
  | noPage => exact sound
  | @chunk c i k ys old small form listed slab room lowest =>
    have served := Geometry.isClass_classFor r.valid small form
    obtain ⟨within, _⟩ := sound.first_slot served listed
    obtain ⟨cls, kept⟩ := sound.slab i within c old slab
    exact sound.occupy distinct within slab room
      (Geometry.kept_insert kept.toFits cls r.valid lowest.caller lowest.chunk)
  | @page c i ys small form unlisted free =>
    have cls := Geometry.isClass_classFor r.valid small form
    obtain ⟨within, n, positive, run⟩ := sound.first_free free
    have split : t.lists .free = [] ++ i :: ys := free
    have one := sound.takeRun split (distinct .free trivial) Nat.one_pos (by rwa [run])
    have cut := sound.unlisted_cutRun split (distinct .free trivial) run positive (Nat.le_refl i)
      (by omega)
    have single : ((t.takeRun [] i ys 1).use i).pages = 1 := by
      rw [PageMap.use_takeRun_self]
      rfl
    exact one.carve within single cut cls (Geometry.kept_firstRecord cls r.valid)
      (Geometry.firstRecord_ne_full cls r.valid)

/-- A request that is placed gets a block that was not lent out before. -/
theorem gains {p : Nat} (placed : t.Placed r size (some p) next) (sound : t.Sound r) :
    t.Gains r next p (r.geometry.blockSize size) := by
  generalize answer : some p = found at placed
  cases placed with
  | @run xs ys i large split enough short =>
    obtain rfl := Option.some.inj answer
    obtain ⟨within, n, positive, run⟩ := sound.listed_free split
    rw [run] at enough
    rw [Geometry.blockSize_pages large]
    exact gains_takeRun sound within run (Geometry.pagesFor_pos r.valid large) enough
  | noRun => cases answer
  | noPage => cases answer
  | @chunk c i k ys old small form listed slab room lowest =>
    obtain rfl := Option.some.inj answer
    have cls := Geometry.isClass_classFor r.valid small form
    obtain ⟨within, _⟩ := sound.first_slot cls listed
    rw [Geometry.blockSize_classFor small, ← form]
    exact gains_occupy sound within slab lowest.caller lowest.chunk lowest.missing
  | @page c i ys small form unlisted free =>
    obtain rfl := Option.some.inj answer
    have cls := Geometry.isClass_classFor r.valid small form
    obtain ⟨within, n, positive, run⟩ := sound.first_free free
    rw [Geometry.blockSize_classFor small, ← form]
    exact gains_carve sound within run positive cls

theorem none_eq (placed : t.Placed r size none next) : next = t := by
  cases placed <;> rfl

end PageMap.Placed

namespace Pool

variable {pool : Pool} {m : Memory} {t : PageMap} {size : Nat}

/-- A request is placed as the map says, and no byte changes but those of the
tables and of the records. -/
theorem place_placed (shows_ : pool.region.Shows m t) (sound : t.Sound pool.region) (size : Nat) :
    ∃ found after next, pool.place size m = .ok (found, after) ∧
      t.Placed pool.region size found next ∧ pool.region.Shows after next ∧
      pool.region.KeepsIdle next m after := by
  rcases Nat.lt_or_ge size pool.region.geometry.maxSize with small | large
  · obtain ⟨c, form⟩ : ∃ c, c = pool.region.geometry.classFor size := ⟨_, rfl⟩
    have cls := Geometry.isClass_classFor pool.region.valid small form
    rw [place, if_neg (Nat.not_le.mpr small)]
    cases listed : t.lists (.slot (pool.region.geometry.slotOf c.shift)) with
    | cons i ys =>
      obtain ⟨old, k, after, slab, room, lowest, take, shown, keeps⟩ :=
        shows_.takeChunk_listed sound form cls listed
      exact ⟨_, after, _, take, .chunk small form listed slab room lowest, shown, keeps⟩
    | nil =>
      cases free : t.lists .free with
      | nil =>
        have refused := shows_.takeChunk_none sound form cls listed free
        exact ⟨none, m, t, refused, .noPage small form listed free, shows_, .refl t m⟩
      | cons i ys =>
        obtain ⟨after, take, shown, keeps⟩ := shows_.takeChunk_fresh sound form cls listed free
        exact ⟨_, after, _, take, .page small form listed free, shown, keeps⟩
  · have positive := Geometry.pagesFor_pos pool.region.valid large
    rw [place, if_pos large]
    cases search : (t.lists .free).find?
        fun j => decide (pool.region.geometry.pagesFor size ≤ (t.use j).pages) with
    | none =>
      have short : ∀ j ∈ t.lists .free, (t.use j).pages < pool.region.geometry.pagesFor size :=
        fun j member => by simpa using List.find?_eq_none.mp search j member
      refine ⟨none, m, t, ?_, .noRun large short, shows_, .refl t m⟩
      rw [shows_.takeRun_none sound short]
      rfl
    | some i =>
      obtain ⟨enough, xs, ys, split, short⟩ := List.find?_eq_some_iff_append.mp search
      have enough := of_decide_eq_true enough
      have short : ∀ j ∈ xs, (t.use j).pages < pool.region.geometry.pagesFor size :=
        fun j member => by simpa using short j member
      obtain ⟨after, take, shown⟩ := shows_.takeRun_some sound split positive enough short
      refine ⟨_, after, _, ?_, .run large split enough short, shown,
        (Region.takeRun_tables take).keepsIdle _⟩
      rw [take]
      rfl

end Pool

end SlabAllocator
