import SlabAllocator.Proofs.Contents
import SlabAllocator.Proofs.Requests
import SlabAllocator.Proofs.RunSteps

namespace SlabAllocator

namespace Region

variable {r : Region} {m : Memory} {t : PageMap} {c : Carving} {i : Nat}
  {old taken left : ChunkSet}

/-- Storing the record of a page gives the page that record. A page of small
chunks is marked as such before. -/
theorem Shows.setRecord (taken : ChunkSet) (shows_ : r.Shows m t) (within : i < r.pageCount)
    (marked : c.kind = .small → ∃ old : ChunkSet, t.use i = .slab c old ∧
      old.words.length = taken.words.length)
    (rows : ∀ j < r.pageCount, 8 * (t.use j).row.length ≤ r.pageSize) :
    ∃ after, r.setRecord c i taken m = .ok after ∧
      r.Shows after (t.assign i 1 (.slab c taken)) := by
  have spare := shows_.spare_eq within
  unfold Region.setRecord
  split
  · rename_i kind
    obtain ⟨old, slab, length⟩ := marked kind
    exact ⟨_, rfl, shows_.setWords within kind slab length rows⟩
  · rename_i kind
    exact shows_.modifyPage (fun d => d.asExact (taken.words.headD 0)) (.slab c taken) within
      ⟨rfl, rfl, rfl⟩ (Use.detached_asExact taken spare kind)
      (by rw [Use.row_not_small taken (by rw [kind]; decide)]; rfl)
  · rename_i kind
    exact shows_.modifyPage (fun d => d.asBig c.shift (taken.words.headD 0)) (.slab c taken) within
      ⟨rfl, rfl, rfl⟩ (Use.detached_asBig taken spare kind)
      (by rw [Use.row_not_small taken (by rw [kind]; decide)]; rfl)

/-- Marking a page and storing its first record puts it to use for chunks. -/
theorem Shows.markCarved (shows_ : r.Shows m t) (within : i < r.pageCount)
    (cls : r.geometry.IsClass c) (fits : r.geometry.Fits c taken)
    (rows : ∀ j < r.pageCount, 8 * (t.use j).row.length ≤ r.pageSize) :
    ∃ one after, r.markCarved c i m = .ok one ∧ r.setRecord c i taken one = .ok after ∧
      r.Shows after (t.assign i 1 (.slab c taken)) := by
  unfold Region.markCarved
  split
  · rename_i kind
    -- Until it is stored, the record of the page is whatever its first bytes spell.
    let found : ChunkSet := ⟨m.words (r.pageAddress i) (r.geometry.recordWords c)⟩
    have length : found.words.length = taken.words.length := by
      rw [fits.length]
      exact m.length_words _ _
    obtain ⟨one, first, shown⟩ := shows_.modifyPage (fun d => d.asSmall c.shift) (.slab c found)
      within ⟨rfl, rfl, rfl⟩ (Use.detached_asSmall found (shows_.spare_eq within) kind)
      (by rw [Use.row_small found kind, Memory.length_words])
    have rowsOne : ∀ j < r.pageCount, 8 * ((t.assign i 1 (.slab c found)).use j).row.length ≤
        r.pageSize := by
      intro j inside
      by_cases here : j = i
      · have reach := Use.row_le (r := r) (u := .slab c taken)
          ⟨Nat.one_le_of_lt within, fun _ _ same => by cases same; exact ⟨cls, fits⟩⟩
        rw [Use.row_small taken kind] at reach
        rwa [here, PageMap.use_assign_self, Use.row_small found kind, length]
      · simpa [here] using rows j inside
    obtain ⟨after, second, done⟩ := shown.setRecord taken within
      (fun _ => ⟨found, PageMap.use_assign_self .., length⟩) rowsOne
    rw [PageMap.assign_assign] at done
    exact ⟨one, after, first, second, done⟩
  · rename_i kind
    obtain ⟨after, second, done⟩ := shows_.setRecord taken within
      (fun small => by rw [kind] at small; cases small) rows
    exact ⟨m, after, rfl, second, done⟩
  · rename_i kind
    obtain ⟨after, second, done⟩ := shows_.setRecord taken within
      (fun small => by rw [kind] at small; cases small) rows
    exact ⟨m, after, rfl, second, done⟩

theorem Shows.listedCarving?_eq (shows_ : r.Shows m t) (sound : t.Sound r)
    (within : i < r.pageCount) (slab : t.use i = .slab c taken) :
    r.listedCarving? c.shift i m = some c := by
  obtain ⟨cls, _⟩ := sound.slab i within c taken slab
  have role := shows_.role_eq within (sound.spelled within)
  have regime : r.geometry.kindOf c.shift = c.kind := (congrArg Carving.kind cls.1).symm
  rw [slab, Use.role] at role
  rw [listedCarving?, regime]
  clear regime cls
  obtain ⟨kind, shift⟩ := c
  cases kind with
  | small => rfl
  | exact => rfl
  | big =>
    dsimp only at role ⊢
    rw [role]

/-- A listed page hands out its lowest free chunk. -/
theorem Shows.vacancy?_eq (shows_ : r.Shows m t) (sound : t.Sound r) (within : i < r.pageCount)
    (slab : t.use i = .slab c taken) (room : taken ≠ r.geometry.fullRecord c) :
    ∃ k, r.vacancy? c.shift m i = .ok (some (c, k, taken.insert k)) ∧
      r.geometry.LowestFree c taken k := by
  obtain ⟨cls, kept⟩ := sound.slab i within c taken slab
  obtain ⟨k, found, lowest⟩ := kept.takeLowest? cls r.valid room
  refine ⟨k, ?_, lowest⟩
  rw [vacancy?, shows_.listedCarving?_eq sound within slab]
  dsimp only
  simp [require_of (Nat.le_of_lt cls.2.2), require_of cls.big_chunks_le, record_eq cls within,
    shows_.recordOf_eq within (sound.spelled within) slab, room, found]

/-- Carving a page that is on no list hands out the first chunk that its record
leaves. -/
theorem Shows.carve (shows_ : r.Shows m t) (sound : t.Sound r) (within : i < r.pageCount)
    (cls : r.geometry.IsClass c) (unlisted : ∀ list, r.HasList list → i ∉ t.lists list) :
    ∃ after, r.carve c.shift i m = .ok (r.geometry.recordReserved c, after) ∧
      r.Shows after (t.carve r c i (r.geometry.firstRecord c)) ∧
      r.KeepsIdle (t.carve r c i (r.geometry.firstRecord c)) m after := by
  have kept := Geometry.kept_firstRecord cls r.valid
  have first := Geometry.firstChunk_eq r cls
  obtain ⟨one, two, mark, store, shown⟩ := shows_.markCarved within cls kept.toFits sound.rows
  obtain ⟨after, push, done⟩ := shown.pushFront (hasList_slotOf cls) within unlisted
  have run : r.carve c.shift i m = .ok (r.geometry.recordReserved c, after) := by
    simp [Region.carve, ← cls.1, checkRecord_eq cls, mark, first, store, slotIndex_eq cls, push]
  refine ⟨after, run, done, (carve_rowOnly run).keepsIdle within ?_⟩
  simp [← cls.1, first]

theorem Shows.occupy (shows_ : r.Shows m t) (sound : t.Sound r) (within : i < r.pageCount)
    (slab : t.use i = .slab c old) (length : old.words.length = taken.words.length) :
    ∃ after, r.occupy c i taken m = .ok after ∧ r.Shows after (t.occupy r c i taken) := by
  obtain ⟨one, store, shown⟩ := shows_.setRecord taken within (fun _ => ⟨old, slab, length⟩) sound.rows
  unfold Region.occupy PageMap.occupy
  rw [store, ok_bind]
  split
  · exact shown.detach within
  · exact ⟨one, rfl, shown⟩

theorem Shows.settle (shows_ : r.Shows m t) (sound : t.Sound r) (within : i < r.pageCount)
    (slab : t.use i = .slab c old) (length : old.words.length = left.words.length) :
    ∃ after, r.settle c i left m = .ok after ∧ r.Shows after (t.settle r c i old left) := by
  obtain ⟨cls, _⟩ := sound.slab i within c old slab
  obtain ⟨one, store, shown⟩ := shows_.setRecord left within (fun _ => ⟨old, slab, length⟩) sound.rows
  unfold Region.settle PageMap.settle
  rw [store, ok_bind]
  split
  · rw [← PageMap.returnRun_assign]
    exact shown.returnRun Nat.one_pos within fun j after before => by omega
  -- The program asks the descriptor whether the page is listed, the map whether it was full.
  · have detached : (r.descriptor i one).list = PageList.detachedCode ↔
        old = r.geometry.fullRecord c :=
      (shown.linked.detached_iff within).trans (sound.unlisted_iff_full within slab)
    simp only [detached]
    split
    · rename_i full
      obtain ⟨after, push, done⟩ := shown.pushFront (hasList_slotOf cls) within
        ((sound.unlisted_iff_full within slab).mpr full)
      refine ⟨after, ?_, done⟩
      simp [slotIndex_eq cls, push]
    · exact ⟨one, rfl, shown⟩

section TakeChunk

variable {size : Nat} {ys : List Nat}

/-- A chunk comes from the first page on the list of its class, and is the
lowest that is free there. -/
theorem Shows.takeChunk_listed (shows_ : r.Shows m t) (sound : t.Sound r)
    (form : c = r.geometry.classFor size) (cls : r.geometry.IsClass c)
    (listed : t.lists (.slot (r.geometry.slotOf c.shift)) = i :: ys) :
    ∃ old k after, t.use i = .slab c old ∧ old ≠ r.geometry.fullRecord c ∧
      r.geometry.LowestFree c old k ∧
      r.takeChunk size m = .ok (some (r.chunkAddress c.shift i k), after) ∧
      r.Shows after (t.occupy r c i (old.insert k)) ∧
      r.KeepsIdle (t.occupy r c i (old.insert k)) m after := by
  have shift : r.geometry.shiftFor size = c.shift := by rw [form]; rfl
  have known := hasList_slotOf cls
  obtain ⟨within, old, slab, room⟩ := sound.first_slot cls listed
  obtain ⟨_, kept⟩ := sound.slab i within c old slab
  obtain ⟨k, found, lowest⟩ := shows_.vacancy?_eq sound within slab room
  have length : old.words.length = (old.insert k).words.length :=
    kept.length.trans (kept.insert cls r.valid lowest.chunk).length.symm
  obtain ⟨after, store, done⟩ := shows_.occupy sound within slab length
  have keeps : r.KeepsIdle (t.occupy r c i (old.insert k)) m after :=
    (occupy_rowOnly store).keepsIdle within (by simp)
  refine ⟨old, k, after, slab, room, lowest, ?_, done, keeps⟩
  have split : t.lists (.slot (r.geometry.slotOf c.shift)) = [] ++ i :: ys := listed
  have search := shows_.linked.searchList_some known split (fun _ none => nomatch none) found
  simp [Region.takeChunk, shift, slotIndex_eq cls, search, store]

/-- Where no page of the class has room, the chunk comes from a free page. -/
theorem Shows.takeChunk_unlisted (shows_ : r.Shows m t)
    (form : c = r.geometry.classFor size) (cls : r.geometry.IsClass c)
    (empty : t.lists (.slot (r.geometry.slotOf c.shift)) = []) :
    r.takeChunk size m = do
      match ← r.takeRun 1 m with
      | (none, m) => return (none, m)
      | (some i, m) =>
        let (chunk, m) ← r.carve c.shift i m
        return (some (r.chunkAddress c.shift i chunk), m) := by
  have shift : r.geometry.shiftFor size = c.shift := by rw [form]; rfl
  have refused : ∀ j ∈ t.lists (.slot (r.geometry.slotOf c.shift)),
      r.vacancy? c.shift m j = .ok none := by
    rw [empty]
    nofun
  have search := shows_.linked.searchList_none (hasList_slotOf cls) refused
  rw [Region.takeChunk, shift, slotIndex_eq cls, ok_bind, search]
  rfl

theorem Shows.takeChunk_fresh (shows_ : r.Shows m t) (sound : t.Sound r)
    (form : c = r.geometry.classFor size) (cls : r.geometry.IsClass c)
    (empty : t.lists (.slot (r.geometry.slotOf c.shift)) = [])
    (free : t.lists .free = i :: ys) :
    ∃ after, r.takeChunk size m =
        .ok (some (r.chunkAddress c.shift i (r.geometry.recordReserved c)), after) ∧
      r.Shows after ((t.takeRun [] i ys 1).carve r c i (r.geometry.firstRecord c)) ∧
      r.KeepsIdle ((t.takeRun [] i ys 1).carve r c i (r.geometry.firstRecord c)) m after := by
  obtain ⟨within, n, positive, run⟩ := sound.first_free free
  have split : t.lists .free = [] ++ i :: ys := free
  have enough : 1 ≤ (t.use i).pages := by rwa [run]
  have distinct := shows_.linked.distinct .free r.hasList_free
  obtain ⟨one, take, shown⟩ := shows_.takeRun_some sound split Nat.one_pos enough
    fun _ none => nomatch none
  have soundOne := sound.takeRun split distinct Nat.one_pos enough
  obtain ⟨after, carved, done, keeps⟩ := shown.carve soundOne within cls
    (sound.unlisted_cutRun split distinct run (by omega) (Nat.le_refl i) (by omega))
  refine ⟨after, ?_, done, ((takeRun_tables take).keepsIdle _).trans keeps⟩
  simp [shows_.takeChunk_unlisted form cls empty, take, carved]

theorem Shows.takeChunk_none (shows_ : r.Shows m t) (sound : t.Sound r)
    (form : c = r.geometry.classFor size) (cls : r.geometry.IsClass c)
    (empty : t.lists (.slot (r.geometry.slotOf c.shift)) = []) (spent : t.lists .free = []) :
    r.takeChunk size m = .ok (none, m) := by
  have none_taken := shows_.takeRun_none (n := 1) sound (by rw [spent]; nofun)
  simp [shows_.takeChunk_unlisted form cls empty, none_taken]

end TakeChunk

section ReturnChunk

variable {offset k : Nat}

theorem returnChunk_misaligned (misaligned : offset % 2 ^ c.shift ≠ 0) :
    r.returnChunk c i offset m = .ok (.error .wrongChunk, m) := by
  rw [returnChunk, if_pos misaligned]
  rfl

/-- The chunks that hold the record of a page are not taken back. -/
theorem returnChunk_reserved (within : i < r.pageCount) (cls : r.geometry.IsClass c)
    (record : k < r.geometry.recordReserved c) :
    r.returnChunk c i (k * 2 ^ c.shift) m = .ok (.error .wrongChunk, m) := by
  rw [returnChunk, if_neg (by rw [Nat.mul_mod_left]; exact not_not.mpr rfl)]
  dsimp only
  rw [Nat.mul_div_cancel _ (Nat.two_pow_pos _)]
  simp [record_eq cls within, record]

theorem Shows.returnChunk_eq (shows_ : r.Shows m t) (sound : t.Sound r)
    (within : i < r.pageCount) (slab : t.use i = .slab c old)
    (caller : r.geometry.recordReserved c ≤ k) (chunk : k < r.geometry.chunks c.shift) :
    r.returnChunk c i (k * 2 ^ c.shift) m =
      match old.release? k with
      | none => return (.error .chunkAlreadyFree, m)
      | some left => do
        let m ← r.settle c i left m
        return (.ok (), m) := by
  obtain ⟨cls, kept⟩ := sound.slab i within c old slab
  rw [returnChunk, if_neg (by rw [Nat.mul_mod_left]; exact not_not.mpr rfl)]
  dsimp only
  rw [Nat.mul_div_cancel _ (Nat.two_pow_pos _), record_eq cls within, ok_bind,
    if_neg (by omega), shows_.recordOf_eq within (sound.spelled within) slab,
    require_of (kept.lt_capacity cls r.valid chunk)]
  rfl

theorem Shows.returnChunk_free (shows_ : r.Shows m t) (sound : t.Sound r)
    (within : i < r.pageCount) (slab : t.use i = .slab c old)
    (caller : r.geometry.recordReserved c ≤ k) (chunk : k < r.geometry.chunks c.shift)
    (missing : old.has k = false) :
    r.returnChunk c i (k * 2 ^ c.shift) m = .ok (.error .chunkAlreadyFree, m) := by
  rw [shows_.returnChunk_eq sound within slab caller chunk, ChunkSet.release?, missing]
  rfl

theorem Shows.returnChunk_taken (shows_ : r.Shows m t) (sound : t.Sound r)
    (within : i < r.pageCount) (slab : t.use i = .slab c old)
    (caller : r.geometry.recordReserved c ≤ k) (has : old.has k = true) :
    ∃ after, r.settle c i (old.erase k) m = .ok after ∧
      r.returnChunk c i (k * 2 ^ c.shift) m = .ok (.ok (), after) ∧
      r.Shows after (t.settle r c i old (old.erase k)) ∧ r.KeepsIdle t m after := by
  obtain ⟨cls, kept⟩ := sound.slab i within c old slab
  have length : old.words.length = (old.erase k).words.length :=
    kept.length.trans (kept.erase caller).length.symm
  obtain ⟨after, store, done⟩ := shows_.settle sound within slab length
  have keeps := (settle_rowOnly store).keepsIdle (t := t) within
    (by rw [slab]; exact Use.length_row_congr length.symm)
  refine ⟨after, store, ?_, done, keeps⟩
  rw [shows_.returnChunk_eq sound within slab caller (kept.within k has), ChunkSet.release?, has,
    if_pos rfl]
  dsimp only
  rw [store, ok_bind]
  rfl

end ReturnChunk

end Region

end SlabAllocator
