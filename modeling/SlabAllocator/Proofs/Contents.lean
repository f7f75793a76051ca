import SlabAllocator.Proofs.Blocks

namespace SlabAllocator

namespace Region

variable {r : Region} {m after : Memory} {t : PageMap}

/-- A byte that neither the tables nor the records of the pages use. -/
def Idle (r : Region) (t : PageMap) (x : Nat) : Prop := ¬r.InTables x ∧ ¬t.InRow r x

/-- What the tables say does not depend on the other bytes. -/
theorem Shows.congr_idle (shows_ : r.Shows m t)
    (same : ∀ x, ¬r.Idle t x → after.byte x = m.byte x) : r.Shows after t :=
  shows_.congr_bytes (fun x tables => same x fun idle => idle.1 tables)
    fun i within _ inside => same _ fun idle =>
      idle.2 ⟨i, within, Nat.le_add_right _ _, Nat.add_lt_add_left inside _⟩

theorem Shows.setByte {x : Nat} (shows_ : r.Shows m t) (idle : r.Idle t x) (value : UInt8) :
    r.Shows (m.setByte x value) t :=
  shows_.congr_idle fun y busy => m.byte_setByte_of_ne value (by rintro rfl; exact busy idle)

theorem Shows.fill {p count : Nat} (shows_ : r.Shows m t)
    (idle : ∀ x, p ≤ x → x < p + count → r.Idle t x) (value : UInt8) :
    r.Shows (m.fill p count value) t :=
  shows_.congr_idle fun x busy => by
    rw [Memory.byte_fill, if_neg fun inside => busy (idle x inside.1 inside.2)]

theorem Shows.write {a width : Nat} (shows_ : r.Shows m t)
    (idle : ∀ x, a ≤ x → x < a + width → r.Idle t x) (value : Nat) :
    r.Shows (m.write a width value) t :=
  shows_.congr_idle fun x busy => m.byte_write_of_outside value (by
    by_contra inside
    exact busy (idle x (by omega) (by omega)))

/-- Two memories agree on the bytes that a map leaves idle. -/
def KeepsIdle (r : Region) (t : PageMap) (m after : Memory) : Prop :=
  ∀ x, r.Idle t x → after.byte x = m.byte x

/-- Two memories agree on the bytes that a map leaves idle, apart from those of
one block. -/
def KeepsBeside (r : Region) (t : PageMap) (p size : Nat) (m after : Memory) : Prop :=
  ∀ x, r.Idle t x → ¬(p ≤ x ∧ x < p + size) → after.byte x = m.byte x

/-- Two memories agree outside the tables and the row that page `i` holds under
a use. -/
def RowOnly (r : Region) (i : Nat) (u : Use) (m after : Memory) : Prop :=
  ∀ x, ¬r.InTables x → ¬(r.pageAddress i ≤ x ∧ x < r.pageAddress i + 8 * u.row.length) →
    after.byte x = m.byte x

section Writes

variable {between : Memory} {c : Carving} {i : Nat} {u : Use} {taken : ChunkSet}

theorem TablesOnly.keepsIdle (only : r.TablesOnly m after) (t : PageMap) : r.KeepsIdle t m after :=
  fun x idle => only x idle.1

theorem KeepsIdle.refl (t : PageMap) (m : Memory) : r.KeepsIdle t m m := fun _ _ => rfl

theorem KeepsIdle.trans (one : r.KeepsIdle t m between) (two : r.KeepsIdle t between after) :
    r.KeepsIdle t m after :=
  fun x idle => (two x idle).trans (one x idle)

theorem RowOnly.before (one : r.TablesOnly m between) (two : r.RowOnly i u between after) :
    r.RowOnly i u m after :=
  fun x table row => (two x table row).trans (one x table)

theorem RowOnly.and_then (one : r.RowOnly i u m between) (two : r.TablesOnly between after) :
    r.RowOnly i u m after :=
  fun x table row => (two x table).trans (one x table row)

/-- A row that the map knows of is not idle. -/
theorem RowOnly.keepsIdle (only : r.RowOnly i u m after) (within : i < r.pageCount)
    (length : u.row.length = (t.use i).row.length) : r.KeepsIdle t m after :=
  fun x idle => only x idle.1 fun inside =>
    idle.2 ⟨i, within, inside.1, by rw [← length]; exact inside.2⟩

/-- Storing a record writes to the tables and to the row that the record takes
up, whatever they hold. -/
theorem setRecord_rowOnly (run : r.setRecord c i taken m = .ok after) :
    r.RowOnly i (.slab c taken) m after := by
  intro x table row
  unfold setRecord at run
  split at run
  · rename_i small
    cases run
    rw [Use.row_small taken small] at row
    exact m.byte_setWords_of_outside taken.words (by omega)
  · exact modifyPage_tables run x table
  · exact modifyPage_tables run x table

theorem occupy_rowOnly (run : r.occupy c i taken m = .ok after) :
    r.RowOnly i (.slab c taken) m after := by
  obtain ⟨one, store, run⟩ := answer_of_bind run
  split at run
  · exact (setRecord_rowOnly store).and_then (detach_links run).1
  · cases run
    exact setRecord_rowOnly store

/-- The record is stored first; what follows writes to the tables alone. -/
theorem settle_stores (run : r.settle c i taken m = .ok after) :
    ∃ one, r.setRecord c i taken m = .ok one ∧ r.TablesOnly one after := by
  obtain ⟨one, store, run⟩ := answer_of_bind run
  refine ⟨one, store, ?_⟩
  split at run
  · exact returnRun_tables run
  · split at run
    · obtain ⟨slot, _, run⟩ := answer_of_bind run
      exact (pushFront_links run).1
    · cases run
      exact .refl after

theorem settle_rowOnly (run : r.settle c i taken m = .ok after) :
    r.RowOnly i (.slab c taken) m after := by
  obtain ⟨one, store, only⟩ := settle_stores run
  exact (setRecord_rowOnly store).and_then only

/-- A record of small chunks is in its row afterwards, even if the page is no
longer cut. -/
theorem settle_words (run : r.settle c i taken m = .ok after) (small : c.kind = .small) :
    after.words (r.pageAddress i) taken.words.length = taken.words := by
  obtain ⟨one, store, only⟩ := settle_stores run
  rw [setRecord, small] at store
  cases store
  rw [only.words_eq, m.words_setWords]

theorem markCarved_tables (run : r.markCarved c i m = .ok after) : r.TablesOnly m after := by
  unfold markCarved at run
  split at run
  · exact modifyPage_tables run
  · cases run
    exact .refl m
  · cases run
    exact .refl m

theorem carve_rowOnly {shift chunk : Nat} (run : r.carve shift i m = .ok (chunk, after)) :
    r.RowOnly i (.slab (r.geometry.carving shift) (r.firstChunk (r.geometry.carving shift)).2)
      m after := by
  obtain ⟨_, _, run⟩ := answer_of_bind run
  obtain ⟨one, marked, run⟩ := answer_of_bind run
  obtain ⟨two, store, run⟩ := answer_of_bind run
  obtain ⟨slot, _, run⟩ := answer_of_bind run
  obtain ⟨three, push, run⟩ := answer_of_bind run
  cases run
  exact ((setRecord_rowOnly store).before (markCarved_tables marked)).and_then (pushFront_links push).1

end Writes

theorem idle_of_holds {p size x : Nat} (sound : t.Sound r) (holds : t.Holds r p size)
    (lower : p ≤ x) (upper : x < p + size) : r.Idle t x := by
  have bounds := sound.bounds holds
  exact ⟨r.not_inTables_of_start_le (by omega), sound.not_inRow holds lower upper⟩

/-- The slot table starts behind the header. -/
theorem header_le_slots (r : Region) : r.base + Layout.headerSize ≤ r.base + r.layout.slotsAt := by
  obtain ⟨_, _, layout⟩ := Layout.plan_eq_ok_iff.mp r.planned
  rw [layout]

theorem header_le_start (r : Region) : r.base + Layout.headerSize ≤ r.start := by
  have slots := r.header_le_slots
  have heads := Layout.heads_fit r.planned
  have tables := Layout.descriptors_fit r.planned
  unfold start
  omega

/-- The bytes of the header other than the link to the first free run are
idle. -/
theorem idle_of_header {x : Nat} (upper : x < r.base + Layout.headerSize)
    (other : x < r.base + Header.freeAt ∨ r.base + Header.freeAt + 4 ≤ x) : r.Idle t x := by
  have slots := r.header_le_slots
  have heads := Layout.heads_fit r.planned
  constructor
  · rintro (⟨list, known, left, right⟩ | ⟨i, within, left, right⟩)
    · cases list with
      | free =>
        simp only [headAddress] at left right
        omega
      | slot s =>
        simp only [headAddress] at left
        omega
    · have bounds := r.descriptorAddress_bounds within
      omega
  · rintro ⟨i, within, left, right⟩
    have first := r.start_le_pageAddress i
    have start := r.header_le_start
    omega

theorem Shows.setLockWord (shows_ : r.Shows m t) (word : UInt32) :
    r.Shows (r.setLockWord word m) t :=
  shows_.write (fun x lower upper => by
    unfold Header.lockAt at lower upper
    exact idle_of_header (by unfold Layout.headerSize; omega)
      (Or.inl (by unfold Header.freeAt; omega))) _

theorem Shows.setUserData (shows_ : r.Shows m t) (data : Nat) :
    r.Shows (r.setUserData data m) t :=
  shows_.write (fun x lower upper => by
    unfold Header.userDataAt at lower upper
    exact idle_of_header (by unfold Layout.headerSize; omega)
      (Or.inr (by unfold Header.freeAt; omega))) _

end Region

end SlabAllocator
