import SlabAllocator.Proofs.Encoding
import SlabAllocator.Proofs.Frame
import SlabAllocator.Proofs.Linked
import SlabAllocator.Proofs.Taken

namespace SlabAllocator

/-- What a page is used for. The pages of a segment after its first one count
as `free 0` in a free run and as `interior` in an allocated one. -/
inductive Use where
  | free (length : Nat)
  | run (length : Nat)
  | interior
  | slab (carving : Carving) (taken : ChunkSet)
  deriving DecidableEq, Repr

namespace Use

/-- The length of the segment that starts at the page; zero within one. -/
def pages : Use → Nat
  | free n => n
  | run n => n
  | interior => 0
  | slab _ _ => 1

/-- What the later pages of the segment are used for. -/
def later : Use → Use
  | free _ => free 0
  | _ => interior

/-- The descriptor of a page on no list. -/
def descriptor : Use → Descriptor
  | free n => Descriptor.blank.asFreeRun n
  | run n => Descriptor.blank.asRun n
  | interior => Descriptor.blank.asInterior
  | slab c taken =>
    match c.kind with
    | .small => Descriptor.blank.asSmall c.shift
    | .exact => Descriptor.blank.asExact (taken.words.headD 0)
    | .big => Descriptor.blank.asBig c.shift (taken.words.headD 0)

/-- The words of its record that a page holds itself. -/
def row : Use → List Word
  | slab ⟨.small, _⟩ taken => taken.words
  | _ => []

/-- What the descriptor of the page is read as. -/
def role : Use → Role
  | free n => .free n
  | run n => .run n
  | interior => .interior
  | slab c taken =>
    match c.kind with
    | .small => .small c.shift
    | .exact => .exact (taken.words.headD 0)
    | .big => .big c.shift (taken.words.headD 0)

/-- The descriptor of a page tells nothing of its use but the role. -/
theorem descriptor_eq_asRole (u : Use) : u.descriptor = Descriptor.blank.asRole u.role := by
  rcases u with n | n | _ | ⟨⟨kind, shift⟩, taken⟩
  · rfl
  · rfl
  · rfl
  · cases kind <;> rfl

@[simp] theorem pages_free (n : Nat) : (free n).pages = n := rfl

@[simp] theorem pages_run (n : Nat) : (run n).pages = n := rfl

@[simp] theorem pages_slab (c : Carving) (taken : ChunkSet) : (slab c taken).pages = 1 := rfl

@[simp] theorem pages_later (u : Use) : u.later.pages = 0 := by
  cases u <;> rfl

@[simp] theorem row_small (taken : ChunkSet) {c : Carving} (kind : c.kind = .small) :
    (slab c taken).row = taken.words := by
  obtain ⟨_, shift⟩ := c
  cases kind
  rfl

theorem row_not_small (taken : ChunkSet) {c : Carving} (other : c.kind ≠ .small) :
    (slab c taken).row = [] := by
  obtain ⟨kind, shift⟩ := c
  cases kind with
  | small => exact absurd rfl other
  | exact => rfl
  | big => rfl

/-- Records of as many words take up as much of their page. -/
theorem length_row_congr {c : Carving} {old taken : ChunkSet}
    (length : old.words.length = taken.words.length) :
    (slab c old).row.length = (slab c taken).row.length := by
  by_cases small : c.kind = .small
  · rw [row_small old small, row_small taken small, length]
  · rw [row_not_small old small, row_not_small taken small]

@[simp] theorem row_later (u : Use) : u.later.row = [] := by
  cases u <;> rfl

@[simp] theorem loose_descriptor (u : Use) : u.descriptor.Loose := by
  rcases u with n | n | _ | ⟨⟨kind, shift⟩, taken⟩
  · exact ⟨rfl, rfl, rfl⟩
  · exact ⟨rfl, rfl, rfl⟩
  · exact ⟨rfl, rfl, rfl⟩
  · cases kind <;> exact ⟨rfl, rfl, rfl⟩

@[simp] theorem spare_descriptor (u : Use) : u.descriptor.spare = 0 := by
  rcases u with n | n | _ | ⟨⟨kind, shift⟩, taken⟩
  · rfl
  · rfl
  · rfl
  · cases kind <;> rfl

section

variable {d : Descriptor} {c : Carving}

/-- A page that is given the role of a use is described as in that use. -/
theorem detached_asRole (u : Use) (spare : d.spare = 0) :
    (d.asRole u.role).detached = u.descriptor := by
  rw [Descriptor.detached_asRole_congr u.role (show d.spare = Descriptor.blank.spare from spare),
    ← descriptor_eq_asRole, (loose_descriptor u).detached_eq]

theorem detached_asFreeRun (n : Nat) (spare : d.spare = 0) :
    (d.asFreeRun n).detached = (free n).descriptor :=
  detached_asRole (.free n) spare

theorem asRun_eq (n : Nat) (spare : d.spare = 0) : d.asRun n = (run n).descriptor :=
  detached_asRole (.run n) spare

theorem asInterior_eq (spare : d.spare = 0) : d.asInterior = interior.descriptor :=
  detached_asRole .interior spare

theorem detached_asSmall (taken : ChunkSet) (spare : d.spare = 0) (kind : c.kind = .small) :
    (d.asSmall c.shift).detached = (slab c taken).descriptor := by
  have given := detached_asRole (.slab c taken) spare
  rwa [role, kind] at given

theorem detached_asExact (taken : ChunkSet) (spare : d.spare = 0) (kind : c.kind = .exact) :
    (d.asExact (taken.words.headD 0)).detached = (slab c taken).descriptor := by
  have given := detached_asRole (.slab c taken) spare
  rwa [role, kind] at given

theorem detached_asBig (taken : ChunkSet) (spare : d.spare = 0) (kind : c.kind = .big) :
    (d.asBig c.shift (taken.words.headD 0)).detached = (slab c taken).descriptor := by
  have given := detached_asRole (.slab c taken) spare
  rwa [role, kind] at given

end

end Use

/-- What every page of a pool is used for, and which pages are on each list. -/
structure PageMap where
  use : Nat → Use
  lists : PageList → List Nat

namespace PageMap

/-- The map with another use of `count` pages from `first` on. -/
def assign (t : PageMap) (first count : Nat) (u : Use) : PageMap :=
  { t with use := fun j => if first ≤ j ∧ j < first + count then u else t.use j }

/-- The map with the pages of a list replaced. -/
def relist (t : PageMap) (list : PageList) (pages : List Nat) : PageMap :=
  { t with lists := Function.update t.lists list pages }

theorem assign_assign (t : PageMap) (i : Nat) (u v : Use) :
    (t.assign i 1 u).assign i 1 v = t.assign i 1 v := by
  simp only [assign, PageMap.mk.injEq, and_true]
  funext j
  split <;> rfl

/-- The map with another use of the segment that starts at page `i`. -/
def convert (t : PageMap) (i : Nat) (u : Use) : PageMap :=
  (t.assign i 1 u).assign (i + 1) (u.pages - 1) u.later

/-- The map with a page taken off the list that it is on, if any. -/
def unlist (t : PageMap) (i : Nat) : PageMap :=
  { t with lists := fun list => (t.lists list).erase i }

/-- The map with a page put at the front of a list. -/
def push (t : PageMap) (list : PageList) (i : Nat) : PageMap :=
  t.relist list (i :: t.lists list)

@[simp] theorem use_assign_self (t : PageMap) (i : Nat) (u : Use) : (t.assign i 1 u).use i = u :=
  if_pos (by omega)

@[simp] theorem use_assign_of_ne (t : PageMap) {i j : Nat} (u : Use) (other : j ≠ i) :
    (t.assign i 1 u).use j = t.use j :=
  if_neg (by omega)

@[simp] theorem use_convert_self (t : PageMap) (i : Nat) (u : Use) : (t.convert i u).use i = u := by
  simp [convert, assign]

theorem use_convert_later (t : PageMap) {i j : Nat} {u : Use} (after : i < j)
    (before : j < i + u.pages) : (t.convert i u).use j = u.later :=
  if_pos (by omega)

theorem use_convert_of_outside (t : PageMap) {i j : Nat} {u : Use} (other : j ≠ i)
    (outside : ¬(i < j ∧ j < i + u.pages)) : (t.convert i u).use j = t.use j := by
  rw [convert, assign]
  dsimp only
  rw [if_neg (by omega), use_assign_of_ne t u other]

@[simp] theorem lists_relist_self (t : PageMap) (list : PageList) (pages : List Nat) :
    (t.relist list pages).lists list = pages := by
  simp [relist]

@[simp] theorem lists_relist_of_ne (t : PageMap) {list other : PageList} (pages : List Nat)
    (different : other ≠ list) : (t.relist list pages).lists other = t.lists other := by
  simp [relist, different]

end PageMap

namespace Region

/-- The tables in memory say what a page map says: each list, the descriptor of
each page, and the row of words that a page of small chunks holds. -/
structure Shows (r : Region) (m : Memory) (t : PageMap) : Prop where
  linked : r.Linked m t.lists
  descriptor : ∀ i < r.pageCount, (r.descriptor i m).detached = (t.use i).descriptor
  row : ∀ i < r.pageCount, m.words (r.pageAddress i) (t.use i).row.length = (t.use i).row

variable {r : Region} {m after : Memory} {t : PageMap} {i : Nat}

theorem start_le_pageAddress (r : Region) (i : Nat) : r.start ≤ r.pageAddress i :=
  Nat.le_add_right _ _

theorem pageAddress_apart (r : Region) {i j : Nat} (different : i ≠ j) :
    r.pageAddress i + r.pageSize ≤ r.pageAddress j ∨
      r.pageAddress j + r.pageSize ≤ r.pageAddress i := by
  unfold pageAddress
  rcases Nat.lt_or_gt_of_ne different with before | before
  · have := Nat.mul_le_mul_right r.pageSize (show i + 1 ≤ j from before)
    rw [Nat.add_mul] at this
    omega
  · have := Nat.mul_le_mul_right r.pageSize (show j + 1 ≤ i from before)
    rw [Nat.add_mul] at this
    omega

/-- Rows lie among the pages, which the tables do not reach. -/
theorem TablesOnly.words_eq (tables : r.TablesOnly m after) (i count : Nat) :
    after.words (r.pageAddress i) count = m.words (r.pageAddress i) count :=
  Memory.words_congr fun k _ => tables _ (r.not_inTables_of_start_le (by
    have := r.start_le_pageAddress i
    omega))

theorem Shows.descriptor_unlisted (shows_ : r.Shows m t) (within : i < r.pageCount)
    (unlisted : ∀ list, r.HasList list → i ∉ t.lists list) :
    r.descriptor i m = (t.use i).descriptor := by
  rw [← shows_.descriptor i within]
  exact (shows_.linked.loose i within unlisted).detached_eq.symm

theorem Shows.spare_eq (shows_ : r.Shows m t) (within : i < r.pageCount) :
    (r.descriptor i m).spare = 0 := by
  simpa [Descriptor.detached] using congrArg Descriptor.spare (shows_.descriptor i within)

theorem SameTables.linked {lists : PageList → List Nat} (same : r.SameTables m after)
    (linked : r.Linked m lists) : r.Linked after lists :=
  linked.congr_place (fun _ known => same.headOf_eq known) fun i within => by
    rw [same.descriptor_eq within]
    exact ⟨rfl, rfl, rfl⟩

/-- Only the bytes of the tables and of the rows count. -/
theorem Shows.congr_bytes (shows_ : r.Shows m t) (same : r.SameTables m after)
    (rows : ∀ i < r.pageCount, ∀ k < 8 * (t.use i).row.length,
      after.byte (r.pageAddress i + k) = m.byte (r.pageAddress i + k)) : r.Shows after t where
  linked := same.linked shows_.linked
  descriptor i within := by rw [same.descriptor_eq within, shows_.descriptor i within]
  row i within := (Memory.words_congr (rows i within)).trans (shows_.row i within)

/-- Where the rows lie within their pages, the row of a page of small chunks
may be replaced. -/
theorem Shows.setWords {c : Carving} {old taken : ChunkSet} (shows_ : r.Shows m t)
    (within : i < r.pageCount) (small : c.kind = .small) (slab : t.use i = .slab c old)
    (length : old.words.length = taken.words.length)
    (rows : ∀ j < r.pageCount, 8 * (t.use j).row.length ≤ r.pageSize) :
    r.Shows (m.setWords (r.pageAddress i) taken.words) (t.assign i 1 (.slab c taken)) := by
  have inside := rows i within
  rw [slab, Use.row_small old small, length] at inside
  -- The words end within the page, behind the tables and clear of every other page.
  have same : r.SameTables m (m.setWords (r.pageAddress i) taken.words) := fun x tables => by
    apply Memory.byte_setWords_of_outside
    have data := r.start_le_pageAddress i
    by_contra
    exact r.not_inTables_of_start_le (show r.start ≤ x by omega) tables
  refine ⟨same.linked shows_.linked, fun j known => ?_, fun j known => ?_⟩
  · rw [same.descriptor_eq known, shows_.descriptor j known]
    by_cases here : j = i
    · simp [here, slab, Use.descriptor, small]
    · simp [here]
  · by_cases here : j = i
    · simp [here, small]
    · rw [PageMap.use_assign_of_ne t _ here, ← shows_.row j known]
      have other := rows j known
      have apart := r.pageAddress_apart here
      rw [Memory.length_words]
      exact Memory.words_congr fun k reach => Memory.byte_setWords_of_outside m _ (by omega)

theorem Shows.relink {lists : PageList → List Nat} (shows_ : r.Shows m t)
    (links : r.LinksOnly m after) (linked : r.Linked after lists) :
    r.Shows after { t with lists } where
  linked := linked
  descriptor i within := (links.2 i).trans (shows_.descriptor i within)
  row i within := (links.1.words_eq i _).trans (shows_.row i within)

/-- A descriptor that keeps its place in the lists gives its page another
use. -/
theorem Shows.modifyPage (change : Descriptor → Descriptor) (u : Use) (shows_ : r.Shows m t)
    (within : i < r.pageCount) (place : (change (r.descriptor i m)).SamePlace (r.descriptor i m))
    (spells : (change (r.descriptor i m)).detached = u.descriptor)
    (row : m.words (r.pageAddress i) u.row.length = u.row) :
    ∃ after, r.modifyPage i change m = .ok after ∧ r.Shows after (t.assign i 1 u) := by
  have run := r.modifyPage_eq change m within
  have tables := modifyPage_tables run
  refine ⟨_, run, ?_, fun j inside => ?_, fun j inside => ?_⟩
  · refine shows_.linked.congr_place (fun list known => r.headOf_putDescriptor _ m known) fun j _ => ?_
    rw [descriptor_putDescriptor]
    split
    · rename_i same
      rw [same]
      exact place
    · exact ⟨rfl, rfl, rfl⟩
  · by_cases same : j = i
    · simp [same, spells]
    · simp [same, shows_.descriptor j inside]
  · rw [tables.words_eq]
    by_cases same : j = i
    · simp [same, row]
    · simp [same, shows_.row j inside]

end Region

end SlabAllocator
