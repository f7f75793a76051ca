import SlabAllocator.Proofs.Strung
import SlabAllocator.Region.PageRun

namespace SlabAllocator

namespace Region

variable (r : Region)

/-- The bytes of the list heads and of the descriptors. -/
def InTables (x : Nat) : Prop :=
  (∃ list, r.HasList list ∧ r.headAddress list ≤ x ∧ x < r.headAddress list + 4) ∨
    ∃ i < r.pageCount, r.descriptorAddress i ≤ x ∧ x < r.descriptorAddress i + 20

/-- Two memories agree outside the tables. -/
def TablesOnly (m after : Memory) : Prop := ∀ x, ¬r.InTables x → after.byte x = m.byte x

/-- Two memories agree outside the tables, and what the tables say of the pages
differs in their places in the lists alone. -/
def LinksOnly (m after : Memory) : Prop :=
  r.TablesOnly m after ∧ ∀ j, (r.descriptor j after).detached = (r.descriptor j m).detached

theorem not_inTables_of_start_le {x : Nat} (data : r.start ≤ x) : ¬r.InTables x := by
  rintro (⟨list, known, lower, upper⟩ | ⟨i, within, lower, upper⟩)
  · have bounds := r.headAddress_bounds known
    have fit := Layout.descriptors_fit r.planned
    unfold start at data
    omega
  · have bounds := r.descriptorAddress_bounds within
    omega

/-- Two memories agree on the tables. -/
def SameTables (m after : Memory) : Prop := ∀ x, r.InTables x → after.byte x = m.byte x

variable {r} {m between after : Memory} {list : PageList} {i : Nat}

theorem SameTables.headOf_eq (same : r.SameTables m after) (known : r.HasList list) :
    r.headOf list after = r.headOf list m := by
  rw [headOf, headOf]
  congr 2
  exact Memory.read_congr fun k within => same _ (Or.inl ⟨list, known, by omega, by omega⟩)

theorem SameTables.descriptor_eq (same : r.SameTables m after) (within : i < r.pageCount) :
    r.descriptor i after = r.descriptor i m :=
  Memory.descriptor_congr fun k inside => same _ (Or.inr ⟨i, within, by omega, by omega⟩)

theorem TablesOnly.refl (m : Memory) : r.TablesOnly m m := fun _ _ => rfl

theorem TablesOnly.trans (one : r.TablesOnly m between) (two : r.TablesOnly between after) :
    r.TablesOnly m after :=
  fun x outside => (two x outside).trans (one x outside)

theorem LinksOnly.refl (m : Memory) : r.LinksOnly m m := ⟨.refl m, fun _ => rfl⟩

theorem LinksOnly.trans (one : r.LinksOnly m between) (two : r.LinksOnly between after) :
    r.LinksOnly m after :=
  ⟨one.1.trans two.1, fun j => (two.2 j).trans (one.2 j)⟩

theorem modifyPage_ok {change : Descriptor → Descriptor}
    (run : r.modifyPage i change m = .ok after) :
    i < r.pageCount ∧ after = r.putDescriptor i (change (r.descriptor i m)) m := by
  by_cases within : i < r.pageCount
  · rw [r.modifyPage_eq change m within] at run
    exact ⟨within, (Except.ok.inj run).symm⟩
  · rw [modifyPage, page, require, if_neg within] at run
    cases run

theorem modifyPage_tables {change : Descriptor → Descriptor}
    (run : r.modifyPage i change m = .ok after) : r.TablesOnly m after := by
  obtain ⟨within, rfl⟩ := modifyPage_ok run
  intro x outside
  apply r.byte_putDescriptor
  by_contra inside
  exact outside (Or.inr ⟨i, within, by omega, by omega⟩)

/-- A change of a descriptor that keeps all but its place in a list. -/
theorem modifyPage_links {change : Descriptor → Descriptor}
    (run : r.modifyPage i change m = .ok after) (kept : ∀ d, (change d).detached = d.detached) :
    r.LinksOnly m after := by
  refine ⟨modifyPage_tables run, fun j => ?_⟩
  obtain ⟨_, rfl⟩ := modifyPage_ok run
  rw [descriptor_putDescriptor]
  split
  · rename_i same
    rw [kept, same]
  · rfl

theorem setHead_links {link : Link} (run : r.setHead list link m = .ok after) :
    r.LinksOnly m after := by
  obtain ⟨_, held, run⟩ := answer_of_bind run
  have known : r.HasList list := of_require held
  cases run
  constructor
  · intro x outside
    apply r.byte_putHead
    by_contra inside
    exact outside (Or.inl ⟨list, known, by omega, by omega⟩)
  · intro j
    simp [known]

theorem setNextAfter_links {prev link : Link} (run : r.setNextAfter list prev link m = .ok after) :
    r.LinksOnly m after := by
  unfold setNextAfter at run
  split at run
  · exact setHead_links run
  · exact modifyPage_links run fun _ => rfl

theorem setPrevBefore_links {next link : Link} (run : r.setPrevBefore next link m = .ok after) :
    r.LinksOnly m after := by
  unfold setPrevBefore at run
  split at run
  · cases run
    exact .refl m
  · exact modifyPage_links run fun _ => rfl

theorem pushFront_links (run : r.pushFront list i m = .ok after) : r.LinksOnly m after := by
  obtain ⟨first, _, run⟩ := answer_of_bind run
  obtain ⟨link, _, run⟩ := answer_of_bind run
  obtain ⟨one, changed, run⟩ := answer_of_bind run
  obtain ⟨two, joined, run⟩ := answer_of_bind run
  have begin : r.LinksOnly m one := modifyPage_links changed fun _ => rfl
  exact (begin.trans (setPrevBefore_links joined)).trans (setHead_links run)

theorem detach_links (run : r.detach i m = .ok after) : r.LinksOnly m after := by
  obtain ⟨d, _, run⟩ := answer_of_bind run
  split at run
  · cases run
    exact .refl m
  · obtain ⟨one, left, run⟩ := answer_of_bind run
    obtain ⟨two, right, run⟩ := answer_of_bind run
    have parts := (setNextAfter_links left).trans (setPrevBefore_links right)
    exact parts.trans (modifyPage_links run fun _ => rfl)

theorem substitute_links {old new : Nat} (run : r.substitute old new m = .ok after) :
    r.LinksOnly m after := by
  obtain ⟨d, _, run⟩ := answer_of_bind run
  split at run
  · cases run
  · obtain ⟨link, _, run⟩ := answer_of_bind run
    obtain ⟨zero, placed, run⟩ := answer_of_bind run
    obtain ⟨one, left, run⟩ := answer_of_bind run
    obtain ⟨two, right, run⟩ := answer_of_bind run
    have begin : r.LinksOnly m zero := modifyPage_links placed fun _ => rfl
    have parts := (begin.trans (setNextAfter_links left)).trans (setPrevBefore_links right)
    exact parts.trans (modifyPage_links run fun _ => rfl)

theorem modifyPages_tables {change : Descriptor → Descriptor} {count : Nat}
    (run : r.modifyPages i change count m = .ok after) : r.TablesOnly m after := by
  induction count generalizing i m with
  | zero =>
    cases run
    exact .refl _
  | succ count ih =>
    obtain ⟨one, first, run⟩ := answer_of_bind run
    exact (modifyPage_tables first).trans (ih run)

theorem cutRun_tables {run n : Nat} (ran : r.cutRun i run n m = .ok after) :
    r.TablesOnly m after := by
  unfold cutRun at ran
  split at ran
  · obtain ⟨one, first, ran⟩ := answer_of_bind ran
    exact (modifyPage_tables first).trans (substitute_links ran).1
  · exact (detach_links ran).1

theorem markRun_tables {n : Nat} (run : r.markRun i n m = .ok after) : r.TablesOnly m after := by
  obtain ⟨one, first, run⟩ := answer_of_bind run
  obtain ⟨_, _, run⟩ := answer_of_bind run
  exact (modifyPage_tables first).trans (modifyPages_tables run)

/-- Allocating pages writes to the tables alone, whatever they hold. -/
theorem takeRun_tables {n : Nat} {found : Option Nat} (run : r.takeRun n m = .ok (found, after)) :
    r.TablesOnly m after := by
  obtain ⟨place, _, run⟩ := answer_of_bind run
  split at run
  · cases run
    exact .refl m
  · obtain ⟨one, first, run⟩ := answer_of_bind run
    obtain ⟨two, second, run⟩ := answer_of_bind run
    cases run
    exact (cutRun_tables first).trans (markRun_tables second)

/-- Taking pages back writes to the tables alone, whatever they hold. -/
theorem returnRun_tables {n : Nat} (run : r.returnRun i n m = .ok after) :
    r.TablesOnly m after := by
  obtain ⟨one, first, run⟩ := answer_of_bind run
  obtain ⟨_, _, run⟩ := answer_of_bind run
  obtain ⟨two, second, run⟩ := answer_of_bind run
  obtain ⟨three, third, run⟩ := answer_of_bind run
  have begin := (detach_links first).1.trans (modifyPages_tables second)
  exact (begin.trans (modifyPage_tables third)).trans (pushFront_links run).1

end Region

end SlabAllocator
