import SlabAllocator.Descriptor.Role
import SlabAllocator.Proofs.Classes

namespace SlabAllocator

/-- The roles that descriptors tell apart under a geometry. A run is no longer
than a pool can be, chunks are of the size classes, and the record in a status
word has no bit beyond the last chunk of the page. -/
def Geometry.Stores (g : Geometry) : Role → Prop
  | .free pages | .run pages => pages ≤ Layout.maxPages
  | .interior | .exact _ => True
  | .small shift => g.minShift ≤ shift ∧ shift < g.exactShift
  | .big shift map =>
    g.minShift ≤ shift ∧ g.exactShift < shift ∧ shift < g.pageShift ∧
      map.toNat < 2 ^ g.chunks shift

/-- The pages of an allocated run, the first one and the later ones. -/
def Role.InRun : Role → Prop
  | .run _ | .interior => True
  | .free _ | .small _ | .exact _ | .big _ _ => False

namespace Descriptor

/-- The descriptor of a page that is given a role. -/
def asRole (d : Descriptor) : Role → Descriptor
  | .free pages => d.asFreeRun pages
  | .run pages => d.asRun pages
  | .interior => d.asInterior
  | .small shift => d.asSmall shift
  | .exact map => d.asExact map
  | .big shift map => d.asBig shift map

variable {g : Geometry} {d e : Descriptor} {role : Role}

/-- A page that does not become part of an allocated run keeps its place in the
lists. -/
theorem samePlace_asRole (d : Descriptor) (other : ¬role.InRun) : (d.asRole role).SamePlace d := by
  cases role with
  | run | interior => exact absurd trivial other
  | free | small | exact | big => exact ⟨rfl, rfl, rfl⟩

theorem loose_asRole (d : Descriptor) (inRun : role.InRun) : (d.asRole role).Loose := by
  cases role with
  | run | interior => exact ⟨rfl, rfl, rfl⟩
  | free | small | exact | big => exact False.elim inRun

@[simp] theorem spare_asRole (d : Descriptor) (role : Role) : (d.asRole role).spare = d.spare := by
  cases role <;> rfl

/-- What a descriptor says of its page once it is given a role does not depend
on what it said before. -/
theorem detached_asRole_congr (role : Role) (spare : d.spare = e.spare) :
    (d.asRole role).detached = (e.asRole role).detached := by
  obtain ⟨_, _, _, _, _, _⟩ := d
  obtain ⟨_, _, _, _, _, _⟩ := e
  cases spare
  cases role <;> rfl

/-- A role is read back. A run is too short for the mark of a later page, and a
page of big chunks has so few of them that its record fits above the chunk
size. -/
theorem role_asRole (d : Descriptor) (valid : g.Valid) (stores : g.Stores role) :
    (d.asRole role).role = role := by
  obtain ⟨_, most, _, _⟩ := valid
  cases role with
  | free pages =>
    have length : pages ≤ 2 ^ 32 - 2 := stores
    exact role_asFreeRun d (by omega)
  | run pages =>
    have length : pages ≤ 2 ^ 32 - 2 := stores
    exact role_asRun d (by omega)
  | interior => exact role_asInterior d
  | small shift =>
    obtain ⟨_, small⟩ := stores
    unfold Geometry.exactShift at small
    exact role_asSmall d (by omega)
  | exact map => exact role_asExact d map
  | big shift map =>
    obtain ⟨_, large, upper, within⟩ := stores
    have few := Nat.pow_le_pow_right Nat.two_pos (Geometry.chunks_le_of_exactShift_lt large)
    exact role_asBig d (by omega) (Nat.lt_of_lt_of_le within few)

/-- Descriptors of one kind and one status word were given the same role. -/
theorem asRole_inj {one two : Role} (valid : g.Valid) (first : g.Stores one)
    (second : g.Stores two) (kind : (d.asRole one).pageKind = (e.asRole two).pageKind)
    (word : (d.asRole one).word = (e.asRole two).word) : one = two :=
  calc
    one = (d.asRole one).role := (role_asRole d valid first).symm
    _ = (e.asRole two).role := role_eq_of_pageKind word kind
    _ = two := role_asRole e valid second

/-- Where a descriptor spells a role and nothing else, giving it that role again
changes nothing. -/
theorem asRole_eq_self (spells : d.detached = (blank.asRole role).detached)
    (loose : role.InRun → d.Loose) : d.asRole role = d := by
  have spare : d.spare = blank.spare :=
    (congrArg Descriptor.spare spells).trans (spare_asRole blank role)
  have status : (d.asRole role).detached = d.detached :=
    (detached_asRole_congr role spare).trans spells.symm
  by_cases inRun : role.InRun
  · rw [← (loose_asRole d inRun).detached_eq, status, (loose inRun).detached_eq]
  · exact eq_of_samePlace status (samePlace_asRole d inRun)

end Descriptor

end SlabAllocator
