import SlabAllocator.Proofs.History

namespace SlabAllocator

/-- The page table loses nothing of the roles that a geometry has: each is read
back from the descriptor that was given it, and no two of them share a kind and
a status word. Among the roles only those of an allocated run take a page off its
list, and the other pages and the list heads do not change with it. -/
structure Geometry.KeepsRoles (g : Geometry) : Prop where
  readBack : ∀ role, g.Stores role → ∀ d : Descriptor, (d.asRole role).role = role
  distinct : ∀ one two, g.Stores one → g.Stores two → one ≠ two → ∀ d e : Descriptor,
    ((d.asRole one).pageKind, (d.asRole one).word) ≠ ((e.asRole two).pageKind, (e.asRole two).word)
  place : ∀ role, ¬role.InRun → ∀ d : Descriptor, (d.asRole role).SamePlace d
  loose : ∀ role, role.InRun → ∀ d : Descriptor, (d.asRole role).Loose
  table : ∀ (r : Region) (m : Memory), r.geometry = g → ∀ i < r.pageCount, ∀ role, g.Stores role →
    ∃ after, r.modifyPage i (fun d => d.asRole role) m = .ok after ∧
      (r.descriptor i after).role = role ∧
      (∀ j, j ≠ i → r.descriptor j after = r.descriptor j m) ∧
      ∀ list, r.HasList list → r.headOf list after = r.headOf list m

namespace Geometry.Valid

variable {g : Geometry}

theorem keepsRoles (valid : g.Valid) : g.KeepsRoles where
  readBack _ stores d := d.role_asRole valid stores
  distinct one two first second different d e same := by
    obtain ⟨kind, word⟩ := Prod.mk.inj same
    exact different (Descriptor.asRole_inj valid first second kind word)
  place _ other d := d.samePlace_asRole other
  loose _ inRun d := d.loose_asRole inRun
  table r m geometry i within role stores := by
    refine ⟨_, r.modifyPage_eq (fun d => d.asRole role) m within, ?_, fun j other => ?_,
      fun list known => ?_⟩
    · simp [Descriptor.role_asRole _ valid stores]
    · simp [other]
    · simp [known]

end Geometry.Valid

theorem Use.not_inRun_slab (c : Carving) (taken : ChunkSet) : ¬(slab c taken).role.InRun := by
  obtain ⟨kind, shift⟩ := c
  cases kind <;> exact id

namespace Region.Shows

variable {r : Region} {m : Memory} {t : PageMap} {i : Nat}

theorem stores_role (shows_ : r.Shows m t) (sound : t.Sound r) (within : i < r.pageCount) :
    r.geometry.Stores (r.descriptor i m).role := by
  have spelled := sound.spelled within
  rw [shows_.role_eq within spelled]
  exact Use.stores_role spelled

theorem loose_of_inRun (shows_ : r.Shows m t) (sound : t.Sound r) (within : i < r.pageCount)
    (inRun : (r.descriptor i m).role.InRun) : (r.descriptor i m).Loose := by
  rw [shows_.role_eq within (sound.spelled within)] at inRun
  refine shows_.linked.loose i within (sound.unlisted (fun n _ same => ?_) fun c taken same => ?_)
  · rw [same] at inRun
    exact inRun
  · rw [same] at inRun
    exact absurd inRun (Use.not_inRun_slab c taken)

/-- Besides its place in the lists, a descriptor spells its role and nothing else. -/
theorem asRole_role (shows_ : r.Shows m t) (sound : t.Sound r) (within : i < r.pageCount) :
    (r.descriptor i m).asRole (r.descriptor i m).role = r.descriptor i m := by
  refine Descriptor.asRole_eq_self ?_ (shows_.loose_of_inRun sound within)
  rw [shows_.descriptor i within, shows_.role_eq within (sound.spelled within),
    ← Use.descriptor_eq_asRole, (Use.loose_descriptor _).detached_eq]

end Region.Shows

/-- Under every geometry that a pool may have, the page table loses nothing of
the roles that pages are given. In every state that a pool of that geometry can
get into, all its pages have such roles, and their descriptors are the ones that
giving them these roles makes: role and place in the lists are all there is. -/
theorem Geometry.encoding_lossless {g : Geometry} (valid : g.Valid) :
    g.KeepsRoles ∧ ∀ (r : Region) (s : PoolState), r.geometry = g → Reachable r s →
      ∀ i < r.pageCount, g.Stores (r.descriptor i s.memory).role ∧
        (r.descriptor i s.memory).asRole (r.descriptor i s.memory).role =
          r.descriptor i s.memory := by
  refine ⟨valid.keepsRoles, ?_⟩
  rintro r s rfl reached i within
  obtain ⟨t, shows_, sound, _⟩ := reached.invariant
  exact ⟨shows_.stores_role sound within, shows_.asRole_role sound within⟩

/-- Two chunks of half the largest page, the 32 chunks of the next class above the
exact size, and the longest run beside a later page of one; then every page of a
pool with a page of small chunks, an allocated run and no free page. -/
theorem encoding_lossless_two_blocks :
    (∀ d : Descriptor, (d.asBig 15 3).role = .big 15 3 ∧
      (d.asBig 11 0xFFFFFFFF).role = .big 11 0xFFFFFFFF) ∧
    (∀ d e : Descriptor, ((d.asRun Layout.maxPages).pageKind, (d.asRun Layout.maxPages).word) ≠
      (e.asInterior.pageKind, e.asInterior.word)) ∧
    ∃ (pool : Pool) (s : PoolState), s.live = [⟨6144, 1500⟩, ⟨5136, 5⟩] ∧
      Reachable pool.region s ∧ ∀ i < pool.region.pageCount,
        (pool.region.descriptor i s.memory).asRole (pool.region.descriptor i s.memory).role =
          pool.region.descriptor i s.memory := by
  obtain ⟨keeps, _⟩ := Geometry.encoding_lossless (g := ⟨16, 1⟩) (by decide)
  obtain ⟨pool, _, s, _, _, _, live, reached⟩ := reachable_two_blocks
  obtain ⟨_, pages⟩ := Geometry.encoding_lossless pool.region.valid
  refine ⟨fun d => ⟨?_, ?_⟩, fun d e => ?_, pool, s, live, reached, fun i within => ?_⟩
  · exact keeps.readBack (.big 15 3) ⟨by decide, by decide, by decide, by decide⟩ d
  · exact keeps.readBack (.big 11 0xFFFFFFFF) ⟨by decide, by decide, by decide, by decide⟩ d
  · exact keeps.distinct (.run Layout.maxPages) .interior (Nat.le_refl _) trivial nofun d e
  · exact (pages pool.region s rfl reached i within).2

end SlabAllocator
