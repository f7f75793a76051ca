import SlabAllocator.Proofs.Mirrored

namespace SlabAllocator

/-- The words of a row with a bit for each chunk fit into the page. -/
theorem Geometry.row_le_pageSize (g : Geometry) (shift : Nat) :
    8 * g.bitmapWords shift ≤ g.pageSize := by
  have fewer : g.chunks shift ≤ g.pageSize := Nat.pow_le_pow_right (by decide) (Nat.sub_le ..)
  unfold bitmapWords Word.width
  omega

namespace Region

variable {r : Region} {base : Nat} {m seen : Memory}
  {fit : Layout.plan base r.length r.geometry = .ok r.layout}

namespace Mirrored

section Reading

variable {β : Type} {accept other : Nat → Except Fault (Option β)}

theorem page (mirrored : r.Mirrored base m seen) (i : Nat) :
    (r.moved base fit).page i seen = r.page i m := by
  refine bind_congr_answer fun _ inside => ?_
  exact congrArg Except.ok (mirrored.descriptor (of_require inside))

theorem head (mirrored : r.Mirrored base m seen) (list : PageList) :
    (r.moved base fit).head list seen = r.head list m := by
  have known : require ((r.moved base fit).HasList list) .indexOutOfRange =
      require (r.HasList list) .indexOutOfRange := by
    cases list <;> rfl
  rw [Region.head, Region.head, known]
  refine bind_congr_answer fun _ inside => ?_
  exact congrArg Except.ok (mirrored.headOf (of_require inside))

theorem follow (mirrored : r.Mirrored base m seen) (fuel : Nat) (link : Link) :
    (r.moved base fit).follow seen fuel link = r.follow m fuel link := by
  induction fuel generalizing link with
  | zero =>
    unfold Region.follow
    cases link.target? <;> rfl
  | succ fuel ih =>
    unfold Region.follow
    cases link.target? with
    | none => rfl
    | some i =>
      dsimp only
      rw [mirrored.page]
      refine bind_congr_answer fun d _ => ?_
      rw [ih]

theorem members (mirrored : r.Mirrored base m seen) (list : PageList) :
    (r.moved base fit).members list seen = r.members list m := by
  rw [Region.members, Region.members, mirrored.head]
  exact bind_congr_answer fun first _ => mirrored.follow _ first

theorem search (mirrored : r.Mirrored base m seen) (same : ∀ i < r.pageCount, other i = accept i)
    (fuel : Nat) (link : Link) :
    (r.moved base fit).search seen other fuel link = r.search m accept fuel link := by
  induction fuel generalizing link with
  | zero =>
    unfold Region.search
    cases link.target? <;> rfl
  | succ fuel ih =>
    unfold Region.search
    cases link.target? with
    | none => rfl
    | some i =>
      dsimp only
      rw [mirrored.page]
      refine bind_congr_answer fun d read => ?_
      rw [same i (page_ok read)]
      refine bind_congr_answer fun answered _ => ?_
      cases answered with
      | none => exact ih d.next
      | some answer => rfl

theorem searchList (mirrored : r.Mirrored base m seen)
    (same : ∀ i < r.pageCount, other i = accept i) (list : PageList) :
    (r.moved base fit).searchList list seen other = r.searchList list m accept := by
  rw [Region.searchList, Region.searchList, mirrored.head]
  exact bind_congr_answer fun first _ => mirrored.search same _ first

end Reading

section Writing

/-- Writing at the same offset of both places leaves the one a mirror of the
other; whether a step faults does not depend on the place. -/
theorem setPage (mirrored : r.Mirrored base m seen) (i : Nat) (d : Descriptor) :
    Alike (r.Mirrored base) (r.setPage i d m) ((r.moved base fit).setPage i d seen) := by
  refine .bind_eq rfl fun _ _ => .answer ?_
  exact mirrored.setDescriptor (descriptorAddress_moved fit i) d

theorem setHead (mirrored : r.Mirrored base m seen) (list : PageList) (link : Link) :
    Alike (r.Mirrored base) (r.setHead list link m) ((r.moved base fit).setHead list link seen) := by
  have known : require ((r.moved base fit).HasList list) .indexOutOfRange =
      require (r.HasList list) .indexOutOfRange := by
    cases list <;> rfl
  refine .bind_eq known fun _ _ => .answer ?_
  exact mirrored.write (headAddress_moved fit list) 4 link.raw.toNat

theorem modifyPage (mirrored : r.Mirrored base m seen) (i : Nat)
    (change : Descriptor → Descriptor) :
    Alike (r.Mirrored base) (r.modifyPage i change m)
      ((r.moved base fit).modifyPage i change seen) :=
  .bind_eq (mirrored.page i) fun d _ => mirrored.setPage i (change d)

theorem modifyPages (mirrored : r.Mirrored base m seen) (first count : Nat)
    (change : Descriptor → Descriptor) :
    Alike (r.Mirrored base) (r.modifyPages first change count m)
      ((r.moved base fit).modifyPages first change count seen) := by
  induction count generalizing m seen first with
  | zero => exact .answer mirrored
  | succ count ih => exact .bind (mirrored.modifyPage first change) fun _ _ one => ih one (first + 1)

theorem setNextAfter (mirrored : r.Mirrored base m seen) (list : PageList) (prev link : Link) :
    Alike (r.Mirrored base) (r.setNextAfter list prev link m)
      ((r.moved base fit).setNextAfter list prev link seen) := by
  unfold Region.setNextAfter
  cases prev.target? with
  | none => exact mirrored.setHead list link
  | some i => exact mirrored.modifyPage i _

theorem setPrevBefore (mirrored : r.Mirrored base m seen) (next link : Link) :
    Alike (r.Mirrored base) (r.setPrevBefore next link m)
      ((r.moved base fit).setPrevBefore next link seen) := by
  unfold Region.setPrevBefore
  cases next.target? with
  | none => exact .answer mirrored
  | some i => exact mirrored.modifyPage i _

theorem pushFront (mirrored : r.Mirrored base m seen) (list : PageList) (i : Nat) :
    Alike (r.Mirrored base) (r.pushFront list i m) ((r.moved base fit).pushFront list i seen) := by
  refine .bind_eq (mirrored.head list) fun first _ => ?_
  refine .bind_eq rfl fun link _ => ?_
  refine .bind (mirrored.modifyPage i _) fun _ _ marked => ?_
  refine .bind (marked.setPrevBefore first link) fun _ _ led => ?_
  exact led.setHead list link

theorem detach (mirrored : r.Mirrored base m seen) (i : Nat) :
    Alike (r.Mirrored base) (r.detach i m) ((r.moved base fit).detach i seen) := by
  refine .bind_eq (mirrored.page i) fun d _ => ?_
  cases d.list? with
  | none => exact .answer mirrored
  | some list =>
    refine .bind (mirrored.setNextAfter list d.prev d.next) fun _ _ before => ?_
    refine .bind (before.setPrevBefore d.next d.prev) fun _ _ behind => ?_
    exact behind.modifyPage i _

theorem substitute (mirrored : r.Mirrored base m seen) (old new : Nat) :
    Alike (r.Mirrored base) (r.substitute old new m) ((r.moved base fit).substitute old new seen) := by
  refine .bind_eq (mirrored.page old) fun d _ => ?_
  cases d.list? with
  | none => exact .error _
  | some list =>
    refine .bind_eq rfl fun link _ => ?_
    refine .bind (mirrored.modifyPage new _) fun _ _ marked => ?_
    refine .bind (marked.setNextAfter list d.prev link) fun _ _ before => ?_
    refine .bind (before.setPrevBefore d.next link) fun _ _ behind => ?_
    exact behind.modifyPage old _

theorem cutRun (mirrored : r.Mirrored base m seen) (i run n : Nat) :
    Alike (r.Mirrored base) (r.cutRun i run n m) ((r.moved base fit).cutRun i run n seen) := by
  unfold Region.cutRun
  split
  · exact .bind (mirrored.modifyPage (i + n) _) fun _ _ marked => marked.substitute i (i + n)
  · exact mirrored.detach i

theorem markRun (mirrored : r.Mirrored base m seen) (i n : Nat) :
    Alike (r.Mirrored base) (r.markRun i n m) ((r.moved base fit).markRun i n seen) := by
  refine .bind (mirrored.modifyPage i _) fun _ _ marked => ?_
  refine .bind_eq rfl fun _ _ => ?_
  exact marked.modifyPages (i + 1) (n - 1) _

theorem freeRun? (mirrored : r.Mirrored base m seen) (n i : Nat) :
    (r.moved base fit).freeRun? seen n i = r.freeRun? m n i := by
  rw [Region.freeRun?, Region.freeRun?, mirrored.page]

theorem returnRun (mirrored : r.Mirrored base m seen) (i n : Nat) :
    Alike (r.Mirrored base) (r.returnRun i n m) ((r.moved base fit).returnRun i n seen) := by
  refine .bind (mirrored.detach i) fun _ _ off => ?_
  refine .bind_eq rfl fun _ _ => ?_
  refine .bind (off.modifyPages (i + 1) (n - 1) _) fun _ _ later => ?_
  refine .bind (later.modifyPage i _) fun _ _ first => ?_
  exact first.pushFront .free i

end Writing

end Mirrored

/-- Two answers that come with a memory each: they are related, and the memories
mirror each other. -/
def Echoes {α β : Type} (r : Region) (base : Nat) (R : α → β → Prop) (x : α × Memory)
    (y : β × Memory) : Prop :=
  R x.1 y.1 ∧ r.Mirrored base x.2 y.2

/-- Two addresses lie equally far behind the base of a region and the other place
that it is seen at. -/
def SameSpot (r : Region) (base p q : Nat) : Prop := p + base = q + r.base

theorem checkRecord_moved (c : Carving) : (r.moved base fit).checkRecord c = r.checkRecord c := by
  unfold checkRecord
  cases c.kind <;> rfl

theorem chunkAddress_moved (fit : Layout.plan base r.length r.geometry = .ok r.layout)
    (shift i chunk : Nat) : r.SameSpot base (r.chunkAddress shift i chunk)
      ((r.moved base fit).chunkAddress shift i chunk) := by
  have page := pageAddress_moved fit i
  unfold SameSpot chunkAddress
  omega

/-- A record that is read is that of a page that there is. -/
theorem record_ok {c : Carving} {i : Nat} {taken : ChunkSet} (read : r.record c i m = .ok taken) :
    i < r.pageCount := by
  obtain ⟨_, _, read⟩ := answer_of_bind read
  obtain ⟨_, inside, _⟩ := answer_of_bind read
  exact of_require inside

namespace Mirrored

theorem takeRun (mirrored : r.Mirrored base m seen) (n : Nat) :
    Alike (r.Echoes base Eq) (r.takeRun n m) ((r.moved base fit).takeRun n seen) := by
  refine .bind_eq (mirrored.searchList (fun i _ => mirrored.freeRun? n i) .free) fun found _ => ?_
  cases found with
  | none => exact .answer ⟨rfl, mirrored⟩
  | some place =>
    obtain ⟨i, run⟩ := place
    refine .bind (mirrored.cutRun i run n) fun _ _ cut => ?_
    refine .bind (cut.markRun i n) fun _ _ marked => ?_
    exact .answer ⟨rfl, marked⟩

section Chunks

variable {c : Carving} {i : Nat}

theorem record (mirrored : r.Mirrored base m seen) (c : Carving) (i : Nat) :
    (r.moved base fit).record c i seen = r.record c i m := by
  rw [Region.record, Region.record, checkRecord_moved]
  refine bind_congr_answer fun _ _ => bind_congr_answer fun _ inside => ?_
  have within : i < r.pageCount := of_require inside
  refine congrArg Except.ok ?_
  unfold recordOf
  cases c.kind with
  | small => exact congrArg ChunkSet.mk (mirrored.words within (r.geometry.row_le_pageSize c.shift))
  | exact => rw [mirrored.descriptor within]
  | big => rw [mirrored.descriptor within]

theorem setRecord (mirrored : r.Mirrored base m seen) (c : Carving) (i : Nat) (s : ChunkSet) :
    Alike (r.Mirrored base) (r.setRecord c i s m) ((r.moved base fit).setRecord c i s seen) := by
  unfold Region.setRecord
  cases c.kind with
  | small => exact .answer (mirrored.setWords (pageAddress_moved fit i) s.words)
  | exact => exact mirrored.modifyPage i _
  | big => exact mirrored.modifyPage i _

theorem listedCarving? (mirrored : r.Mirrored base m seen) (shift : Nat)
    (within : i < r.pageCount) :
    (r.moved base fit).listedCarving? shift i seen = r.listedCarving? shift i m := by
  unfold Region.listedCarving?
  rw [mirrored.descriptor within]
  rfl

theorem vacancy? (mirrored : r.Mirrored base m seen) (shift : Nat) (within : i < r.pageCount) :
    (r.moved base fit).vacancy? shift seen i = r.vacancy? shift m i := by
  unfold Region.vacancy?
  rw [mirrored.listedCarving? shift within]
  cases r.listedCarving? shift i m with
  | none => rfl
  | some c =>
    dsimp only
    rw [mirrored.record c i]
    rfl

theorem markCarved (mirrored : r.Mirrored base m seen) (c : Carving) (i : Nat) :
    Alike (r.Mirrored base) (r.markCarved c i m) ((r.moved base fit).markCarved c i seen) := by
  unfold Region.markCarved
  cases c.kind with
  | small => exact mirrored.modifyPage i _
  | exact => exact .answer mirrored
  | big => exact .answer mirrored

theorem carve (mirrored : r.Mirrored base m seen) (shift i : Nat) :
    Alike (r.Echoes base Eq) (r.carve shift i m) ((r.moved base fit).carve shift i seen) := by
  have checked : (r.moved base fit).checkRecord (r.geometry.carving shift) =
      r.checkRecord (r.geometry.carving shift) := checkRecord_moved _
  refine .bind_eq checked fun _ _ => ?_
  refine .bind (mirrored.markCarved (r.geometry.carving shift) i) fun _ _ marked => ?_
  refine .bind (marked.setRecord (r.geometry.carving shift) i _) fun _ _ stored => ?_
  refine .bind_eq rfl fun slot _ => ?_
  refine .bind (stored.pushFront (.slot slot) i) fun _ _ listed => ?_
  exact .answer ⟨rfl, listed⟩

theorem occupy (mirrored : r.Mirrored base m seen) (c : Carving) (i : Nat) (taken : ChunkSet) :
    Alike (r.Mirrored base) (r.occupy c i taken m) ((r.moved base fit).occupy c i taken seen) := by
  refine .bind (mirrored.setRecord c i taken) fun _ _ stored => ?_
  show Alike _ (if taken = r.geometry.fullRecord c then _ else _)
    (if taken = r.geometry.fullRecord c then _ else _)
  split
  · exact stored.detach i
  · exact .answer stored

theorem takeChunk (mirrored : r.Mirrored base m seen) (size : Nat) :
    Alike (r.Echoes base (Option.Rel (r.SameSpot base))) (r.takeChunk size m)
      ((r.moved base fit).takeChunk size seen) := by
  refine .bind_eq rfl fun slot _ => ?_
  refine .bind_eq (mirrored.searchList (fun i => mirrored.vacancy? _) _) fun found _ => ?_
  cases found with
  | some place =>
    obtain ⟨i, c, chunk, taken⟩ := place
    refine .bind (mirrored.occupy c i taken) fun _ _ occupied => ?_
    exact .answer ⟨.some (chunkAddress_moved fit _ i chunk), occupied⟩
  | none =>
    refine .bind (mirrored.takeRun 1) fun one other taken => ?_
    obtain ⟨found, after⟩ := one
    obtain ⟨_, left⟩ := other
    obtain ⟨rfl, same⟩ := taken
    cases found with
    | none => exact .answer ⟨.none, same⟩
    | some i =>
      refine .bind (same.carve _ i) fun one other carved => ?_
      obtain ⟨chunk, after⟩ := one
      obtain ⟨_, left⟩ := other
      obtain ⟨rfl, same⟩ := carved
      exact .answer ⟨.some (chunkAddress_moved fit _ i chunk), same⟩

theorem settle (mirrored : r.Mirrored base m seen) (c : Carving) (within : i < r.pageCount)
    (left : ChunkSet) :
    Alike (r.Mirrored base) (r.settle c i left m) ((r.moved base fit).settle c i left seen) := by
  refine .bind (mirrored.setRecord c i left) fun after other stored => ?_
  show Alike _ (if left = r.geometry.emptyRecord c then _ else _)
    (if left = r.geometry.emptyRecord c then _ else _)
  split
  · exact stored.returnRun i 1
  · rw [stored.descriptor within]
    split
    · exact .bind_eq rfl fun slot _ => stored.pushFront (.slot slot) i
    · exact .answer stored

theorem returnChunk (mirrored : r.Mirrored base m seen) (c : Carving) (i offset : Nat) :
    Alike (r.Echoes base Eq) (r.returnChunk c i offset m)
      ((r.moved base fit).returnChunk c i offset seen) := by
  unfold Region.returnChunk
  split
  · exact .answer ⟨rfl, mirrored⟩
  · refine .bind_eq (mirrored.record c i) fun taken read => ?_
    have within := record_ok read
    show Alike _ (if offset / 2 ^ c.shift < r.geometry.recordReserved c then _ else _)
      (if offset / 2 ^ c.shift < r.geometry.recordReserved c then _ else _)
    split
    · exact .answer ⟨rfl, mirrored⟩
    · refine .bind_eq rfl fun _ _ => ?_
      cases taken.release? (offset / 2 ^ c.shift) with
      | none => exact .answer ⟨rfl, mirrored⟩
      | some left =>
        refine .bind (mirrored.settle c within left) fun _ _ settled => ?_
        exact .answer ⟨rfl, settled⟩

end Chunks

end Mirrored

end Region

end SlabAllocator
