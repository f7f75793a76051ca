namespace SlabAllocator

/-- Why a step has no answer at all. None of these arises on tables that the
allocator wrote itself; they can be met on tables that something else has
overwritten. -/
inductive Fault where
  /-- A table was read or written beyond its last entry. -/
  | indexOutOfRange
  /-- A number left the width that holds it. -/
  | overflow
  /-- A condition that the step relies on does not hold. -/
  | brokenPromise
  /-- A list of pages is longer than the page table, so it runs in a circle. -/
  | endlessWalk
  deriving DecidableEq, Repr

/-- Goes on where the condition holds and stops with the fault elsewhere. -/
def require (condition : Prop) [Decidable condition] (fault : Fault) : Except Fault Unit :=
  if condition then .ok () else .error fault

theorem require_of {condition : Prop} [Decidable condition] {fault : Fault}
    (holds : condition) : require condition fault = .ok () := if_pos holds

theorem of_require {condition : Prop} [Decidable condition] {fault : Fault} {u : Unit}
    (passed : require condition fault = .ok u) : condition := by
  unfold require at passed
  split at passed
  · assumption
  · cases passed

@[simp] theorem pure_eq_ok {α : Type} (a : α) : (pure a : Except Fault α) = .ok a := rfl

@[simp] theorem ok_bind {α β : Type} (a : α) (next : α → Except Fault β) :
    (Except.ok a >>= next) = next a := rfl

theorem ok_of_toOption {ε α : Type} {result : Except ε α} {a : α}
    (answer : result.toOption = some a) : result = .ok a := by
  cases result with
  | error e => cases answer
  | ok b =>
    cases answer
    rfl

/-- An answer of two steps comes from an answer of each. -/
theorem answer_of_bind {α β : Type} {first : Except Fault α} {next : α → Except Fault β} {b : β}
    (run : (first >>= next) = .ok b) : ∃ a, first = .ok a ∧ next a = .ok b := by
  cases first with
  | error e => cases run
  | ok a => exact ⟨a, rfl, run⟩

/-- It is enough that two steps go on alike from what the first one answers. -/
theorem bind_congr_answer {α β : Type} {first : Except Fault α} {next other : α → Except Fault β}
    (same : ∀ a, first = .ok a → next a = other a) : (first >>= next) = (first >>= other) := by
  cases first with
  | error e => rfl
  | ok a => exact same a rfl

theorem mapM_ok {α β : Type} {l : List α} {f : α → Except Fault β} {g : α → β}
    (same : ∀ x ∈ l, f x = .ok (g x)) : l.mapM f = .ok (l.map g) := by
  induction l with
  | nil => rfl
  | cons x rest ih =>
    rw [List.mapM_cons, same x List.mem_cons_self, ok_bind,
      ih fun y member => same y (List.mem_cons_of_mem x member)]
    rfl

end SlabAllocator
