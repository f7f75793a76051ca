import SlabAllocator.Mutex.Contention

namespace SlabAllocator

namespace LockPhase

/-- The phases in which nobody else can get the lock: from taking it until the
word is 0 again. -/
def Owns (p : LockPhase) : Prop := p = .holding ∨ p = .clearing

instance (p : LockPhase) : Decidable p.Owns := inferInstanceAs (Decidable (_ ∨ _))

theorem not_owns_backOff (spin pause : UInt32) : ¬(backOff spin pause).Owns := by
  unfold backOff
  split <;> rintro (same | same) <;> cases same

end LockPhase

namespace Contention

variable {ι : Type} {cpus : Nat} {s after : Contention ι} {i : ι} {mutex : Mutex}
  {next failed : LockPhase}

/-- At most one executor owns the lock, and while one does the word is 1 or 2. -/
structure Exclusive (s : Contention ι) : Prop where
  one : ∀ i j, (s.phase i).Owns → (s.phase j).Owns → i = j
  taken : ∀ i, (s.phase i).Owns → s.mutex.word = 1 ∨ s.mutex.word = 2

theorem exclusive_calm : Exclusive (calm : Contention ι) where
  one _ _ owns := by rcases owns with same | same <;> cases same
  taken _ owns := by rcases owns with same | same <;> cases same

namespace Exclusive

/-- Where the word is 0 nobody owns the lock. -/
theorem free (exclusive : s.Exclusive) (zero : s.mutex.word = 0) (j : ι) : ¬(s.phase j).Owns := by
  intro owns
  have word := exclusive.taken j owns
  rw [zero] at word
  exact absurd word (by decide)

/-- Where one executor owns the lock, no other does. -/
theorem alone (exclusive : s.Exclusive) (owns : (s.phase i).Owns) (j : ι) (other : j ≠ i) :
    ¬(s.phase j).Owns := fun too => other (exclusive.one j i too owns)

end Exclusive

variable [DecidableEq ι]

@[simp] theorem mutex_move (s : Contention ι) (i : ι) (mutex : Mutex) (next : LockPhase) :
    (s.move i mutex next).mutex = mutex := rfl

@[simp] theorem phase_move_self (s : Contention ι) (i : ι) (mutex : Mutex) (next : LockPhase) :
    (s.move i mutex next).phase i = next := Function.update_self ..

@[simp] theorem phase_move_of_ne (s : Contention ι) {i j : ι} (mutex : Mutex) (next : LockPhase)
    (other : j ≠ i) : (s.move i mutex next).phase j = s.phase j := Function.update_of_ne other ..

namespace Exclusive

/-- Where no other executor owns the lock, one may come to own it or go on
owning it. -/
theorem keep (free : ∀ j, j ≠ i → ¬(s.phase j).Owns) (word : mutex.word = 1 ∨ mutex.word = 2) :
    (s.move i mutex next).Exclusive := by
  have only : ∀ j, ((s.move i mutex next).phase j).Owns → j = i := by
    intro j owns
    by_contra other
    exact free j other (by simpa [other] using owns)
  exact ⟨fun j k one two => (only j one).trans (only k two).symm, fun _ _ => word⟩

/-- An executor that goes on without the lock disturbs nobody, as long as the
word stays right for another one that owns it. -/
theorem give_way (exclusive : s.Exclusive) (idle : ¬next.Owns)
    (word : ∀ j, j ≠ i → (s.phase j).Owns → mutex.word = 1 ∨ mutex.word = 2) :
    (s.move i mutex next).Exclusive := by
  have before : ∀ j, ((s.move i mutex next).phase j).Owns → j ≠ i ∧ (s.phase j).Owns := by
    intro j owns
    by_cases same : j = i
    · exact absurd (by simpa [same] using owns) idle
    · exact ⟨same, by simpa [same] using owns⟩
  exact ⟨fun j k one two => exclusive.one j k (before j one).2 (before k two).2,
    fun j owns => word j (before j owns).1 (before j owns).2⟩

/-- The same where the word does not change. -/
theorem pass (exclusive : s.Exclusive) (idle : ¬next.Owns) :
    (s.move i s.mutex next).Exclusive :=
  exclusive.give_way idle fun j _ owns => exclusive.taken j owns

/-- An owner gives the lock up. -/
theorem release (exclusive : s.Exclusive) (owns : (s.phase i).Owns) (idle : ¬next.Owns) :
    (s.move i mutex next).Exclusive :=
  exclusive.give_way idle fun j other too => absurd too (exclusive.alone owns j other)

theorem exchange (exclusive : s.Exclusive) (idle : ¬failed.Owns)
    (accessed : LockPhase.exchange s.mutex failed = (mutex, next)) :
    (s.move i mutex next).Exclusive := by
  rw [LockPhase.exchange, Mutex.tryLock?] at accessed
  by_cases zero : s.mutex.word = 0
  · rw [if_pos zero] at accessed
    cases accessed
    exact keep (fun j _ => exclusive.free zero j) (Or.inl rfl)
  · rw [if_neg zero] at accessed
    cases accessed
    exact exclusive.pass idle

/-- Swapping 2 in gets a lock that is free and leaves any other with its owner. -/
theorem claim (exclusive : s.Exclusive) :
    (s.move i ⟨2⟩ (if s.mutex.word = 0 then .holding else .dozing)).Exclusive := by
  by_cases zero : s.mutex.word = 0
  · rw [if_pos zero]
    exact keep (fun j _ => exclusive.free zero j) (Or.inr rfl)
  · rw [if_neg zero]
    exact exclusive.give_way (by decide) fun _ _ _ => Or.inr rfl

/-- Taking 1 off the word gives the lock up where the word was 1. Where it was 2
it goes down to 1, which keeps the others out until 0 is stored. -/
theorem subtract (exclusive : s.Exclusive) (holds : s.phase i = .holding) :
    (s.move i ⟨s.mutex.word - 1⟩ (if s.mutex.word = 1 then .away else .clearing)).Exclusive := by
  have owns : (s.phase i).Owns := Or.inl holds
  by_cases unshared : s.mutex.word = 1
  · rw [if_pos unshared]
    exact exclusive.release owns (by decide)
  · have shared : s.mutex.word = 2 := (exclusive.taken i owns).resolve_left unshared
    rw [if_neg unshared, shared]
    exact keep (exclusive.alone owns) (Or.inl rfl)

/-- No access to the word lets two executors own the lock. -/
theorem access (exclusive : s.Exclusive)
    (accessed : (s.phase i).access? cpus s.mutex = some (mutex, next)) :
    (s.move i mutex next).Exclusive := by
  cases phase : s.phase i <;> rw [phase] at accessed
  case away => cases accessed
  case asleep => cases accessed
  case rousing => cases accessed
  case trying =>
    have idle : ¬LockPhase.away.Owns := by decide
    exact exclusive.exchange idle (Option.some.inj accessed)
  case entering spin =>
    refine exclusive.exchange ?_ (Option.some.inj accessed)
    split
    · exact LockPhase.not_owns_backOff spin 1
    · decide
  case watching spin pause =>
    cases accessed
    refine exclusive.pass ?_
    split
    · rintro (same | same) <;> cases same
    · exact LockPhase.not_owns_backOff spin _
  case grabbing spin pause =>
    exact exclusive.exchange (LockPhase.not_owns_backOff spin _) (Option.some.inj accessed)
  case claiming =>
    cases accessed
    exact exclusive.claim
  case dozing =>
    cases accessed
    refine exclusive.pass ?_
    split <;> decide
  case holding =>
    cases accessed
    exact exclusive.subtract phase
  case clearing =>
    cases accessed
    exact exclusive.release (Or.inr phase) (by decide)

theorem step (exclusive : s.Exclusive) (next : Step cpus s after) : after.Exclusive := by
  cases next with
  | tryLock away => exact exclusive.pass (by decide)
  | lock spin away => exact exclusive.pass (by rintro (same | same) <;> cases same)
  | access accessed => exact exclusive.access accessed
  | @wake i j rousing asleep =>
    have gone : (s.move i s.mutex .away).Exclusive := exclusive.pass (by decide)
    exact gone.pass (by decide)
  | wakeNobody rousing awake => exact exclusive.pass (by decide)
  | stir asleep => exact exclusive.pass (by decide)

end Exclusive

theorem Reachable.exclusive (reached : Reachable cpus s) : s.Exclusive := by
  induction reached with
  | start => exact exclusive_calm
  | step _ next ih => exact ih.step next

/-- However many executors take, try for and release a lock, and however their
steps interleave: no two of them hold it at once, while one does the word is 1
or 2, and whoever is about to store 0 does so while nobody holds it. -/
theorem Reachable.held_by_one (reached : Reachable cpus s) :
    (∀ i j, s.phase i = .holding → s.phase j = .holding → i = j) ∧
    (∀ i, s.phase i = .holding → s.mutex.word = 1 ∨ s.mutex.word = 2) ∧
    ∀ i, s.phase i = .clearing → ∀ j, s.phase j ≠ .holding := by
  have exclusive := reached.exclusive
  refine ⟨fun i j one two => exclusive.one i j (Or.inl one) (Or.inl two),
    fun i holds => exclusive.taken i (Or.inl holds), fun i clears j holds => ?_⟩
  obtain rfl := exclusive.one i j (Or.inr clears) (Or.inl holds)
  rw [clears] at holds
  cases holds

/-- The two halves of a release come apart: one executor has stored 2 and sleeps,
and the other one has taken 1 off the word and not yet stored 0. -/
theorem held_by_one_contended : ∃ s : Contention Bool, Reachable 2 s ∧
    s.phase true = .clearing ∧ s.phase false = .asleep ∧ s.mutex.word = 1 ∧
    ∀ j, s.phase j ≠ .holding := by
  have calm : Reachable 2 (calm : Contention Bool) := .start
  have tries := calm.step (.tryLock (i := true) rfl)
  have holds := tries.step (.access (i := true) rfl)
  have enters := holds.step (.lock (i := false) 0 rfl)
  have claims := enters.step (.access (i := false) rfl)
  have dozes := claims.step (.access (i := false) rfl)
  have sleeps := dozes.step (.access (i := false) rfl)
  have clears := sleeps.step (.access (i := true) rfl)
  exact ⟨_, clears, rfl, rfl, rfl, clears.held_by_one.2.2 true rfl⟩

end Contention

end SlabAllocator
