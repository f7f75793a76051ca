import SlabAllocator.Proofs.MutualExclusion

namespace SlabAllocator

namespace LockPhase

/-- Awake in the code that takes the lock. -/
def Taking : LockPhase → Prop
  | .entering _ | .watching _ _ | .grabbing _ _ | .claiming | .dozing => True
  | .away | .trying | .asleep | .holding | .clearing | .rousing => False

/-- Releasing a lock with sleepers and not yet through with waking one. -/
def Releasing (p : LockPhase) : Prop := p = .clearing ∨ p = .rousing

/-- The phases of those who will see to the sleepers: by waking one, or by
swapping in the 2 that makes the next owner wake one. -/
def Heeds (p : LockPhase) : Prop := p.Releasing ∨ p = .claiming

/-- The phases of those that neither the lock nor its sleepers depend on. -/
def Aside : LockPhase → Prop
  | .away | .trying | .entering _ | .watching _ _ | .grabbing _ _ | .dozing | .asleep => True
  | .claiming | .holding | .clearing | .rousing => False

theorem Aside.not_owns {p : LockPhase} (aside : p.Aside) : ¬p.Owns := by
  rintro (rfl | rfl) <;> exact aside

theorem Aside.not_heeds {p : LockPhase} (aside : p.Aside) : ¬p.Heeds := by
  rintro ((rfl | rfl) | rfl) <;> exact aside

theorem backOff_ne_asleep (spin pause : UInt32) : backOff spin pause ≠ .asleep := by
  unfold backOff
  split <;> simp

end LockPhase

namespace Contention

variable {ι : Type} {cpus : Nat} {s after : Contention ι} {i : ι} {mutex : Mutex}
  {next failed : LockPhase}

/-- A word that is not 0 has an owner, and no sleeper is forgotten: the word is
2, which the owner will notice, or somebody sees to the sleepers. -/
structure Heeded (s : Contention ι) : Prop where
  owned : s.mutex.word ≠ 0 → ∃ j, (s.phase j).Owns
  told : ∀ k, s.phase k = .asleep → s.mutex.word = 2 ∨ ∃ j, (s.phase j).Heeds

theorem heeded_calm : Heeded (calm : Contention ι) where
  owned taken := absurd rfl taken
  told _ asleep := by cases asleep

variable [DecidableEq ι]

/-- What holds of some executor still does when another one goes on. -/
theorem exists_move {P : LockPhase → Prop} (some : ∃ j, P (s.phase j)) (other : ¬P (s.phase i)) :
    ∃ j, P ((s.move i mutex next).phase j) := by
  obtain ⟨j, holds⟩ := some
  have different : j ≠ i := by
    rintro rfl
    exact other holds
  exact ⟨j, by simpa [different] using holds⟩

theorem asleep_of_move {k : ι} (awake : next ≠ .asleep)
    (asleep : (s.move i mutex next).phase k = .asleep) : s.phase k = .asleep := by
  by_cases same : k = i
  · exact absurd (by simpa [same] using asleep) awake
  · simpa [same] using asleep

namespace Heeded

/-- An executor that neither owned the lock nor saw to the sleepers goes on
without sleeping, and the word stays as it is. -/
theorem pass (heeded : s.Heeded) (aside : (s.phase i).Aside) (awake : next ≠ .asleep) :
    (s.move i s.mutex next).Heeded where
  owned taken := exists_move (heeded.owned taken) aside.not_owns
  told k asleep := by
    have before := heeded.told k (asleep_of_move awake asleep)
    exact before.imp_right fun some => exists_move some aside.not_heeds

/-- An executor comes to see to the sleepers. -/
theorem heed (heeds : next.Heeds)
    (owned : mutex.word ≠ 0 → ∃ j, ((s.move i mutex next).phase j).Owns) :
    (s.move i mutex next).Heeded where
  owned := owned
  told _ _ := Or.inr ⟨i, by simpa using heeds⟩

/-- While the word is not 2, one who did not see to the sleepers may change it
and needs not care for them. -/
theorem leave (heeded : s.Heeded) (unmarked : s.mutex.word ≠ 2) (quiet : ¬(s.phase i).Heeds)
    (awake : next ≠ .asleep) (owned : mutex.word ≠ 0 → next.Owns) :
    (s.move i mutex next).Heeded where
  owned taken := ⟨i, by simpa using owned taken⟩
  told k asleep := by
    have before := heeded.told k (asleep_of_move awake asleep)
    exact Or.inr (exists_move (before.resolve_left unmarked) quiet)

theorem exchange (heeded : s.Heeded) (aside : (s.phase i).Aside) (awake : failed ≠ .asleep)
    (accessed : LockPhase.exchange s.mutex failed = (mutex, next)) :
    (s.move i mutex next).Heeded := by
  rw [LockPhase.exchange, Mutex.tryLock?] at accessed
  by_cases zero : s.mutex.word = 0
  · rw [if_pos zero] at accessed
    cases accessed
    exact heeded.leave (by simp [zero]) aside.not_heeds (by simp) fun _ => Or.inl rfl
  · rw [if_neg zero] at accessed
    cases accessed
    exact heeded.pass aside awake

/-- Swapping 2 in tells the next owner of the sleepers. -/
theorem claim (heeded : s.Heeded) (claims : s.phase i = .claiming) :
    (s.move i ⟨2⟩ (if s.mutex.word = 0 then .holding else .dozing)).Heeded where
  owned _ := by
    by_cases zero : s.mutex.word = 0
    · rw [if_pos zero]
      exact ⟨i, Or.inl (phase_move_self ..)⟩
    · exact exists_move (heeded.owned zero) (by simp [claims, LockPhase.Owns])
  told _ _ := Or.inl rfl

/-- Whoever goes to sleep saw the 2 just then. -/
theorem doze (heeded : s.Heeded) (dozes : s.phase i = .dozing) :
    (s.move i s.mutex (if s.mutex.word = 2 then .asleep else .claiming)).Heeded := by
  have owned (next : LockPhase) (taken : s.mutex.word ≠ 0) :
      ∃ j, ((s.move i s.mutex next).phase j).Owns :=
    exists_move (heeded.owned taken) (by simp [dozes, LockPhase.Owns])
  by_cases marked : s.mutex.word = 2
  · exact ⟨owned _, fun _ _ => Or.inl marked⟩
  · rw [if_neg marked]
    exact heed (Or.inr rfl) (owned _)

/-- Taking 1 off a word of 1 leaves the sleepers to those who saw to them before.
Off a word of 2 it leaves them to the one who does it. -/
theorem subtract (heeded : s.Heeded) (holds : s.phase i = .holding) :
    (s.move i ⟨s.mutex.word - 1⟩ (if s.mutex.word = 1 then .away else .clearing)).Heeded := by
  by_cases unshared : s.mutex.word = 1
  · rw [if_pos unshared]
    exact heeded.leave (by simp [unshared]) (by simp [holds, LockPhase.Heeds, LockPhase.Releasing])
      (by simp) (by simp [unshared])
  · rw [if_neg unshared]
    exact heed (Or.inl (Or.inl rfl)) fun _ => ⟨i, Or.inr (phase_move_self ..)⟩

theorem access (heeded : s.Heeded)
    (accessed : (s.phase i).access? cpus s.mutex = some (mutex, next)) :
    (s.move i mutex next).Heeded := by
  cases phase : s.phase i <;> rw [phase] at accessed
  case away => cases accessed
  case asleep => cases accessed
  case rousing => cases accessed
  case trying =>
    exact heeded.exchange (by rw [phase]; trivial) (by simp) (Option.some.inj accessed)
  case entering spin =>
    refine heeded.exchange (by rw [phase]; trivial) ?_ (Option.some.inj accessed)
    split
    · exact LockPhase.backOff_ne_asleep spin 1
    · simp
  case watching spin pause =>
    cases accessed
    refine heeded.pass (by rw [phase]; trivial) ?_
    split
    · simp
    · exact LockPhase.backOff_ne_asleep spin _
  case grabbing spin pause =>
    exact heeded.exchange (by rw [phase]; trivial) (LockPhase.backOff_ne_asleep spin _)
      (Option.some.inj accessed)
  case claiming =>
    cases accessed
    exact heeded.claim phase
  case dozing =>
    cases accessed
    exact heeded.doze phase
  case holding =>
    cases accessed
    exact heeded.subtract phase
  case clearing =>
    cases accessed
    exact heed (Or.inl (Or.inr rfl)) fun taken => absurd rfl taken

/-- A wake is handed on: the one who was woken will swap 2 in. -/
theorem wake {j : ι} (heeded : s.Heeded) (rousing : s.phase i = .rousing)
    (asleep : s.phase j = .asleep) :
    ((s.move i s.mutex .away).move j s.mutex .claiming).Heeded := by
  refine heed (Or.inr rfl) fun taken => ?_
  have still : ∃ k, ((s.move i s.mutex .away).phase k).Owns :=
    exists_move (heeded.owned taken) (by simp [rousing, LockPhase.Owns])
  have different : j ≠ i := by
    rintro rfl
    rw [rousing] at asleep
    cases asleep
  exact exists_move still (by
    simp [different, asleep, LockPhase.Owns])

theorem step (heeded : s.Heeded) (next : Step cpus s after) : after.Heeded := by
  cases next with
  | tryLock away => exact heeded.pass (by rw [away]; trivial) (by simp)
  | lock spin away => exact heeded.pass (by rw [away]; trivial) (by simp)
  | access accessed => exact heeded.access accessed
  | wake rousing asleep => exact heeded.wake rousing asleep
  | @wakeNobody i rousing awake =>
    have idle : ¬(s.phase i).Owns := by simp [rousing, LockPhase.Owns]
    exact ⟨fun taken => exists_move (heeded.owned taken) idle,
      fun k asleep => absurd (asleep_of_move (by simp) asleep) (awake k)⟩
  | @stir i asleep =>
    have idle : ¬(s.phase i).Owns := by simp [asleep, LockPhase.Owns]
    exact heed (Or.inr rfl) fun taken => exists_move (heeded.owned taken) idle

end Heeded

theorem Reachable.heeded (reached : Reachable cpus s) : s.Heeded := by
  induction reached with
  | start => exact heeded_calm
  | step _ next ih => exact ih.step next

/-- Nobody sleeps while the lock is free and everybody else is away from it. And
while somebody sleeps, the word is 2, or a release has its wake still to come, or
somebody awake is about to swap 2 in. -/
theorem Reachable.no_lost_wakeup (reached : Reachable cpus s) :
    (¬∃ i, s.phase i = .asleep ∧ ∀ j, s.phase j ≠ .holding ∧ ¬(s.phase j).Taking ∧
      ¬(s.phase j).Releasing) ∧
    ∀ i, s.phase i = .asleep → s.mutex.word = 2 ∨ (∃ j, (s.phase j).Releasing) ∨
      ∃ j, s.phase j = .claiming := by
  have heeded := reached.heeded
  constructor
  · rintro ⟨i, asleep, deserted⟩
    rcases heeded.told i asleep with marked | ⟨j, releasing | claims⟩
    · obtain ⟨j, holds | clears⟩ := heeded.owned (by simp [marked])
      · exact (deserted j).1 holds
      · exact (deserted j).2.2 (Or.inl clears)
    · exact (deserted j).2.2 releasing
    · exact (deserted j).2.1 (by rw [claims]; trivial)
  · intro i asleep
    rcases heeded.told i asleep with marked | ⟨j, releasing | claims⟩
    · exact Or.inl marked
    · exact Or.inr (Or.inl ⟨j, releasing⟩)
    · exact Or.inr (Or.inr ⟨j, claims⟩)

/-- An executor took the lock and released it again between the two halves of
another release, without a look at the one who sleeps. The wake is still to come. -/
theorem no_lost_wakeup_overtaken : ∃ s : Contention (Fin 3), Reachable 2 s ∧
    s.phase 1 = .asleep ∧ s.phase 2 = .away ∧ s.mutex.word = 0 ∧
    ((∃ j, (s.phase j).Releasing) ∨ ∃ j, s.phase j = .claiming) := by
  have calm : Reachable 2 (calm : Contention (Fin 3)) := .start
  have tries := calm.step (.tryLock (i := 0) rfl)
  have holds := tries.step (.access (i := 0) rfl)
  have enters := holds.step (.lock (i := 1) 0 rfl)
  have claims := enters.step (.access (i := 1) rfl)
  have dozes := claims.step (.access (i := 1) rfl)
  have sleeps := dozes.step (.access (i := 1) rfl)
  have clears := sleeps.step (.access (i := 0) rfl)
  have rouses := clears.step (.access (i := 0) rfl)
  have overtakes := rouses.step (.tryLock (i := 2) rfl)
  have gets := overtakes.step (.access (i := 2) rfl)
  have leaves := gets.step (.access (i := 2) rfl)
  exact ⟨_, leaves, rfl, rfl, rfl, (leaves.no_lost_wakeup.2 1 rfl).resolve_left (by decide)⟩

end Contention

end SlabAllocator
