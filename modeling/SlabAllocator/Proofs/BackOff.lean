import Mathlib.Data.Set.Card
import Mathlib.Data.Set.Finite.Lattice
import Mathlib.Order.Interval.Finset.Nat
import SlabAllocator.PowerOfTwo
import SlabAllocator.Proofs.MutualExclusion

namespace SlabAllocator

namespace LockPhase

/-- The phases between the decision to take the lock and the end of the backoff. -/
def Spinning : LockPhase → Prop
  | entering _ | watching _ _ | grabbing _ _ => True
  | _ => False

/-- The bound on the backoff is one that doubling the pause gets to: the pause is
still positive and below it. -/
def Bounded : LockPhase → Prop
  | entering spin => spin.toNat ≤ 2 ^ 31
  | watching spin pause | grabbing spin pause =>
    0 < pause.toNat ∧ pause.toNat < spin.toNat ∧ spin.toNat ≤ 2 ^ 31
  | _ => False

/-- How many accesses are left to the backoff at most. A round takes two of them,
and there is a round for each power of two below `2 ^ 31`. -/
def accessesLeft : LockPhase → ℕ
  | entering _ => 63
  | watching _ pause => 2 * (31 - pause.toNat.log2)
  | grabbing _ pause => 2 * (31 - pause.toNat.log2) - 1
  | _ => 0

theorem Bounded.spinning {p : LockPhase} (bounded : p.Bounded) : p.Spinning := by
  cases p <;> trivial

variable {cpus : ℕ} {x mutex : Mutex} {p next failed : LockPhase} {spin pause : UInt32}

theorem toNat_double (small : pause.toNat < 2 ^ 31) :
    (pause <<< 1).toNat = 2 * pause.toNat := by
  rw [UInt32.toNat_shiftLeft, show (1 : UInt32).toNat % 32 = 1 from rfl, Nat.shiftLeft_eq]
  omega

theorem two_pow_double (n : ℕ) :
    UInt32.ofNat (2 ^ n) <<< 1 = UInt32.ofNat (2 ^ (n + 1)) := by
  rw [← UInt32.toNat_inj, UInt32.toNat_shiftLeft, UInt32.toNat_ofNat', UInt32.toNat_ofNat',
    show (1 : UInt32).toNat % 32 = 1 from rfl, Nat.shiftLeft_eq, Nat.pow_succ]
  omega

/-- A power of two that does not fit into 32 bits becomes 0. -/
theorem toNat_two_pow_le (n : ℕ) : (UInt32.ofNat (2 ^ n)).toNat ≤ 2 ^ 31 := by
  rw [UInt32.toNat_ofNat']
  obtain small | large := Nat.lt_or_ge n 32
  · exact (Nat.mod_le _ _).trans (Nat.pow_le_pow_right Nat.two_pos (by omega))
  · rw [Nat.mod_eq_zero_of_dvd (Nat.pow_dvd_pow 2 large)]
    exact Nat.zero_le _

/-- An access is one of the backoff's last ones, or it leaves fewer of them. -/
def Progress (p next : LockPhase) : Prop :=
  next = holding ∨ next = claiming ∨ next.Bounded ∧ next.accessesLeft < p.accessesLeft

theorem Progress.of_spinning (progress : Progress p next) (spinning : next.Spinning) :
    next.Bounded ∧ next.accessesLeft < p.accessesLeft := by
  obtain rfl | rfl | keeps := progress
  · exact spinning.elim
  · exact spinning.elim
  · exact keeps

theorem progress_backOff (positive : 0 < pause.toNat) (few : spin.toNat ≤ 2 ^ 31)
    (fewer : 2 * (31 - pause.toNat.log2) < p.accessesLeft) :
    Progress p (backOff spin pause) := by
  rw [backOff]
  split
  · rename_i below
    exact Or.inr (Or.inr ⟨⟨positive, UInt32.lt_iff_toNat_lt.mp below, few⟩, fewer⟩)
  · exact Or.inr (Or.inl rfl)

theorem progress_exchange (progress : Progress p failed)
    (accessed : exchange x failed = (mutex, next)) : Progress p next := by
  rw [exchange] at accessed
  split at accessed <;> cases accessed
  · exact Or.inl rfl
  · exact progress

theorem log2_toNat_lt (positive : 0 < pause.toNat) (small : pause.toNat < 2 ^ 31) :
    pause.toNat.log2 < 31 := (Nat.log2_lt positive.ne').mpr small

/-- The next round has two accesses fewer left than the one before. -/
theorem accessesLeft_double (positive : 0 < pause.toNat) (small : pause.toNat < 2 ^ 31) :
    2 * (31 - (pause <<< 1).toNat.log2) + 2 ≤ 2 * (31 - pause.toNat.log2) := by
  have below := log2_toNat_lt positive small
  rw [toNat_double small, Nat.log2_two_mul positive.ne']
  omega

theorem Bounded.accessesLeft_pos (bounded : p.Bounded) : 0 < p.accessesLeft := by
  cases p
  case entering spin => exact Nat.succ_pos 62
  case watching spin pause | grabbing spin pause =>
    have below := log2_toNat_lt bounded.1 (by have := bounded.2; omega)
    simp only [accessesLeft]
    omega
  all_goals exact bounded.elim

theorem Bounded.progress (bounded : p.Bounded)
    (accessed : p.access? cpus x = some (mutex, next)) : Progress p next := by
  cases p
  case entering spin =>
    refine progress_exchange ?_ (Option.some.inj accessed)
    split
    · have one : (1 : UInt32).toNat = 1 := rfl
      have log : Nat.log2 1 = 0 := by decide
      refine progress_backOff (by rw [one]; exact Nat.one_pos) bounded ?_
      rw [one, log, accessesLeft]
      decide
    · exact Or.inr (Or.inl rfl)
  case watching spin pause =>
    obtain ⟨positive, below, few⟩ := bounded
    have fewer := accessesLeft_double positive (by omega)
    cases accessed
    split
    · exact Or.inr (Or.inr ⟨⟨positive, below, few⟩, by simp only [accessesLeft]; omega⟩)
    · refine progress_backOff ?_ few (by simp only [accessesLeft]; omega)
      rw [toNat_double (by omega)]
      omega
  case grabbing spin pause =>
    obtain ⟨positive, below, few⟩ := bounded
    have fewer := accessesLeft_double positive (by omega)
    refine progress_exchange ?_ (Option.some.inj accessed)
    refine progress_backOff ?_ few (by simp only [accessesLeft]; omega)
    rw [toNat_double (by omega)]
    omega
  all_goals exact bounded.elim

end LockPhase

namespace Contention

variable {ι : Type} {cpus : ℕ} {s after : Contention ι} {run : ℕ → Contention ι} {i j : ι}
  {t u v : ℕ}

/-- Executor `i` is in its backoff from time `t` up to time `u`. -/
def SpinsUntil (run : ℕ → Contention ι) (i : ι) (t u : ℕ) : Prop :=
  t ≤ u ∧ ∀ v, t ≤ v → v ≤ u → ((run v).phase i).Spinning

namespace SpinsUntil

theorem step (spins : SpinsUntil run i t u) (spinning : ((run (u + 1)).phase i).Spinning) :
    SpinsUntil run i t (u + 1) := by
  refine ⟨Nat.le_succ_of_le spins.1, fun v late early => ?_⟩
  obtain below | rfl := Nat.lt_or_eq_of_le early
  · exact spins.2 v late (Nat.le_of_lt_succ below)
  · exact spinning

theorem split (spins : SpinsUntil run i t v) (late : t ≤ u) (early : u ≤ v) :
    SpinsUntil run i t u ∧ SpinsUntil run i u v :=
  ⟨⟨late, fun w after before => spins.2 w after (before.trans early)⟩,
    ⟨early, fun w after before => spins.2 w (late.trans after) before⟩⟩

end SpinsUntil

variable [DecidableEq ι]

/-- A step in which executor `i` makes an access to the word. -/
def Accesses (cpus : ℕ) (i : ι) (s after : Contention ι) : Prop :=
  ∃ mutex next, (s.phase i).access? cpus s.mutex = some (mutex, next) ∧
    after = s.move i mutex next

/-- An endless sequence of steps from a calm start. -/
structure IsRun (cpus : ℕ) (run : ℕ → Contention ι) : Prop where
  start : run 0 = calm
  step : ∀ t, Step cpus (run t) (run (t + 1))

/-- The times from `t` on at which executor `i` makes the accesses of its backoff. -/
def backOffTimes (cpus : ℕ) (run : ℕ → Contention ι) (i : ι) (t : ℕ) : Set ℕ :=
  {u | SpinsUntil run i t u ∧ Accesses cpus i (run u) (run (u + 1))}

/-- The backoff in which executor `i` is at time `t` comes to an end. -/
structure EndsBackOff (cpus : ℕ) (run : ℕ → Contention ι) (i : ι) (t : ℕ) : Prop where
  finite : (backOffTimes cpus run i t).Finite
  /-- An executor that goes on making accesses gets out of it. -/
  leaves : (∀ n, ∃ u, n ≤ u ∧ Accesses cpus i (run u) (run (u + 1))) →
    ∃ u, SpinsUntil run i t u ∧ ¬((run (u + 1)).phase i).Spinning
  /-- It then has the lock, or goes on to swap 2 in. -/
  followed : ∀ u, SpinsUntil run i t u → ¬((run (u + 1)).phase i).Spinning →
    (run (u + 1)).phase i = .holding ∨ (run (u + 1)).phase i = .claiming

theorem Accesses.progress (accesses : Accesses cpus i s after)
    (bounded : (s.phase i).Bounded) :
    LockPhase.Progress (s.phase i) (after.phase i) := by
  obtain ⟨mutex, next, accessed, rfl⟩ := accesses
  simpa using bounded.progress accessed

/-- Nobody but the executor itself moves it on in its backoff. -/
theorem Step.spinning (next : Step cpus s after) (spinning : (s.phase i).Spinning) :
    after.phase i = s.phase i ∨ Accesses cpus i s after := by
  have other : ∀ {k : ι} {mutex : Mutex} {p : LockPhase}, ¬(s.phase k).Spinning →
      (s.move k mutex p).phase i = s.phase i := by
    intro k mutex p idle
    refine phase_move_of_ne s mutex p ?_
    rintro rfl
    exact idle spinning
  cases next with
  | tryLock away => exact Or.inl (other (by rw [away]; exact id))
  | lock spin away => exact Or.inl (other (by rw [away]; exact id))
  | @access k mutex p accessed =>
    by_cases same : i = k
    · subst same
      exact Or.inr ⟨mutex, p, accessed, rfl⟩
    · exact Or.inl (phase_move_of_ne s mutex p same)
  | @wake k l rousing asleep =>
    left
    rw [phase_move_of_ne _ _ _ (by rintro rfl; rw [asleep] at spinning; exact spinning)]
    exact other (by rw [rousing]; exact id)
  | wakeNobody rousing awake => exact Or.inl (other (by rw [rousing]; exact id))
  | stir asleep => exact Or.inl (other (by rw [asleep]; exact id))

namespace IsRun

/-- Over a step, a bounded backoff either stays where it is or progresses. -/
theorem progress (isRun : IsRun cpus run) (bounded : ((run u).phase i).Bounded) :
    (run (u + 1)).phase i = (run u).phase i ∨
      LockPhase.Progress ((run u).phase i) ((run (u + 1)).phase i) := by
  obtain same | accesses := (isRun.step u).spinning bounded.spinning
  · exact Or.inl same
  · exact Or.inr (accesses.progress bounded)

/-- A bounded backoff stays bounded while it goes on, and its accesses do not
become more. -/
theorem keeps_bounded (isRun : IsRun cpus run) (bounded : ((run t).phase i).Bounded)
    (spins : SpinsUntil run i t u) : ((run u).phase i).Bounded ∧
      ((run u).phase i).accessesLeft ≤ ((run t).phase i).accessesLeft := by
  obtain ⟨late, spinning⟩ := spins
  induction u, late using Nat.le_induction with
  | base => exact ⟨bounded, le_rfl⟩
  | succ u late ih =>
    have before := ih fun v late early => spinning v late (Nat.le_succ_of_le early)
    have still := spinning (u + 1) (Nat.le_succ_of_le late) le_rfl
    obtain same | progress := isRun.progress before.1
    · rw [same]
      exact before
    · obtain ⟨keeps, fewer⟩ := progress.of_spinning still
      exact ⟨keeps, fewer.le.trans before.2⟩

/-- Each access of a bounded backoff leaves fewer accesses than the one before. -/
theorem accessesLeft_strictAntiOn (isRun : IsRun cpus run)
    (bounded : ((run t).phase i).Bounded) :
    StrictAntiOn (fun u => ((run u).phase i).accessesLeft) (backOffTimes cpus run i t) := by
  rintro u ⟨spins, accesses⟩ v ⟨spinsOn, -⟩ earlier
  have further := (spinsOn.split (Nat.le_succ_of_le spins.1) earlier).2
  have atStart := (isRun.keeps_bounded bounded spins).1
  obtain ⟨keeps, fewer⟩ :=
    (accesses.progress atStart).of_spinning (further.2 (u + 1) le_rfl earlier)
  -- Whatever happens between the two accesses gives none of them back.
  exact (isRun.keeps_bounded keeps further).2.trans_lt fewer

/-- A bounded backoff makes no more accesses than it has left. -/
theorem encard_backOffTimes_le (isRun : IsRun cpus run) (bounded : ((run t).phase i).Bounded) :
    (backOffTimes cpus run i t).encard ≤ ((run t).phase i).accessesLeft := by
  have counted : Set.MapsTo (fun u => ((run u).phase i).accessesLeft)
      (backOffTimes cpus run i t) (Set.Icc 1 ((run t).phase i).accessesLeft) := by
    rintro u ⟨spins, -⟩
    have atStart := isRun.keeps_bounded bounded spins
    exact ⟨atStart.1.accessesLeft_pos, atStart.2⟩
  refine (Set.encard_le_encard_of_injOn counted
    (isRun.accessesLeft_strictAntiOn bounded).injOn).trans ?_
  rw [← Finset.coe_Icc, Set.encard_coe_eq_coe_finsetCard, Nat.card_Icc, Nat.add_sub_cancel]

/-- An executor whose backoff makes finitely many accesses gets out of it, if it
goes on making accesses. -/
theorem leaves (finite : (backOffTimes cpus run i t).Finite)
    (spinning : ((run t).phase i).Spinning)
    (active : ∀ n, ∃ u, n ≤ u ∧ Accesses cpus i (run u) (run (u + 1))) :
    ∃ u, SpinsUntil run i t u ∧ ¬((run (u + 1)).phase i).Spinning := by
  by_contra never
  push Not at never
  have forever : ∀ u, t ≤ u → SpinsUntil run i t u := by
    intro u late
    induction u, late using Nat.le_induction with
    | base => exact ⟨le_rfl, fun v late early => le_antisymm early late ▸ spinning⟩
    | succ u late ih => exact ih.step (never u ih)
  obtain ⟨last, above⟩ := finite.bddAbove
  obtain ⟨u, late, accesses⟩ := active (max t last + 1)
  have among : u ∈ backOffTimes cpus run i t := ⟨forever u (by omega), accesses⟩
  have := above among
  omega

theorem endsBackOff (isRun : IsRun cpus run) (bounded : ((run t).phase i).Bounded) :
    EndsBackOff cpus run i t := by
  have finite : (backOffTimes cpus run i t).Finite :=
    Set.finite_of_encard_le_coe (isRun.encard_backOffTimes_le bounded)
  refine ⟨finite, leaves finite bounded.spinning, fun u spins ended => ?_⟩
  have before := (isRun.keeps_bounded bounded spins).1
  obtain same | held | claims | ⟨keeps, -⟩ := isRun.progress before
  · rw [same] at ended
    exact absurd before.spinning ended
  · exact Or.inl held
  · exact Or.inr claims
  · exact absurd keeps.spinning ended

end IsRun

theorem move_move (s : Contention ι) (mutex between : Mutex) (p next : LockPhase) :
    (s.move i between p).move i mutex next = s.move i mutex next := by
  rw [move, move, move, Function.update_idem]

theorem Accesses.step (accesses : Accesses cpus i s after) : Step cpus s after := by
  obtain ⟨mutex, next, accessed, rfl⟩ := accesses
  exact .access accessed

/-- Executor `j` has the lock, executor `i` is in some phase, and everybody else is
away. -/
def heldBy (j i : ι) (p : LockPhase) : Contention ι :=
  (calm.move j ⟨1⟩ .holding).move i ⟨1⟩ p

/-- While executor `j` keeps the lock, executor `i` doubles its pause again and
again. -/
def spinningRun (j i : ι) (spin : UInt32) : ℕ → Contention ι
  | 0 => calm
  | 1 => calm.move j .fresh .trying
  | 2 => calm.move j ⟨1⟩ .holding
  | 3 => heldBy j i (.entering spin)
  | n + 4 => heldBy j i (.watching spin (UInt32.ofNat (2 ^ n)))

theorem accesses_heldBy {p next : LockPhase}
    (accessed : p.access? cpus ⟨1⟩ = some (⟨1⟩, next)) :
    Accesses cpus i (heldBy j i p) (heldBy j i next) := by
  refine ⟨⟨1⟩, next, ?_, (move_move ..).symm⟩
  simpa [heldBy] using accessed

theorem spinningRun_accesses (more : 1 < cpus) {spin : UInt32} (large : 2 ^ 31 < spin.toNat)
    (n : ℕ) :
    Accesses cpus i (spinningRun j i spin (n + 3)) (spinningRun j i spin (n + 4)) := by
  have goesOn (n : ℕ) : LockPhase.backOff spin (UInt32.ofNat (2 ^ n)) =
      .watching spin (UInt32.ofNat (2 ^ n)) := by
    rw [LockPhase.backOff, if_pos]
    exact UInt32.lt_iff_toNat_lt.mpr ((LockPhase.toNat_two_pow_le n).trans_lt large)
  cases n with
  | zero =>
    refine accesses_heldBy ?_
    rw [LockPhase.access?, if_pos more]
    exact congrArg (fun next => some (Mutex.mk 1, next)) (goesOn 0)
  | succ n =>
    refine accesses_heldBy ?_
    rw [← goesOn (n + 1), ← LockPhase.two_pow_double]
    rfl

theorem isRun_spinningRun (apart : i ≠ j) (more : 1 < cpus) {spin : UInt32}
    (large : 2 ^ 31 < spin.toNat) : IsRun cpus (spinningRun j i spin) where
  start := rfl
  step
    | 0 => .tryLock (i := j) rfl
    | 1 => by
      have takes : Accesses cpus j (calm.move j .fresh .trying) (calm.move j ⟨1⟩ .holding) := by
        refine ⟨⟨1⟩, .holding, ?_, (move_move ..).symm⟩
        rw [phase_move_self]
        rfl
      exact takes.step
    | 2 => .lock (i := i) spin (phase_move_of_ne calm _ _ apart)
    | n + 3 => (spinningRun_accesses more large n).step

/-- The lock is held all along, and the backoff does not end. -/
theorem not_endsBackOff_spinningRun (more : 1 < cpus) {spin : UInt32}
    (large : 2 ^ 31 < spin.toNat) : ¬EndsBackOff cpus (spinningRun j i spin) i 3 := by
  intro ends
  have spins : ∀ u, 3 ≤ u → ((spinningRun j i spin u).phase i).Spinning := by
    intro u late
    obtain ⟨n, rfl⟩ := Nat.exists_eq_add_of_le' late
    cases n <;> (rw [spinningRun, heldBy, phase_move_self]; trivial)
  refine Set.infinite_of_not_bddAbove ?_ ends.finite
  rintro ⟨last, above⟩
  have among : last + 1 + 3 ∈ backOffTimes cpus (spinningRun j i spin) i 3 :=
    ⟨⟨by omega, fun v late _ => spins v late⟩, spinningRun_accesses more large (last + 1)⟩
  have := above among
  omega

/-- On a machine with more than one processor, a backoff comes to an end under
all circumstances exactly if its bound is at most `2 ^ 31`. A pause of 32 bits
gets to such a bound by being doubled; beyond it, the pause becomes 0 and stays
below the bound for as long as somebody else has the lock. -/
theorem endsBackOff_iff (more : 1 < cpus) (apart : i ≠ j) (spin : UInt32) :
    (∀ run t, IsRun cpus run → (run t).phase i = .entering spin → EndsBackOff cpus run i t) ↔
      spin.toNat ≤ 2 ^ 31 := by
  constructor
  · intro ends
    by_contra large
    push Not at large
    refine not_endsBackOff_spinningRun more large
      (ends (spinningRun j i spin) 3 (isRun_spinningRun apart more large) ?_)
    simp [spinningRun, heldBy]
  · intro few run t isRun entering
    refine isRun.endsBackOff ?_
    rw [entering]
    exact few

/-- The standard bound is small enough; the first one that is not is `2 ^ 31 + 1`. -/
theorem endsBackOff_iff_two_bounds :
    (∀ (run : ℕ → Contention Bool) (t : ℕ), IsRun 2 run →
      (run t).phase false = .entering 2048 → EndsBackOff 2 run false t) ∧
    ¬∀ (run : ℕ → Contention Bool) (t : ℕ), IsRun 2 run →
      (run t).phase false = .entering 2147483649 → EndsBackOff 2 run false t := by
  have more : 1 < 2 := by decide
  have apart : false ≠ true := by decide
  exact ⟨(endsBackOff_iff more apart 2048).mpr (by decide),
    fun ends => absurd ((endsBackOff_iff more apart 2147483649).mp ends) (by decide)⟩

/-- With the largest bound, a waiter backs off for good while the lock is held. -/
theorem backOff_endless : ∃ run : ℕ → Contention Bool, IsRun 2 run ∧
    (∀ t, 2 ≤ t → (run t).phase true = .holding) ∧
    (run 3).phase false = .entering 4294967295 ∧ ¬EndsBackOff 2 run false 3 := by
  have large : 2 ^ 31 < (4294967295 : UInt32).toNat := by decide
  refine ⟨spinningRun true false 4294967295, isRun_spinningRun (by decide) (by decide) large,
    ?_, rfl, not_endsBackOff_spinningRun (by decide) large⟩
  intro t late
  obtain ⟨n, rfl⟩ := Nat.exists_eq_add_of_le' late
  match n with
  | 0 | 1 | n + 2 => rfl

end Contention

end SlabAllocator
