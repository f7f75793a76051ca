import SlabAllocator.Proofs.Twins

namespace SlabAllocator

/-- A span of memory in the course of its use: its bytes, the region that was laid
out in it last, and the blocks in use. -/
structure Span where
  memory : Memory
  region : Option Region
  live : List Block

namespace Span

/-- What is asked of a span: to lay out a pool in it, or something of that pool. -/
inductive Ask where
  | create (pageSize minShift : Nat)
  | turn (turn : Turn)
  deriving DecidableEq, Repr

/-- What the asker is told. Nothing is told where the lock is waited for. -/
inductive Reply where
  | created (outcome : Except SetupError Region)
  | response (response : Option Response)

/-- A byte of a block in use. -/
def Lent (s : Span) (x : Nat) : Prop :=
  ∃ r, s.region = some r ∧ ∃ b ∈ s.live, b.Covers r.geometry x

theorem not_lent {s : Span} {r : Region} {x : Nat} (laid : s.region = some r)
    (none : ∀ b ∈ s.live, ¬b.Covers r.geometry x) : ¬s.Lent x := by
  rintro ⟨_, same, b, listed, covers⟩
  obtain rfl := Option.some.inj (laid.symm.trans same)
  exact none b listed covers

/-- Callers wrote what they liked to the blocks that they hold, and nothing
else. -/
structure Written (s after : Span) : Prop where
  region : after.region = s.region
  live : after.live = s.live
  byte : ∀ x, ¬s.Lent x → after.memory.byte x = s.memory.byte x

theorem Written.refl (s : Span) : s.Written s := ⟨rfl, rfl, fun _ _ => rfl⟩

/-- One ask and its reply. The settings may be any that ask for this page size and
this least chunk, and the handle any on the region; a new pool takes the place of
what was there. -/
inductive Step (base length : Nat) (s : Span) : Ask → Reply → Span → Prop
  | created {settings : Settings} {pool : Pool} {after : Memory}
      (run : Pool.create base length settings s.memory = (.ok pool, after)) :
      Step base length s (.create settings.pageSize settings.minShift) (.created (.ok pool.region))
        ⟨after, some pool.region, []⟩
  | rejected {settings : Settings} {e : SetupError} {after : Memory}
      (run : Pool.create base length settings s.memory = (.error e, after)) :
      Step base length s (.create settings.pageSize settings.minShift) (.created (.error e))
        ⟨after, s.region, s.live⟩
  | turn {pool : Pool} {turn : Turn} {response : Option Response} {after : Memory}
      (handle : s.region = some pool.region)
      (run : pool.turn turn s.memory = .ok (response, after)) :
      Step base length s (.turn turn) (.response response) ⟨after, s.region,
        response.elim s.live (turn.request.held pool.region.base s.live)⟩

end Span

/-- The use of a span that held anything at first: what was asked, the latest
first, what was replied, and where that led. Before each ask callers may write to
their blocks. -/
inductive Course (base length : Nat) : List Span.Ask → List Span.Reply → Span → Prop
  | start (m : Memory) : Course base length [] [] ⟨m, none, []⟩
  | step {asks : List Span.Ask} {replies : List Span.Reply} {s between after : Span}
      {ask : Span.Ask} {reply : Span.Reply} (before : Course base length asks replies s)
      (written : s.Written between) (taken : between.Step base length ask reply after) :
      Course base length (ask :: asks) (reply :: replies) after

/-- Two memories hold the same header, the same links to the first pages of the
lists, the same descriptors, and the same bitmaps in the pages of small chunks. -/
structure Region.LooksAlike (r : Region) (m seen : Memory) : Prop where
  header : Header.load seen r.base = Header.load m r.base
  head : ∀ list, r.HasList list → r.headOf list seen = r.headOf list m
  descriptor : ∀ i < r.pageCount, r.descriptor i seen = r.descriptor i m
  bitmap : ∀ i < r.pageCount, ∀ shift, (r.descriptor i m).role = .small shift →
    seen.words (r.pageAddress i) (r.geometry.bitmapWords shift) =
      m.words (r.pageAddress i) (r.geometry.bitmapWords shift)

theorem Region.Twins.looksAlike {r : Region} {t : PageMap} {live : List Block} {m seen : Memory}
    (twins : r.Twins t live m seen) : r.LooksAlike m seen where
  header := twins.load_eq
  head _ known := twins.one.shows_.headOf_eq twins.two.shows_ known
  descriptor _ within := twins.one.shows_.descriptor_eq twins.two.shows_ within
  bitmap _ within _ small :=
    twins.one.shows_.bitmap_eq twins.two.shows_ twins.one.sound within small

/-- Two spans that hold twins of one region with a free lock, if they hold a pool
at all. -/
structure Span.Alike (s z : Span) : Prop where
  region : z.region = s.region
  live : z.live = s.live
  twins : ∀ r, s.region = some r →
    r.lockWord s.memory = 0 ∧ ∃ t, r.Twins t s.live s.memory z.memory

namespace Span.Alike

variable {base length : Nat} {s z between behind after left : Span} {ask : Ask} {reply echo : Reply}

theorem written (alike : s.Alike z) (one : s.Written between) (two : z.Written behind) :
    between.Alike behind where
  region := two.region.trans (alike.region.trans one.region.symm)
  live := two.live.trans (alike.live.trans one.live.symm)
  twins r laid := by
    rw [one.region] at laid
    obtain ⟨free, t, twins⟩ := alike.twins r laid
    obtain ⟨next, word⟩ := twins.written (fun x none => one.byte x (not_lent laid none))
      fun x none => two.byte x (not_lent (alike.region.trans laid) (by rwa [alike.live]))
    rw [one.live]
    exact ⟨word.trans free, t, next⟩

/-- The same ask is replied alike by both and leaves them alike. -/
theorem step (alike : s.Alike z) (one : s.Step base length ask reply after)
    (two : z.Step base length ask echo left) : reply = echo ∧ after.Alike left := by
  generalize asked : ask = also at two
  cases one with
  | @created settings pool m run =>
    cases two with
    | @created others second n ran =>
      obtain ⟨size, least⟩ := Ask.create.inj asked
      obtain ⟨_, _, again, same⟩ := Pool.create_congr size.symm least.symm z.memory run
      cases ran.symm.trans again
      obtain ⟨twins, free⟩ := Pool.twins_create run ran same
      refine ⟨by rw [same], congrArg some same, rfl, fun r laid => ?_⟩
      obtain rfl := Option.some.inj laid
      exact ⟨free, _, twins⟩
    | @rejected others e left ran =>
      obtain ⟨size, least⟩ := Ask.create.inj asked
      obtain ⟨_, _, again, _⟩ := Pool.create_congr size.symm least.symm z.memory run
      cases ran.symm.trans again
    | turn => cases asked
  | @rejected settings e after run =>
    cases two with
    | @created others second n ran =>
      obtain ⟨size, least⟩ := Ask.create.inj asked
      cases ran.symm.trans (Pool.create_refused_congr size.symm least.symm z.memory run)
    | @rejected others d left ran =>
      obtain ⟨size, least⟩ := Ask.create.inj asked
      cases ran.symm.trans (Pool.create_refused_congr size.symm least.symm z.memory run)
      obtain ⟨rfl, _⟩ := Pool.create_failed run
      exact ⟨rfl, alike⟩
    | turn => cases asked
  | @turn pool turn response m handle run =>
    cases two with
    | created => cases asked
    | rejected => cases asked
    | @turn other _ told n there ran =>
      obtain rfl := Ask.turn.inj asked
      obtain ⟨free, t, twins⟩ := alike.twins _ handle
      rw [alike.region, handle] at there
      have same := Option.some.inj there
      obtain ⟨answer, _, _, next, took, again, left, word⟩ := twins.turn free rfl same.symm turn
      cases run.symm.trans took
      cases ran.symm.trans again
      refine ⟨rfl, alike.region, ?_, fun r laid => ?_⟩
      · simp only [Option.elim, alike.live, same]
      · obtain rfl := Option.some.inj (handle.symm.trans laid)
        exact ⟨word, next, left⟩

end Span.Alike

namespace Course

variable {base length : Nat} {asks : List Span.Ask} {replies echoes : List Span.Reply} {s z : Span}

theorem alike (one : Course base length asks replies s) (two : Course base length asks echoes z) :
    replies = echoes ∧ s.Alike z := by
  induction one generalizing echoes z with
  | start m =>
    cases two
    exact ⟨rfl, rfl, rfl, nofun⟩
  | step _ written taken ih =>
    cases two with
    | step earlier also done =>
      obtain ⟨rfl, first⟩ := ih earlier
      obtain ⟨rfl, next⟩ := (first.written written also).step taken done
      exact ⟨rfl, next⟩

/-- What is replied to a course of asks, and what the tables hold after each of
them, depends on the asks alone: not on what the span held at first, nor on the
handles, nor on what callers wrote to their blocks. And no turn fails or waits. -/
theorem independent_of_data (one : Course base length asks replies s)
    (two : Course base length asks echoes z) :
    replies = echoes ∧ z.region = s.region ∧ z.live = s.live ∧
      (∀ r, s.region = some r → r.LooksAlike s.memory z.memory) ∧
      ∀ between (pool : Pool) (turn : Turn), s.Written between → s.region = some pool.region →
        ∃ response after, pool.turn turn between.memory = .ok (some response, after) := by
  obtain ⟨same, region, live, twins⟩ := one.alike two
  refine ⟨same, region, live, fun r laid => ?_, fun between pool turn written handle => ?_⟩
  · obtain ⟨_, t, alike⟩ := twins r laid
    exact alike.looksAlike
  · obtain ⟨free, t, alike⟩ := ((one.alike one).2.written written written).twins _
      (written.region.trans handle)
    obtain ⟨response, after, _, _, run, _⟩ := alike.turn free rfl rfl turn
    exact ⟨response, after, run⟩

/-- The response to the first turn of a new pool, and one byte after it. -/
def firstTurn (base length : Nat) (settings : Settings) (m : Memory) (turn : Turn) (x : Nat) :
    Option (Option Response × UInt8) :=
  inNewPool base length settings m fun pool fresh => do
    let (response, after) ← pool.turn turn fresh
    return (response, after.byte x)

theorem of_firstTurn {settings : Settings} {m : Memory} {turn : Turn} {response : Option Response}
    {x : Nat} {value : UInt8}
    (outcome : firstTurn base length settings m turn x = some (response, value)) :
    ∃ r s, Course base length [.turn turn, .create settings.pageSize settings.minShift]
        [.response response, .created (.ok r)] s ∧ s.region = some r ∧ s.memory.byte x = value := by
  obtain ⟨pool, fresh, created, taken⟩ := of_inNewPool outcome
  obtain ⟨⟨told, after⟩, ran, same⟩ := answer_of_bind taken
  obtain ⟨rfl, byte⟩ := Prod.mk.inj (Except.ok.inj same)
  have first : Course base length [.create settings.pageSize settings.minShift]
      [.created (.ok pool.region)] ⟨fresh, some pool.region, []⟩ :=
    (start m).step (.refl _) (.created created)
  exact ⟨pool.region, _, first.step (.refl _) (.turn rfl ran), rfl, byte⟩

/-- A span of zeros and one of other bytes, which is overwritten with junk. -/
theorem independent_of_data_one_turn : ∃ (r : Region) (s z : Span),
    Course 4096 2048 [.turn ⟨true, .allocate 5⟩, .create 1024 3]
        [.response (some (.placed 1040)), .created (.ok r)] s ∧
      Course 4096 2048 [.turn ⟨true, .allocate 5⟩, .create 1024 3]
        [.response (some (.placed 1040)), .created (.ok r)] z ∧
      s.region = some r ∧ s.memory.byte 6096 = 0 ∧ z.memory.byte 6096 = 0xA5 ∧
      r.LooksAlike s.memory z.memory := by
  have plain : firstTurn 4096 2048 ⟨3, 1024, 0, false, ""⟩ (Memory.uniform 0 0 0)
      ⟨true, .allocate 5⟩ 6096 = some (some (.placed 1040), 0) := by
    decide +kernel
  have spoiled : firstTurn 4096 2048 ⟨3, 1024, 7, true, "guest"⟩ (Memory.uniform 0 0 7)
      ⟨true, .allocate 5⟩ 6096 = some (some (.placed 1040), 0xA5) := by
    decide +kernel
  obtain ⟨r, s, one, laid, zero⟩ := of_firstTurn plain
  obtain ⟨_, z, two, _, junk⟩ := of_firstTurn spoiled
  obtain ⟨same, _, _, alike, _⟩ := independent_of_data one two
  rw [← same] at two
  exact ⟨r, s, z, one, two, laid, zero, junk, alike r laid⟩

end Course

end SlabAllocator
