import GpuPipe.Library.Totals
import GpuPipe.Ring.Capacity
import GpuPipe.Ring.Unreadable

/-!
# Sleeping and waking at the ring

The ring with the words that consumers sleep on. A put adds to `items_seq` before it releases the lock and
wakes one sleeper if a consumer has announced itself; a consumer that finds nothing reads `items_seq`,
announces itself, releases the lock, and sleeps only if the word has not moved. Sleeps may time out. The
words of the producers are left out: a waiting producer may look again at any time.
-/

namespace GpuPipe.Ring

/-- Where a thread stands beside its phase: it has added to `items_seq`, it has to wake a sleeper, it is on its
way into or in `sleep_on`, or on its way out. -/
inductive Side
  | clear
  | bumped
  | owes
  | announced (seen : ℕ)
  | leaving
  deriving DecidableEq

structure WaitState where
  ring : State
  itemsSeq : ℕ
  waitingConsumers : ℕ
  side : ℕ → Side
  /-- The threads asleep on `items_seq`. -/
  sleeping : List ℕ

def WaitState.start : WaitState where
  ring := .start
  itemsSeq := 0
  waitingConsumers := 0
  side _ := .clear
  sleeping := []

inductive WaitAction
  | ring (thread : ℕ) (move : Move)
  /-- `items_seq.fetch_add` -/
  | bump (thread : ℕ)
  /-- `futex::wake(&s.items_seq.0, 1)`, and the sleeper it takes. -/
  | wake (thread : ℕ) (sleeper : Option ℕ)
  /-- `futex::wait(seq, seen, dur)` -/
  | sleep (thread : ℕ)
  /-- A sleep ends by itself, or is none as its time is up. -/
  | timeout (thread : ℕ)
  /-- `waiting_consumers.fetch_sub` -/
  | leave (thread : ℕ)
  /-- The same, and a signal handler raises. -/
  | interrupt (thread : ℕ)
  | die (process : UInt32)

section Steps

variable (queue : RingQueue) (pid : ℕ → UInt32) (state : WaitState)

def WaitState.turn (thread : ℕ) (side : Side) : WaitState :=
  { state with side := Function.update state.side thread side }

/-- A consumer that goes back to its loop has found nothing, and announces itself before it releases the lock. -/
def WaitState.announce (thread : ℕ) (next : State) : WaitState :=
  match next.phase thread with
  | .get _ =>
    { state with
      ring := next
      waitingConsumers := state.waitingConsumers + 1
      side := Function.update state.side thread (.announced state.itemsSeq) }
  | _ => { state with ring := next }

def ringStep (thread : ℕ) (move : Move) : Option WaitState :=
  match state.side thread, move with
  | .clear, .putDone => none
  | .bumped, .putDone =>
    (step queue pid state.ring (.act thread .putDone)).map fun next ↦
      { state with
        ring := next
        side := Function.update state.side thread (if 0 < state.waitingConsumers then .owes else .clear) }
  | .clear, .getCheck clock =>
    (step queue pid state.ring (.act thread (.getCheck clock))).map (state.announce thread)
  | .clear, move => (step queue pid state.ring (.act thread move)).map fun next ↦ { state with ring := next }
  | _, _ => none

/-- A thread that is on its way out of `sleep_on`. -/
def leaveStep (thread : ℕ) (ring : State) : Option WaitState :=
  match state.side thread with
  | .leaving =>
    some
      { state with
        ring := ring
        waitingConsumers := state.waitingConsumers - 1
        side := Function.update state.side thread .clear }
  | _ => none

def waitStep : WaitAction → Option WaitState
  | .ring thread move => ringStep queue pid state thread move
  | .bump thread =>
    match state.side thread, state.ring.phase thread with
    | .clear, .putRelease _ => some { state.turn thread .bumped with itemsSeq := state.itemsSeq + 1 }
    | _, _ => none
  | .wake thread sleeper =>
    match state.side thread, sleeper with
    | .owes, none => if state.sleeping = [] then some (state.turn thread .clear) else none
    | .owes, some sleeper =>
      if sleeper ∈ state.sleeping then
        some
          { (state.turn thread .clear).turn sleeper .leaving with
            sleeping := state.sleeping.filter (· ≠ sleeper) }
      else none
    | _, _ => none
  | .sleep thread =>
    match state.side thread with
    | .announced seen =>
      if thread ∈ state.sleeping then none
      else if state.itemsSeq % 2 ^ 32 = seen % 2 ^ 32 then
        some { state with sleeping := state.sleeping ++ [thread] }
      else some (state.turn thread .leaving)
    | _ => none
  | .timeout thread =>
    match state.side thread with
    | .announced _ =>
      some { state.turn thread .leaving with sleeping := state.sleeping.filter (· ≠ thread) }
    | _ => none
  | .leave thread => leaveStep state thread state.ring
  | .interrupt thread => leaveStep state thread (state.ring.goto thread .idle)
  | .die process =>
    (step queue pid state.ring (.die process)).map fun next ↦
      { state with ring := next, sleeping := state.sleeping.filter (pid · ≠ process) }

end Steps

def waitMachine (queue : RingQueue) (pid : ℕ → UInt32) : Machine WaitState WaitAction where
  start := .start
  step := waitStep queue pid

/-- Nobody dies or is interrupted, payloads ride whole, and nobody stays between its announcement and its sleep
while `items_seq` goes once round. -/
def undisturbed (queue : RingQueue) (state : WaitState) : WaitAction → Bool
  | .ring thread move => ridesWhole queue state.ring (.act thread move)
  | .sleep thread =>
    match state.side thread with
    | .announced seen => state.itemsSeq - seen < 2 ^ 32
    | _ => true
  | .die _ | .interrupt _ => false
  | _ => true

/-! ## Who will look at the ring -/

/-- A consumer before its look at the ring or its first pop, or a producer before its release. -/
def Phase.wants : Phase → ℕ
  | .get _ | .getLocked _ | .popping _ [] | .counting _ | .putRelease _ => 1
  | _ => 0

/-- A producer whose record is published and whose lock is not released. -/
def Phase.committing : Phase → Bool
  | .counting _ | .putRelease _ => true
  | _ => false

def Phase.getCall : Phase → Option GetCall
  | .get call | .getLocked call | .popping call _ | .popCount call _ | .resyncing call _ | .finishing call _ => some call
  | _ => none

/-- This thread wakes a consumer, or looks at the ring itself. -/
def answers : Side × Phase → ℕ
  | (.owes, _) | (.leaving, _) => 1
  | (.announced _, _) => 0
  | (.clear, phase) | (.bumped, phase) => phase.wants

def Side.waits : Side → ℕ
  | .announced _ | .leaving => 1
  | _ => 0

section Turns

variable {queue : RingQueue} {pid : ℕ → UInt32} {state next : State} {thread : ℕ} {move : Move}

/-- What a move, other than the release of a put, does to the records and to its thread. -/
structure RingTurn (state next : State) (thread : ℕ) : Prop where
  phase : ∃ phase, next.phase = Function.update state.phase thread phase
  wants : next.unread = 0 ∨ next.unread + (state.phase thread).wants ≤ state.unread + (next.phase thread).wants
  commits : next.unread ≤ state.unread ∧
      ((state.phase thread).committing = true → (next.phase thread).committing = true) ∨
    next.unread = state.unread + 1 ∧ (state.phase thread).committing = false ∧
      (state.phase thread).locked = true ∧ (next.phase thread).committing = true
  limit : ∀ get, (next.phase thread).getCall = some get → 1 ≤ get.limit

/-- A move that changes no record. -/
theorem RingTurn.quiet {phase : Phase} (hphase : next.phase = Function.update state.phase thread phase)
    (hunread : next.unread = state.unread) (hwants : (state.phase thread).wants ≤ phase.wants ∨ state.unread = 0)
    (hcommits : (state.phase thread).committing = true → phase.committing = true)
    (hlimit : ∀ get, phase.getCall = some get → 1 ≤ get.limit) : RingTurn state next thread := by
  have hself : next.phase thread = phase := by
    rw [hphase, Function.update_self]
  constructor
  · exact ⟨phase, hphase⟩
  · rw [hunread, hself]
    rcases hwants with hle | hzero
    · exact .inr (Nat.add_le_add_left hle _)
    · exact .inl hzero
  · rw [hunread, hself]
    exact .inl ⟨le_rfl, hcommits⟩
  · rw [hself]
    exact hlimit

theorem putDecide_phase (put : PutCall) (clock : Bool) :
    ∃ phase, (putDecide queue state thread put clock).phase = Function.update state.phase thread phase ∧
      phase.wants = 0 ∧ phase.committing = false ∧ phase.getCall = none := by
  unfold putDecide
  dsimp only
  repeat' split
  all_goals exact ⟨_, rfl, rfl, rfl, rfl⟩

theorem materializeNext_phase (popped : Popped) (rest : List Popped) :
    ∃ phase, (materializeNext state thread popped rest).phase = Function.update state.phase thread phase ∧
      phase.getCall = none := by
  unfold materializeNext
  split
  · refine ⟨_, rfl, ?_⟩
    split <;> rfl
  · exact ⟨_, rfl, rfl⟩

/-- What a move does on the consumers' side. -/
theorem moveStep_turn (h : Inv queue pid state)
    (hlimit : ∀ get, (state.phase thread).getCall = some get → 1 ≤ get.limit)
    (hmove : ∀ put, state.phase thread = .putRelease put → move ≠ .putDone)
    (hnext : moveStep queue pid state thread move = some next) : RingTurn state next thread := by
  cases moveStep_cases hnext with
  | putBegin data deadline disk hphase =>
    exact .quiet rfl rfl (.inl (by rw [hphase]; exact le_rfl)) (by rw [hphase]; rintro ⟨⟩) (by rintro _ ⟨⟩)
  | spill put result hphase _ _ hspill =>
    have hframe := spill_frame hspill
    have hunread : next.unread = state.unread := by rw [State.unread, hframe.puts, hframe.pops, State.unread]
    rcases hframe.phase with hidle | ⟨put', hput⟩
    · exact .quiet hidle hunread (.inl (by rw [hphase]; exact le_rfl)) (by rw [hphase]; rintro ⟨⟩) (by rintro _ ⟨⟩)
    · exact .quiet hput hunread (.inl (by rw [hphase]; exact le_rfl)) (by rw [hphase]; rintro ⟨⟩) (by rintro _ ⟨⟩)
  | acquirePut put hphase =>
    exact .quiet rfl rfl (.inl (by rw [hphase]; exact le_rfl)) (by rw [hphase]; rintro ⟨⟩) (by rintro _ ⟨⟩)
  | acquireGet get hphase =>
    rw [hphase] at hlimit
    exact .quiet rfl rfl (.inl (by rw [hphase]; exact le_rfl)) (by rw [hphase]; rintro ⟨⟩) hlimit
  | putDecide put clock hphase =>
    obtain ⟨phase, hnext, hwants, hcommits, hcall⟩ := @putDecide_phase queue state thread put clock
    have hhistory := @putDecide_history queue state thread put clock
    refine .quiet hnext ?_ (.inl (by rw [hphase]; exact Nat.zero_le _)) (by rw [hphase]; rintro ⟨⟩) ?_
    · rw [State.unread, hhistory.1, hhistory.2.1, State.unread]
    · intro get hget
      rw [hcall] at hget
      cases hget
  | store put record address byte todo hphase =>
    exact .quiet rfl rfl (.inl (by rw [hphase]; exact le_rfl)) (by rw [hphase]; rintro ⟨⟩) (by rintro _ ⟨⟩)
  | storeTail put record hphase =>
    have hunread : (State.goto { state with
        shared := { state.shared with tail := nextTail queue state.shared record }
        puts := state.puts ++ [⟨put.call, put.data⟩] } thread (.counting put)).unread = state.unread + 1 := by
      have hle := h.pops_le
      simp only [State.unread, State.goto, List.length_append, List.length_singleton]
      omega
    constructor
    · exact ⟨_, rfl⟩
    · right
      rw [hunread, hphase, goto_phase]
      exact le_rfl
    · right
      rw [hunread, hphase, goto_phase]
      exact ⟨rfl, rfl, rfl, rfl⟩
    · intro get hget
      rw [goto_phase] at hget
      cases hget
  | addCount put hphase =>
    exact .quiet rfl rfl (.inl (by rw [hphase]; exact le_rfl)) (fun _ ↦ rfl) (by rintro _ ⟨⟩)
  | putDone put hphase => exact absurd rfl (hmove put hphase)
  | interrupted put hphase | wake put hphase | putAbort put hphase =>
    exact .quiet rfl rfl (.inl (by rw [hphase]; exact le_rfl)) (by rw [hphase]; rintro ⟨⟩) (by rintro _ ⟨⟩)
  | getBegin get hphase =>
    refine .quiet rfl rfl (.inl (by rw [hphase]; exact Nat.zero_le _)) (by rw [hphase]; rintro ⟨⟩) ?_
    intro call hcall
    cases hcall
    dsimp only
    split
    · exact Nat.le_max_right _ _
    · exact le_rfl
  | getItems get clock hphase =>
    rw [hphase] at hlimit
    exact .quiet rfl rfl (.inl (by rw [hphase]; exact le_rfl)) (by rw [hphase]; rintro ⟨⟩) hlimit
  | getExpired get clock hphase hempty =>
    exact .quiet rfl rfl (.inr (h.unread_zero hempty)) (by rw [hphase]; rintro ⟨⟩) (by rintro _ ⟨⟩)
  | getAgain get clock hphase =>
    rw [hphase] at hlimit
    exact .quiet rfl rfl (.inl (by rw [hphase]; exact le_rfl)) (by rw [hphase]; rintro ⟨⟩) hlimit
  | popEnough get got hphase hfull =>
    have hone : 1 ≤ get.limit := hlimit get (by rw [hphase]; rfl)
    rw [hphase] at hlimit
    refine .quiet rfl rfl (.inl ?_) (by rw [hphase]; rintro ⟨⟩) hlimit
    rw [hphase]
    cases got with
    | nil =>
      rw [List.length_nil] at hfull
      omega
    | cons => exact le_rfl
  | popEmpty get got hphase hempty =>
    rw [hphase] at hlimit
    exact .quiet rfl rfl (.inr (h.unread_zero hempty)) (by rw [hphase]; rintro ⟨⟩) hlimit
  | pop get got hphase hne =>
    have hpos := h.unread_pos hne
    rw [hphase] at hlimit
    constructor
    · exact ⟨_, rfl⟩
    · right
      have hwants : (Phase.popping get got).wants ≤ 1 := by
        cases got with
        | nil => exact le_rfl
        | cons => exact Nat.zero_le _
      rw [hphase]
      simp only [State.unread, State.goto, List.length_append, List.length_singleton]
      omega
    · left
      rw [hphase]
      constructor
      · simp only [State.unread, State.goto, List.length_append, List.length_singleton]
        omega
      · rintro ⟨⟩
    · rw [goto_phase]
      exact hlimit
  | storeCount get got hphase =>
    rw [hphase] at hlimit
    exact .quiet rfl rfl (.inl (by rw [hphase]; exact Nat.zero_le _)) (by rw [hphase]; rintro ⟨⟩) hlimit
  | resync get got hphase =>
    rw [hphase] at hlimit
    exact .quiet rfl rfl (.inl (by rw [hphase]; exact le_rfl)) (by rw [hphase]; rintro ⟨⟩) hlimit
  | finishRead get popped rest hphase =>
    exact .quiet rfl rfl (.inl (by rw [hphase]; exact le_rfl)) (by rw [hphase]; rintro ⟨⟩) (by rintro _ ⟨⟩)
  | finishMany get hphase =>
    exact .quiet rfl rfl (.inl (by rw [hphase]; exact le_rfl)) (by rw [hphase]; rintro ⟨⟩) (by rintro _ ⟨⟩)
  | finishAgain get hphase =>
    rw [hphase] at hlimit
    exact .quiet rfl rfl (.inl (by rw [hphase]; exact Nat.zero_le _)) (by rw [hphase]; rintro ⟨⟩) hlimit
  | materialize popped rest hphase =>
    obtain ⟨phase, hnext, hcall⟩ := @materializeNext_phase state thread popped rest
    have hhistory := @materializeNext_history state thread popped rest
    refine .quiet hnext ?_ (.inl (by rw [hphase]; exact Nat.zero_le _)) (by rw [hphase]; rintro ⟨⟩) ?_
    · rw [State.unread, hhistory.1, hhistory.2.1, State.unread]
    · intro get hget
      rw [hcall] at hget
      cases hget

end Turns

/-! ## The invariant -/

/-- How a thread's side fits its phase. -/
def SideOk : Side → Phase → Prop
  | .clear, _ | .bumped, .putRelease _ | .owes, .idle | .announced _, .get _ | .leaving, .get _ => True
  | _, _ => False

/-- Nothing is unread but a record whose producer has still to add to `items_seq`. -/
def Fresh (state : WaitState) : Prop :=
  state.ring.unread = 0 ∨ state.ring.unread = 1 ∧
    ∃ thread, state.side thread = .clear ∧ (state.ring.phase thread).committing = true

/-- How many threads will wake a consumer or look at the ring. -/
noncomputable def WaitState.answering (state : WaitState) : ℕ :=
  ∑ᶠ thread, answers (state.side thread, state.ring.phase thread)

structure Kept (queue : RingQueue) (pid : ℕ → UInt32) (state : WaitState) : Prop where
  inv : Inv queue pid state.ring
  alive : ∀ process, state.ring.dead process = false
  sides : ∀ thread, SideOk (state.side thread) (state.ring.phase thread)
  asleep : ∀ thread ∈ state.sleeping, ∃ seen, state.side thread = .announced seen
  limit : ∀ thread get, (state.ring.phase thread).getCall = some get → 1 ≤ get.limit
  finite : (Function.support fun thread ↦ answers (state.side thread, state.ring.phase thread)).Finite
  finite_waits : (Function.support fun thread ↦ (state.side thread).waits).Finite
  counted : state.waitingConsumers = ∑ᶠ thread, (state.side thread).waits
  seen_le : ∀ thread seen, state.side thread = .announced seen → seen ≤ state.itemsSeq
  fresh : ∀ thread, state.side thread = .announced state.itemsSeq → Fresh state

/-- While a consumer sleeps, no more records are unread than threads answer for. -/
structure Served (queue : RingQueue) (pid : ℕ → UInt32) (state : WaitState) : Prop extends Kept queue pid state where
  served : state.sleeping ≠ [] → state.ring.unread ≤ state.answering

section Totals

variable {side side' : ℕ → Side} {phase phase' : ℕ → Phase} {thread : ℕ} {newSide : Side} {newPhase : Phase}

theorem pair_update (hside : side' = Function.update side thread newSide)
    (hphase : phase' = Function.update phase thread newPhase) :
    (fun other ↦ (side' other, phase' other)) =
      Function.update (fun other ↦ (side other, phase other)) thread (newSide, newPhase) := by
  funext other
  rw [hside, hphase]
  by_cases hother : other = thread
  · rw [hother, Function.update_self, Function.update_self, Function.update_self]
  · rw [Function.update_of_ne hother, Function.update_of_ne hother, Function.update_of_ne hother]

/-- How many threads answer changes by what the one thread does. -/
theorem answering_update
    (hfinite : (Function.support fun other ↦ answers (side other, phase other)).Finite)
    (hside : side' = Function.update side thread newSide)
    (hphase : phase' = Function.update phase thread newPhase) :
    (Function.support fun other ↦ answers (side' other, phase' other)).Finite ∧
      ∑ᶠ other, answers (side' other, phase' other) + answers (side thread, phase thread) =
        ∑ᶠ other, answers (side other, phase other) + answers (newSide, newPhase) := by
  have hpair := pair_update hside hphase
  have hanswers : (fun other ↦ answers (side' other, phase' other)) = fun other ↦
      answers (Function.update (fun other ↦ (side other, phase other)) thread (newSide, newPhase) other) := by
    funext other
    exact congrArg answers (congrFun hpair other)
  rw [hanswers]
  constructor
  · exact finite_support_update answers (fun other ↦ (side other, phase other)) thread _ hfinite
  · exact finsum_update_comp answers (fun other ↦ (side other, phase other)) thread _ hfinite

theorem waiting_update (hfinite : (Function.support fun other ↦ (side other).waits).Finite)
    (hside : side' = Function.update side thread newSide) :
    (Function.support fun other ↦ (side' other).waits).Finite ∧
      ∑ᶠ other, (side' other).waits + (side thread).waits = ∑ᶠ other, (side other).waits + newSide.waits := by
  rw [hside]
  constructor
  · exact finite_support_update Side.waits side thread newSide hfinite
  · exact finsum_update_comp Side.waits side thread newSide hfinite

/-- What one thread answers for is part of the whole. -/
theorem le_finsum {part : ℕ → ℕ} (hfinite : (Function.support part).Finite) (thread : ℕ) :
    part thread ≤ ∑ᶠ other, part other := by
  have hsum := sum_le_finsum part hfinite {thread}
  rwa [Finset.sum_singleton] at hsum

end Totals

section Steps

variable {queue : RingQueue} {pid : ℕ → UInt32} {state : WaitState} {next : State} {thread : ℕ} {move : Move}

theorem step_alive (h : step queue pid state.ring (.act thread move) = some next) :
    state.ring.dead (pid thread) = false ∧ moveStep queue pid state.ring thread move = some next := by
  rw [step, Option.ite_none_left_eq_some, Bool.not_eq_true] at h
  exact h

theorem Phase.locked_of_committing {phase : Phase} (h : phase.committing = true) : phase.locked = true := by
  cases phase <;> first | rfl | cases h

/-- A move of a thread with no side business keeps what is fresh. -/
theorem Fresh.ring (h : Fresh state) (hkept : Kept queue pid state) (hclear : state.side thread = .clear)
    (hturn : RingTurn state.ring next thread) : Fresh { state with ring := next } := by
  obtain ⟨phase, hphase⟩ := hturn.phase
  have hother {other : ℕ} (hne : other ≠ thread) : next.phase other = state.ring.phase other := by
    rw [hphase, Function.update_of_ne hne]
  rcases hturn.commits with ⟨hle, hkeeps⟩ | ⟨hmore, hbefore, hlocked, hafter⟩
  · rcases h with hzero | ⟨hone, other, hside, hcommitting⟩
    · exact .inl (by show next.unread = 0; omega)
    · rcases Nat.eq_zero_or_pos next.unread with hzero | hpos
      · exact .inl hzero
      · refine .inr ⟨by show next.unread = 1; omega, other, hside, ?_⟩
        show (next.phase other).committing = true
        by_cases hsame : other = thread
        · rw [hsame] at hcommitting ⊢
          exact hkeeps hcommitting
        · rw [hother hsame]
          exact hcommitting
  · rcases h with hzero | ⟨hone, other, hside, hcommitting⟩
    · exact .inr ⟨by show next.unread = 1; omega, thread, hclear, hafter⟩
    · -- two producers would be in their critical sections
      have hne : other ≠ thread := by
        intro hsame
        rw [hsame, hbefore] at hcommitting
        cases hcommitting
      have hfree := hkept.inv.not_locked (hkept.alive _) hlocked hne (hkept.alive _)
      rw [Phase.locked_of_committing hcommitting] at hfree
      cases hfree

theorem Kept.ring (h : Kept queue pid state) (hclear : state.side thread = .clear)
    (hturn : RingTurn state.ring next thread) (hinv : Inv queue pid next) (hdead : next.dead = state.ring.dead) :
    Kept queue pid { state with ring := next } where
  inv := hinv
  alive := by
    rw [hdead]
    exact h.alive
  sides other := by
    obtain ⟨phase, hphase⟩ := hturn.phase
    show SideOk (state.side other) (next.phase other)
    by_cases hother : other = thread
    · rw [hother, hclear]
      trivial
    · rw [hphase, Function.update_of_ne hother]
      exact h.sides other
  asleep := h.asleep
  limit other get hget := by
    obtain ⟨phase, hphase⟩ := hturn.phase
    have hget : (next.phase other).getCall = some get := hget
    by_cases hother : other = thread
    · rw [hother] at hget
      exact hturn.limit get hget
    · rw [hphase, Function.update_of_ne hother] at hget
      exact h.limit other get hget
  finite := by
    obtain ⟨phase, hphase⟩ := hturn.phase
    exact (answering_update h.finite (Function.update_eq_self thread state.side).symm hphase).1
  finite_waits := h.finite_waits
  counted := h.counted
  seen_le := h.seen_le
  fresh other hother := (h.fresh other hother).ring h hclear hturn

theorem Served.ring (h : Served queue pid state) (hclear : state.side thread = .clear)
    (hturn : RingTurn state.ring next thread) (hinv : Inv queue pid next) (hdead : next.dead = state.ring.dead) :
    Served queue pid { state with ring := next } where
  toKept := h.toKept.ring hclear hturn hinv hdead
  served hsleeping := by
    obtain ⟨phase, hphase⟩ := hturn.phase
    have htotal := (answering_update h.finite (Function.update_eq_self thread state.side).symm hphase).2
    have hbefore := h.served hsleeping
    have hself : next.phase thread = phase := by rw [hphase, Function.update_self]
    show next.unread ≤ ∑ᶠ other, answers (state.side other, next.phase other)
    have hwants := hturn.wants
    rw [hclear] at htotal
    change _ + (state.ring.phase thread).wants = _ + phase.wants at htotal
    rw [hself] at hwants
    unfold WaitState.answering at hbefore
    omega

/-- A consumer announces itself when nothing is unread. -/
theorem Served.announce (h : Served queue pid state) (hclear : state.side thread = .clear) {get : GetCall}
    (hphase : state.ring.phase thread = .get get) (hunread : state.ring.unread = 0) :
    Served queue pid
      { state with
        waitingConsumers := state.waitingConsumers + 1
        side := Function.update state.side thread (.announced state.itemsSeq) } where
  inv := h.inv
  alive := h.alive
  sides other := by
    dsimp only
    by_cases hother : other = thread
    · rw [hother, Function.update_self, hphase]
      trivial
    · rw [Function.update_of_ne hother]
      exact h.sides other
  asleep other hother := by
    obtain ⟨seen, hseen⟩ := h.asleep other hother
    have hne : other ≠ thread := by
      intro hsame
      rw [hsame, hclear] at hseen
      cases hseen
    exact ⟨seen, by dsimp only; rw [Function.update_of_ne hne]; exact hseen⟩
  limit := h.limit
  finite := (answering_update h.finite rfl (Function.update_eq_self thread state.ring.phase).symm).1
  finite_waits := (waiting_update h.finite_waits rfl).1
  counted := by
    have htotal : ∑ᶠ other, (Function.update state.side thread (.announced state.itemsSeq) other).waits +
        (state.side thread).waits = ∑ᶠ other, (state.side other).waits + 1 :=
      (waiting_update h.finite_waits rfl).2
    rw [hclear, ← h.counted] at htotal
    exact htotal.symm
  seen_le other seen hseen := by
    dsimp only at hseen
    by_cases hother : other = thread
    · rw [hother, Function.update_self] at hseen
      cases hseen
      exact le_rfl
    · rw [Function.update_of_ne hother] at hseen
      exact h.seen_le other seen hseen
  fresh _ _ := .inl hunread
  served _ := by
    show state.ring.unread ≤ _
    rw [hunread]
    exact Nat.zero_le _

/-- A thread with side business moves on with it, and does not announce itself. -/
theorem Kept.turn (h : Kept queue pid state) {side : Side} {waiting : ℕ} {sleeping : List ℕ}
    (hside : state.side thread ≠ .clear) (hok : SideOk side (state.ring.phase thread))
    (hquiet : ∀ seen, side ≠ .announced seen)
    (hwaiting : waiting + (state.side thread).waits = state.waitingConsumers + side.waits)
    (hsleeping : ∀ other ∈ sleeping, other ∈ state.sleeping ∧ other ≠ thread) :
    Kept queue pid
      { state with
        waitingConsumers := waiting
        side := Function.update state.side thread side
        sleeping := sleeping } where
  inv := h.inv
  alive := h.alive
  sides other := by
    dsimp only
    by_cases hother : other = thread
    · rw [hother, Function.update_self]
      exact hok
    · rw [Function.update_of_ne hother]
      exact h.sides other
  asleep other hother := by
    obtain ⟨hbefore, hne⟩ := hsleeping other hother
    obtain ⟨seen, hseen⟩ := h.asleep other hbefore
    exact ⟨seen, by dsimp only; rw [Function.update_of_ne hne]; exact hseen⟩
  limit := h.limit
  finite := (answering_update h.finite rfl (Function.update_eq_self thread state.ring.phase).symm).1
  finite_waits := (waiting_update h.finite_waits rfl).1
  counted := by
    have htotal : ∑ᶠ other, (Function.update state.side thread side other).waits + (state.side thread).waits =
        ∑ᶠ other, (state.side other).waits + side.waits := (waiting_update h.finite_waits rfl).2
    rw [← h.counted] at htotal
    show waiting = ∑ᶠ other, (Function.update state.side thread side other).waits
    omega
  seen_le other seen hseen := by
    dsimp only at hseen
    by_cases hother : other = thread
    · rw [hother, Function.update_self] at hseen
      exact absurd hseen (hquiet seen)
    · rw [Function.update_of_ne hother] at hseen
      exact h.seen_le other seen hseen
  fresh other hother := by
    dsimp only at hother
    by_cases hsame : other = thread
    · rw [hsame, Function.update_self] at hother
      exact absurd hother (hquiet _)
    · rw [Function.update_of_ne hsame] at hother
      rcases h.fresh other hother with hzero | ⟨hone, producer, hclear, hcommitting⟩
      · exact .inl hzero
      · have hne : producer ≠ thread := by
          intro hproducer
          rw [hproducer] at hclear
          exact hside hclear
        exact .inr ⟨hone, producer, by dsimp only; rw [Function.update_of_ne hne]; exact hclear, hcommitting⟩

/-- What the threads answer for when one of them moves on. -/
theorem answering_turn (h : Kept queue pid state) (side : Side) (waiting : ℕ) (sleeping : List ℕ) :
    WaitState.answering
        { state with
          waitingConsumers := waiting
          side := Function.update state.side thread side
          sleeping := sleeping } + answers (state.side thread, state.ring.phase thread) =
      state.answering + answers (side, state.ring.phase thread) :=
  (answering_update h.finite rfl (Function.update_eq_self thread state.ring.phase).symm).2

/-- A thread with side business does not sleep unless it has announced itself. -/
theorem Kept.ne_of_asleep (h : Kept queue pid state) (hside : ∀ seen, state.side thread ≠ .announced seen)
    {other : ℕ} (hother : other ∈ state.sleeping) : other ≠ thread := by
  intro hsame
  obtain ⟨seen, hseen⟩ := h.asleep other hother
  rw [hsame] at hseen
  exact hside seen hseen

theorem SideOk.leaving {seen : ℕ} {phase : Phase} (h : SideOk (.announced seen) phase) :
    SideOk .leaving phase := by
  cases phase <;> exact h

theorem Kept.rouse (h : Kept queue pid state) {seen : ℕ} (hside : state.side thread = .announced seen)
    {sleeping : List ℕ} (hsleeping : ∀ other ∈ sleeping, other ∈ state.sleeping ∧ other ≠ thread) :
    Kept queue pid { state.turn thread .leaving with sleeping := sleeping } := by
  have hok := h.sides thread
  rw [hside] at hok
  exact h.turn (by rw [hside]; simp) hok.leaving (by simp) (by rw [hside]; rfl) hsleeping

/-- What the threads answer for when a consumer is roused. -/
theorem answering_rouse (h : Kept queue pid state) {seen : ℕ} (hside : state.side thread = .announced seen)
    (sleeping : List ℕ) :
    WaitState.answering { state.turn thread .leaving with sleeping := sleeping } = state.answering + 1 := by
  have htotal := @answering_turn queue pid state thread h .leaving state.waitingConsumers sleeping
  rw [hside] at htotal
  exact htotal

/-- A consumer that does not sleep, or no longer, is on its way to look at the ring. -/
theorem Served.rouse (h : Served queue pid state) {seen : ℕ} (hside : state.side thread = .announced seen)
    {sleeping : List ℕ} (hsleeping : ∀ other ∈ sleeping, other ∈ state.sleeping ∧ other ≠ thread) :
    Served queue pid { state.turn thread .leaving with sleeping := sleeping } where
  toKept := h.toKept.rouse hside hsleeping
  served hsome := by
    have hbefore : state.sleeping ≠ [] := by
      obtain ⟨other, hother⟩ := List.exists_mem_of_ne_nil _ hsome
      exact List.ne_nil_of_mem (hsleeping other hother).1
    rw [answering_rouse h.toKept hside]
    exact (h.served hbefore).trans (Nat.le_succ _)

/-- A consumer that falls asleep has missed nothing since it announced itself. -/
theorem Served.sleep (h : Served queue pid state) (hside : state.side thread = .announced state.itemsSeq) :
    Served queue pid { state with sleeping := state.sleeping ++ [thread] } where
  inv := h.inv
  alive := h.alive
  sides := h.sides
  asleep other hother := by
    rcases List.mem_append.mp hother with hold | hnew
    · exact h.asleep other hold
    · rw [List.mem_singleton.mp hnew]
      exact ⟨_, hside⟩
  limit := h.limit
  finite := h.finite
  finite_waits := h.finite_waits
  counted := h.counted
  seen_le := h.seen_le
  fresh := h.fresh
  served _ := by
    show state.ring.unread ≤ state.answering
    rcases h.fresh thread hside with hzero | ⟨hone, producer, hclear, hcommitting⟩
    · rw [hzero]
      exact Nat.zero_le _
    · have hproducer : answers (state.side producer, state.ring.phase producer) = 1 := by
        rw [hclear]
        cases hphase : state.ring.phase producer with
        | counting put => rfl
        | putRelease put => rfl
        | _ =>
          rw [hphase] at hcommitting
          cases hcommitting
      rw [hone, ← hproducer]
      exact le_finsum h.finite producer

theorem Served.leave (h : Served queue pid state) (hside : state.side thread = .leaving) :
    Served queue pid
      { state with
        waitingConsumers := state.waitingConsumers - 1
        side := Function.update state.side thread .clear } where
  toKept := by
    have hone : 1 ≤ state.waitingConsumers := by
      have hle := le_finsum h.finite_waits thread
      rw [← h.counted, hside] at hle
      exact hle
    have hok : SideOk .clear (state.ring.phase thread) := trivial
    apply h.toKept.turn (by rw [hside]; simp) hok (by simp)
    · rw [hside]
      exact Nat.sub_add_cancel hone
    · intro other hother
      exact ⟨hother, h.ne_of_asleep (by rw [hside]; simp) hother⟩
  served hsome := by
    have htotal := @answering_turn queue pid state thread h.toKept .clear (state.waitingConsumers - 1) state.sleeping
    have hwants : (state.ring.phase thread).wants = 1 := by
      have hok := h.sides thread
      rw [hside] at hok
      cases hphase : state.ring.phase thread with
      | get call => rfl
      | _ =>
        rw [hphase] at hok
        cases hok
    rw [hside] at htotal
    change _ + 1 = _ + (state.ring.phase thread).wants at htotal
    rw [hwants] at htotal
    exact (h.served hsome).trans (Nat.add_right_cancel htotal).ge

/-- The release of a put tells its own wake from the announcements before it. -/
theorem Served.bump (h : Served queue pid state) (hside : state.side thread = .clear) {put : PutCall}
    (hphase : state.ring.phase thread = .putRelease put) :
    Served queue pid { state.turn thread .bumped with itemsSeq := state.itemsSeq + 1 } where
  inv := h.inv
  alive := h.alive
  sides other := by
    show SideOk (Function.update state.side thread .bumped other) _
    by_cases hother : other = thread
    · rw [hother, Function.update_self]
      show SideOk .bumped (state.ring.phase thread)
      rw [hphase]
      trivial
    · rw [Function.update_of_ne hother]
      exact h.sides other
  asleep other hother := by
    obtain ⟨seen, hseen⟩ := h.asleep other hother
    have hne : other ≠ thread := h.ne_of_asleep (by rw [hside]; simp) hother
    exact ⟨seen, by show Function.update _ _ _ _ = _; rw [Function.update_of_ne hne]; exact hseen⟩
  limit := h.limit
  finite := (answering_update h.finite rfl (Function.update_eq_self thread state.ring.phase).symm).1
  finite_waits := (waiting_update h.finite_waits rfl).1
  counted := by
    have htotal : ∑ᶠ other, (Function.update state.side thread .bumped other).waits + (state.side thread).waits =
        ∑ᶠ other, (state.side other).waits + 0 := (waiting_update h.finite_waits rfl).2
    rw [hside, ← h.counted] at htotal
    exact htotal.symm
  seen_le other seen hseen := by
    have hseen : Function.update state.side thread .bumped other = .announced seen := hseen
    by_cases hother : other = thread
    · rw [hother, Function.update_self] at hseen
      cases hseen
    · rw [Function.update_of_ne hother] at hseen
      exact (h.seen_le other seen hseen).trans (Nat.le_succ _)
  fresh other hother := by
    have hother : Function.update state.side thread .bumped other = .announced (state.itemsSeq + 1) := hother
    by_cases hsame : other = thread
    · rw [hsame, Function.update_self] at hother
      cases hother
    · rw [Function.update_of_ne hsame] at hother
      exact absurd (h.seen_le other _ hother) (Nat.not_succ_le_self _)
  served hsome := by
    have htotal := @answering_turn queue pid state thread h.toKept .bumped state.waitingConsumers state.sleeping
    rw [hside] at htotal
    change _ + (state.ring.phase thread).wants = _ + (state.ring.phase thread).wants at htotal
    exact (h.served hsome).trans (Nat.add_right_cancel htotal).ge

/-- A producer that releases the lock owes a wake if a consumer has announced itself. -/
theorem Served.putDone (h : Served queue pid state) (hside : state.side thread = .bumped)
    (hinv : Inv queue pid next) (hdead : next.dead = state.ring.dead) (hunread : next.unread = state.ring.unread)
    {put : PutCall} (hbefore : state.ring.phase thread = .putRelease put)
    (hphase : next.phase = Function.update state.ring.phase thread .idle) :
    Served queue pid
      { state with
        ring := next
        side := Function.update state.side thread (if 0 < state.waitingConsumers then .owes else .clear) } := by
  obtain ⟨side, hnew⟩ : ∃ side, side = if 0 < state.waitingConsumers then Side.owes else .clear := ⟨_, rfl⟩
  have hcases : side = .owes ∧ 0 < state.waitingConsumers ∨ side = .clear ∧ state.waitingConsumers = 0 := by
    rw [hnew]
    split
    · exact .inl ⟨rfl, ‹_›⟩
    · exact .inr ⟨rfl, Nat.eq_zero_of_not_pos ‹_›⟩
  have hquiet : ∀ seen, side ≠ .announced seen := by
    intro seen hseen
    rcases hcases with ⟨hside, -⟩ | ⟨hside, -⟩
    · rw [hside] at hseen
      cases hseen
    · rw [hside] at hseen
      cases hseen
  have hwaits : side.waits = 0 := by
    rcases hcases with ⟨hside, -⟩ | ⟨hside, -⟩ <;> rw [hside] <;> rfl
  rw [← hnew]
  constructor
  · constructor
    · exact hinv
    · show ∀ process, next.dead process = false
      rw [hdead]
      exact h.alive
    · intro other
      show SideOk (Function.update state.side thread side other) (next.phase other)
      rw [hphase]
      by_cases hother : other = thread
      · rw [hother, Function.update_self, Function.update_self]
        rcases hcases with ⟨hside, -⟩ | ⟨hside, -⟩ <;> rw [hside] <;> trivial
      · rw [Function.update_of_ne hother, Function.update_of_ne hother]
        exact h.sides other
    · intro other hother
      obtain ⟨seen, hseen⟩ := h.asleep other hother
      have hne : other ≠ thread := h.ne_of_asleep (by rw [hside]; simp) hother
      exact ⟨seen, by show Function.update _ _ _ _ = _; rw [Function.update_of_ne hne]; exact hseen⟩
    · intro other get hget
      have hget : (next.phase other).getCall = some get := hget
      rw [hphase] at hget
      by_cases hother : other = thread
      · rw [hother, Function.update_self] at hget
        cases hget
      · rw [Function.update_of_ne hother] at hget
        exact h.limit other get hget
    · exact (answering_update h.finite rfl hphase).1
    · exact (waiting_update h.finite_waits rfl).1
    · have htotal : ∑ᶠ other, (Function.update state.side thread side other).waits + (state.side thread).waits =
          ∑ᶠ other, (state.side other).waits + side.waits := (waiting_update h.finite_waits rfl).2
      rw [hside, ← h.counted, hwaits] at htotal
      exact htotal.symm
    · intro other seen hseen
      have hseen : Function.update state.side thread side other = .announced seen := hseen
      by_cases hother : other = thread
      · rw [hother, Function.update_self] at hseen
        exact absurd hseen (hquiet seen)
      · rw [Function.update_of_ne hother] at hseen
        exact h.seen_le other seen hseen
    · intro other hother
      have hother : Function.update state.side thread side other = .announced state.itemsSeq := hother
      by_cases hsame : other = thread
      · rw [hsame, Function.update_self] at hother
        exact absurd hother (hquiet _)
      · rw [Function.update_of_ne hsame] at hother
        rcases h.fresh other hother with hzero | ⟨hone, producer, hclear, hcommitting⟩
        · exact .inl (hunread.trans hzero)
        · have hne : producer ≠ thread := by
            intro hproducer
            rw [hproducer, hside] at hclear
            cases hclear
          refine .inr ⟨hunread.trans hone, producer, ?_, ?_⟩
          · show Function.update state.side thread side producer = .clear
            rw [Function.update_of_ne hne]
            exact hclear
          · show (next.phase producer).committing = true
            rw [hphase, Function.update_of_ne hne]
            exact hcommitting
  · intro hsome
    obtain ⟨sleeper, hsleeper⟩ := List.exists_mem_of_ne_nil _ hsome
    obtain ⟨seen, hseen⟩ := h.asleep sleeper hsleeper
    have hpos : 0 < state.waitingConsumers := by
      have hle := le_finsum h.finite_waits sleeper
      rw [← h.counted, hseen] at hle
      exact hle
    have howes : side = .owes := by
      rcases hcases with ⟨hside, -⟩ | ⟨-, hzero⟩
      · exact hside
      · omega
    have htotal : ∑ᶠ other, answers (Function.update state.side thread side other, next.phase other) +
        answers (state.side thread, state.ring.phase thread) =
          state.answering + answers (side, .idle) := (answering_update h.finite rfl hphase).2
    rw [hside, hbefore, howes] at htotal
    change _ + 1 = _ + 1 at htotal
    show next.unread ≤ ∑ᶠ other, answers (Function.update state.side thread side other, next.phase other)
    rw [hunread, howes, Nat.add_right_cancel htotal]
    exact h.served hsome

/-- The wake of a put, which takes a sleeper if there is one. -/
theorem Kept.wake (h : Kept queue pid state) (hside : state.side thread = .owes) :
    Kept queue pid (state.turn thread .clear) := by
  have hok : SideOk .clear (state.ring.phase thread) := trivial
  apply h.turn (by rw [hside]; simp) hok (by simp)
  · rw [hside]
    rfl
  · intro other hother
    exact ⟨hother, h.ne_of_asleep (by rw [hside]; simp) hother⟩

theorem Served.wake (h : Served queue pid state) (hside : state.side thread = .owes) {sleeper : ℕ}
    (hsleeper : sleeper ∈ state.sleeping) :
    Served queue pid
      { (state.turn thread .clear).turn sleeper .leaving with
        sleeping := state.sleeping.filter (· ≠ sleeper) } := by
  obtain ⟨seen, hseen⟩ := h.asleep sleeper hsleeper
  have hne : sleeper ≠ thread := h.ne_of_asleep (by rw [hside]; simp) hsleeper
  have hroused : (state.turn thread .clear).side sleeper = .announced seen := by
    show Function.update state.side thread .clear sleeper = _
    rw [Function.update_of_ne hne]
    exact hseen
  have hkept := h.toKept.wake hside
  constructor
  · apply hkept.rouse hroused
    intro other hother
    rw [List.mem_filter, decide_eq_true_eq] at hother
    exact hother
  · intro _
    -- the wake has passed from the producer to the sleeper
    have hwake : (state.turn thread .clear).answering + answers (state.side thread, state.ring.phase thread) =
        state.answering + answers (.clear, state.ring.phase thread) :=
      @answering_turn queue pid state thread h.toKept .clear state.waitingConsumers state.sleeping
    rw [hside] at hwake
    change _ + 1 = _ + (state.ring.phase thread).wants at hwake
    have hle := h.served (List.ne_nil_of_mem hsleeper)
    rw [answering_rouse hkept hroused, hwake]
    exact hle.trans (Nat.le_add_right _ _)

theorem Served.wake_nobody (h : Served queue pid state) (hside : state.side thread = .owes)
    (hnobody : state.sleeping = []) : Served queue pid (state.turn thread .clear) where
  toKept := h.toKept.wake hside
  served hsome := absurd hnobody hsome

/-- A move of `put`, `get` or `get_many`. -/
theorem Served.ringStep {after : WaitState} (h : Served queue pid state)
    (hrides : ridesWhole queue state.ring (.act thread move) = true)
    (hstep : ringStep queue pid state thread move = some after) : Served queue pid after := by
  have hplain (hclear : state.side thread = .clear) (hmove : move ≠ .putDone) {next : State}
      (hnext : step queue pid state.ring (.act thread move) = some next) :
      Served queue pid { state with ring := next } := by
    obtain ⟨-, hmoved⟩ := step_alive hnext
    exact h.ring hclear (moveStep_turn h.inv (h.limit thread) (fun _ _ ↦ hmove) hmoved) (h.inv.step hrides hnext)
      (moveStep_footprint hmoved).dead
  unfold Ring.ringStep at hstep
  split at hstep
  · cases hstep
  · rename_i hside
    obtain ⟨next, hnext, rfl⟩ := Option.map_eq_some_iff.mp hstep
    obtain ⟨-, hmoved⟩ := step_alive hnext
    have hinv := h.inv.step hrides hnext
    cases moveStep_cases hmoved with
    | putDone put hphase =>
      exact h.putDone hside hinv rfl rfl hphase rfl
  · rename_i clock hside
    obtain ⟨next, hnext, rfl⟩ := Option.map_eq_some_iff.mp hstep
    have hnow := hplain hside (by simp) hnext
    obtain ⟨-, hmoved⟩ := step_alive hnext
    unfold WaitState.announce
    split
    · rename_i get hphase
      -- it has found the ring empty
      have hunread : next.unread = 0 := by
        cases moveStep_cases hmoved with
        | getItems get clock hbefore =>
          rw [goto_phase] at hphase
          cases hphase
        | getExpired get clock hbefore =>
          rw [goto_phase] at hphase
          cases hphase
        | getAgain get clock hbefore hempty => exact h.inv.unread_zero hempty
      exact hnow.announce hside hphase hunread
    · exact hnow
  · rename_i hside hputDone hgetCheck
    obtain ⟨next, hnext, rfl⟩ := Option.map_eq_some_iff.mp hstep
    exact hplain hside hputDone hnext
  · cases hstep

/-- What every step of an undisturbed run preserves. -/
theorem Served.step {after : WaitState} (h : Served queue pid state) {action : WaitAction}
    (hallowed : undisturbed queue state action = true) (hstep : waitStep queue pid state action = some after) :
    Served queue pid after := by
  cases action with
  | ring thread move => exact h.ringStep hallowed hstep
  | bump thread =>
    rw [waitStep] at hstep
    split at hstep
    · rename_i put hside hphase
      cases hstep
      exact h.bump hside hphase
    · cases hstep
  | wake thread sleeper =>
    have howes : state.side thread = .owes := by
      cases hside : state.side thread with
      | owes => rfl
      | clear | bumped | announced | leaving =>
        simp only [waitStep, hside] at hstep
        cases hstep
    cases sleeper with
    | none =>
      simp only [waitStep, howes, Option.ite_none_right_eq_some, Option.some.injEq] at hstep
      rw [← hstep.2]
      exact h.wake_nobody howes hstep.1
    | some sleeper =>
      simp only [waitStep, howes, Option.ite_none_right_eq_some, Option.some.injEq] at hstep
      rw [← hstep.2]
      exact h.wake howes hstep.1
  | sleep thread =>
    rw [waitStep] at hstep
    split at hstep
    · rename_i seen hside
      split at hstep
      · cases hstep
      · rename_i hawake
        split at hstep
        · -- within one round of `items_seq` an unchanged word has not moved
          rename_i hword
          cases hstep
          have hle := h.seen_le thread seen hside
          simp only [undisturbed, hside, decide_eq_true_eq] at hallowed
          have hseen : seen = state.itemsSeq := by omega
          rw [hseen] at hside
          exact h.sleep hside
        · cases hstep
          apply h.rouse hside
          intro other hother
          refine ⟨hother, ?_⟩
          intro hsame
          exact hawake (hsame ▸ hother)
    · cases hstep
  | timeout thread =>
    rw [waitStep] at hstep
    split at hstep
    · rename_i seen hside
      cases hstep
      apply h.rouse hside
      intro other hother
      rw [List.mem_filter, decide_eq_true_eq] at hother
      exact hother
    · cases hstep
  | leave thread =>
    rw [waitStep, leaveStep] at hstep
    split at hstep
    · cases hstep
      exact h.leave ‹_›
    · cases hstep
  | interrupt thread => cases hallowed
  | die process => cases hallowed

theorem served_start : Served queue pid .start where
  inv := inv_start
  alive _ := rfl
  sides _ := trivial
  asleep thread h := by
    cases h
  limit thread get h := by
    cases h
  finite := by
    have hzero : (Function.support fun thread ↦ answers (WaitState.start.side thread, WaitState.start.ring.phase thread)) =
        ∅ := Function.support_eq_empty_iff.mpr rfl
    rw [hzero]
    exact Set.finite_empty
  finite_waits := by
    have hzero : (Function.support fun thread ↦ (WaitState.start.side thread).waits) = ∅ :=
      Function.support_eq_empty_iff.mpr rfl
    rw [hzero]
    exact Set.finite_empty
  counted := finsum_zero.symm
  seen_le thread seen h := by
    cases h
  fresh _ _ := .inl rfl
  served h := absurd rfl h

end Steps

/-- While a consumer sleeps and something is unread, some thread answers for it. -/
theorem Served.answered {queue : RingQueue} {pid : ℕ → UInt32} {state : WaitState} (h : Served queue pid state)
    (hsleeping : state.sleeping ≠ []) (hpos : 0 < state.ring.unread) :
    ∃ thread, answers (state.side thread, state.ring.phase thread) ≠ 0 := by
  by_contra hnone
  have hzero : state.answering = 0 := by
    rw [WaitState.answering]
    apply finsum_eq_zero_of_forall_eq_zero
    intro thread
    by_contra hthread
    exact hnone ⟨thread, hthread⟩
  have hle := h.served hsleeping
  omega

/-- As long as nobody dies or is interrupted, whenever a consumer sleeps there are no more unread records than
threads that will wake a sleeper or look at the ring themselves; so there is one if anything is unread. -/
theorem sleepers_are_served {queue : RingQueue} {pid : ℕ → UInt32} {state : WaitState}
    (h : ((waitMachine queue pid).restrict (undisturbed queue)).Reachable state) (hsleeping : state.sleeping ≠ []) :
    state.ring.unread ≤ state.answering ∧
      (0 < state.ring.unread → ∃ thread, thread ∉ state.sleeping ∧
        (state.side thread = .owes ∨ state.side thread = .leaving ∨
          (∀ seen, state.side thread ≠ .announced seen) ∧ (state.ring.phase thread).wants = 1)) := by
  have hserved : Served queue pid state := by
    apply h.invariant (Served queue pid) served_start
    intro before action after hbefore hstep
    obtain ⟨hallowed, hstep⟩ := Machine.restrict_step hstep
    exact hbefore.step hallowed hstep
  have hle := hserved.served hsleeping
  refine ⟨hle, ?_⟩
  intro hpos
  obtain ⟨thread, hthread⟩ := hserved.answered hsleeping hpos
  refine ⟨thread, ?_, ?_⟩
  · intro hasleep
    obtain ⟨seen, hseen⟩ := hserved.asleep thread hasleep
    rw [hseen] at hthread
    exact hthread rfl
  · have hwants (hphase : (state.ring.phase thread).wants ≠ 0) : (state.ring.phase thread).wants = 1 := by
      revert hphase
      unfold Phase.wants
      split <;> simp
    cases hside : state.side thread with
    | owes => exact .inl rfl
    | leaving => exact .inr (.inl rfl)
    | announced seen =>
      rw [hside] at hthread
      exact absurd rfl hthread
    | clear =>
      rw [hside] at hthread
      exact .inr (.inr ⟨by simp, hwants hthread⟩)
    | bumped =>
      rw [hside] at hthread
      exact .inr (.inr ⟨by simp, hwants hthread⟩)

/-- Consumer 0 finds nothing and goes to sleep; producer 1 publishes a record and adds to `items_seq`. -/
def sleepingGet : List WaitAction :=
  [.ring 0 (.getBegin ⟨1, false, .forever⟩), .ring 0 .acquire, .ring 0 (.getCheck false), .sleep 0,
    .ring 1 (.putBegin [7] .forever false), .ring 1 .acquire, .ring 1 (.putDecide false)] ++
    List.replicate 9 (.ring 1 .store) ++ [.ring 1 .storeTail, .ring 1 .addCount, .bump 1, .ring 1 .putDone]

/-- A consumer sleeps, one record is unread, and its producer is about to wake somebody. -/
theorem sleepers_are_served_sleepingGet : ∃ state,
    ((waitMachine smallQueue fun _ ↦ 0).restrict (undisturbed smallQueue)).Reachable state ∧
      state.sleeping = [0] ∧ state.ring.unread = 1 ∧ 1 ≤ state.answering ∧
      ∃ thread, thread ∉ state.sleeping ∧
        (state.side thread = .owes ∨ state.side thread = .leaving ∨
          (∀ seen, state.side thread ≠ .announced seen) ∧ (state.ring.phase thread).wants = 1) := by
  have hrun : (((waitMachine smallQueue fun _ ↦ 0).restrict (undisturbed smallQueue)).runFrom .start
      sleepingGet).map (fun state ↦ (state.sleeping, state.ring.unread)) = some ([0], 1) := by decide +kernel
  obtain ⟨state, hstate, hseen⟩ := Option.map_eq_some_iff.mp hrun
  rw [Prod.mk.injEq] at hseen
  have hreachable : ((waitMachine smallQueue fun _ ↦ 0).restrict (undisturbed smallQueue)).Reachable state :=
    ⟨sleepingGet, hstate⟩
  have hserved := sleepers_are_served hreachable (by rw [hseen.1]; simp)
  rw [hseen.2] at hserved
  exact ⟨state, hreachable, hseen.1, hseen.2, hserved.1, hserved.2 Nat.one_pos⟩

end GpuPipe.Ring
