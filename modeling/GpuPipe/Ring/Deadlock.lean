import GpuPipe.Ring.Heal
import GpuPipe.Ring.Wakeup

/-!
# Sleeping at both ends of the ring

The ring with the words of consumers and of producers. A get adds the number of its records to `space_seq` before
it releases the lock, and wakes as many sleepers if a producer has announced itself; a producer that finds no room
reads `space_seq`, announces itself, releases the lock, and sleeps only if the word has not moved. Sleeps may time
out. A producer that waits for room on disk announces nothing, and may look again at any time.
-/

namespace GpuPipe.Ring

/-- Where a thread stands beside its phase, at the end of the producers: it has added to `space_seq`, it has to wake
so many sleepers, it is on its way into or in `sleep_on`, or on its way out. -/
inductive SpaceSide
  | clear
  | bumped
  | owes (count : ℕ)
  | announced (seen : ℕ)
  | leaving
  deriving DecidableEq

structure EndsState where
  /-- The ring and the end of the consumers. -/
  wait : WaitState
  spaceSeq : ℕ
  waitingProducers : ℕ
  side : ℕ → SpaceSide
  /-- The threads asleep on `space_seq`. -/
  sleeping : List ℕ

def EndsState.start : EndsState where
  wait := .start
  spaceSeq := 0
  waitingProducers := 0
  side _ := .clear
  sleeping := []

inductive EndsAction
  | wait (action : WaitAction)
  /-- `space_seq.fetch_add` -/
  | bump (thread : ℕ)
  /-- `futex::wake(&s.space_seq.0, n)`, and the sleepers it takes. -/
  | wake (thread : ℕ) (sleepers : List ℕ)
  /-- `futex::wait(seq, seen, dur)` -/
  | sleep (thread : ℕ)
  /-- A sleep ends by itself, or is none as its time is up. -/
  | timeout (thread : ℕ)
  /-- `waiting_producers.fetch_sub` -/
  | leave (thread : ℕ)
  /-- The same, and a signal handler raises. -/
  | interrupt (thread : ℕ)

section Steps

variable (queue : RingQueue) (pid : ℕ → UInt32) (state : EndsState)

/-- A producer that has to wait announces itself before it releases the lock. -/
def EndsState.announce (thread : ℕ) (next : WaitState) : EndsState :=
  match next.ring.phase thread with
  | .waiting _ =>
    { state with
      wait := next
      waitingProducers := state.waitingProducers + 1
      side := Function.update state.side thread (.announced state.spaceSeq) }
  | _ => { state with wait := next }

/-- `finish_pops` releases the lock. -/
def EndsState.release (thread : ℕ) (next : WaitState) : EndsState :=
  { state with
    wait := next
    side := Function.update state.side thread
      (if 0 < state.waitingProducers then .owes (state.wait.ring.phase thread).held.length else .clear) }

/-- A step of `put`, `get` or `get_many`. Only `finish_pops` has to have added to `space_seq` before. -/
def endsMove (thread : ℕ) (move : Move) : Option EndsState :=
  match state.side thread, move with
  | .clear, .wake _ => none
  | .clear, .finishPops =>
    if (state.wait.ring.phase thread).held.isEmpty then
      (waitStep queue pid state.wait (.ring thread .finishPops)).map (state.announce thread)
    else none
  | .bumped, .finishPops => (waitStep queue pid state.wait (.ring thread .finishPops)).map (state.release thread)
  | .clear, move => (waitStep queue pid state.wait (.ring thread move)).map (state.announce thread)
  | _, _ => none

/-- A producer that is on its way out of `sleep_on`. -/
def endsLeave (thread : ℕ) (signalled : Bool) : Option EndsState :=
  match state.side thread with
  | .leaving =>
    (waitStep queue pid state.wait (.ring thread (.wake signalled))).map fun next ↦
      { state with
        wait := next
        waitingProducers := state.waitingProducers - 1
        side := Function.update state.side thread .clear }
  | _ => none

/-- The sides after a wake that has taken these sleepers. -/
def EndsState.roused (thread : ℕ) (sleepers : List ℕ) (other : ℕ) : SpaceSide :=
  if other = thread then .clear else if other ∈ sleepers then .leaving else state.side other

def endsStep : EndsAction → Option EndsState
  | .wait (.ring thread move) => endsMove queue pid state thread move
  | .wait (.die process) =>
    (waitStep queue pid state.wait (.die process)).map fun next ↦
      { state with wait := next, sleeping := state.sleeping.filter (pid · ≠ process) }
  | .wait action => (waitStep queue pid state.wait action).map fun next ↦ { state with wait := next }
  | .bump thread =>
    match state.side thread, state.wait.ring.phase thread with
    | .clear, .finishing _ (popped :: rest) =>
      some
        { state with
          spaceSeq := state.spaceSeq + (popped :: rest).length
          side := Function.update state.side thread .bumped }
    | _, _ => none
  | .wake thread sleepers =>
    match state.side thread with
    | .owes count =>
      if sleepers.length = min count state.sleeping.length ∧ sleepers.Nodup ∧ sleepers ⊆ state.sleeping then
        some
          { state with
            side := state.roused thread sleepers
            sleeping := state.sleeping.filter (· ∉ sleepers) }
      else none
    | _ => none
  | .sleep thread =>
    match state.side thread with
    | .announced seen =>
      if thread ∈ state.sleeping then none
      else if state.spaceSeq % 2 ^ 32 = seen % 2 ^ 32 then
        some { state with sleeping := state.sleeping ++ [thread] }
      else some { state with side := Function.update state.side thread .leaving }
    | _ => none
  | .timeout thread =>
    match state.side thread with
    | .announced _ =>
      some
        { state with
          side := Function.update state.side thread .leaving
          sleeping := state.sleeping.filter (· ≠ thread) }
    | _ => none
  | .leave thread => endsLeave queue pid state thread false
  | .interrupt thread => endsLeave queue pid state thread true

end Steps

def endsMachine (queue : RingQueue) (pid : ℕ → UInt32) : Machine EndsState EndsAction where
  start := .start
  step := endsStep queue pid

/-- Nobody dies or is interrupted, payloads ride whole, memory and disk do not run out at once, and nobody stays
between its announcement and its sleep while its word goes once round. -/
def unbroken (queue : RingQueue) (state : EndsState) : EndsAction → Bool
  | .wait (.ring _ (.spill (.noSpace _ _))) => false
  | .wait action => undisturbed queue state.wait action
  | .sleep thread =>
    match state.side thread with
    | .announced seen => state.spaceSeq - seen < 2 ^ 32
    | _ => true
  | .interrupt _ => false
  | _ => true

/-! ## Who will make room or use it -/

/-- A get that has taken records and has not told the producers yet. -/
def Phase.hasPopped : Phase → Bool
  | .popCount _ _ | .popping _ (_ :: _) | .resyncing _ (_ :: _) | .finishing _ (_ :: _) => true
  | _ => false

/-- It has a record to place. -/
def PutCall.ready (put : PutCall) : Bool := !(put.mustSpill && put.spilled.isNone)

/-- A get that will wake producers, or a producer before its look at the ring or its record. A producer that has
still to spill looks at the ring later, if it does. -/
def Phase.supplies : Phase → Bool
  | .put call => call.ready
  | .putLocked _ | .storing _ _ _ => true
  | phase => phase.hasPopped

/-- This thread wakes a producer, or looks at the ring itself. -/
def supplies : SpaceSide × Phase → Bool
  | (.owes _, _) | (.bumped, _) | (.leaving, _) => true
  | (.announced _, _) => false
  | (.clear, phase) => phase.supplies

def SpaceSide.waits : SpaceSide → ℕ
  | .announced _ | .leaving => 1
  | _ => 0

/-- How a thread's side fits its phase. -/
def SpaceOk : SpaceSide → Phase → Prop
  | _, .popCount _ [] | .clear, .waiting _ => False
  | .clear, _ | .bumped, .finishing _ (_ :: _) => True
  | .announced _, .waiting put | .leaving, .waiting put => put.ready = true
  | .owes count, .reading _ => 0 < count
  | _, _ => False

theorem Phase.supplies_of_hasPopped {phase : Phase} (h : phase.hasPopped = true) : phase.supplies = true := by
  cases phase <;> first | exact h | cases h

section Turns

variable {queue : RingQueue} {pid : ℕ → UInt32} {state next : State} {thread : ℕ} {move : Move}

/-- What a move of `put`, `get` or `get_many`, other than the way out of a sleep and the release of a get that has
records, does to the records and to its thread. -/
structure SpaceTurn (queue : RingQueue) (state next : State) (thread : ℕ) : Prop where
  phase : ∃ phase, next.phase = Function.update state.phase thread phase
  unread : 0 < state.unread → 0 < next.unread ∨ (next.phase thread).hasPopped = true
  popped : (state.phase thread).hasPopped = true → (next.phase thread).hasPopped = true
  supplies : (state.phase thread).supplies = true → 0 < next.unread ∨ (next.phase thread).supplies = true
  small : ∀ put, (next.phase thread).pre = some put → Small queue put
  ok : SpaceOk .clear (next.phase thread) ∨
    (∃ put, next.phase thread = .waiting put ∧ put.ready = true) ∧ 0 < next.unread

/-- A move that changes no record. -/
theorem SpaceTurn.quiet {phase : Phase} (hphase : next.phase = Function.update state.phase thread phase)
    (hunread : next.unread = state.unread)
    (hpopped : (state.phase thread).hasPopped = true → phase.hasPopped = true)
    (hsupplies : (state.phase thread).supplies = true → phase.supplies = true)
    (hsmall : ∀ put, phase.pre = some put → Small queue put) (hok : SpaceOk .clear phase) :
    SpaceTurn queue state next thread := by
  have hself : next.phase thread = phase := by
    rw [hphase, Function.update_self]
  constructor
  · exact ⟨phase, hphase⟩
  · rw [hunread]
    exact .inl
  · rw [hself]
    exact hpopped
  · rw [hself]
    exact fun hbefore ↦ .inr (hsupplies hbefore)
  · rw [hself]
    exact hsmall
  · rw [hself]
    exact .inl hok

/-- The record of a spill is small. -/
theorem small_spill {put : PutCall} {result : SpillResult} (hmust : put.mustSpill = true) (hput : Small queue put)
    (hspill : spill queue pid state thread put result = some next) {put' : PutCall}
    (hput' : (next.phase thread).pre = some put') : Small queue put' := by
  have hinline : put.mustSpill = false → put.data.length ≤ queue.spillAt := by
    rw [hmust]
    rintro ⟨⟩
  have hpid : (pid thread).toNat < 2 ^ 32 := (pid thread).toNat_lt
  cases result with
  | shm =>
    simp only [spill, Option.ite_none_left_eq_some, Bool.or_eq_true, decide_eq_true_eq, not_or, Nat.not_le,
      Option.some.injEq] at hspill
    obtain ⟨⟨-, hcounter⟩, rfl⟩ := hspill
    rw [goto_phase] at hput'
    cases hput'
    refine ⟨hinline, ?_⟩
    rintro record ⟨⟩
    have hname : (Sys.spillObjectName queue.name (pid thread).toNat (state.spills (pid thread))).length ≤
        queue.name.length + 26 := Sys.spillObjectName_length_le hpid hcounter
    have hring := queue.name_length_le
    simp only [spillRecord, List.length_append, leBytes_length]
    omega
  | file =>
    simp only [spill, Option.ite_none_left_eq_some, Nat.not_le, Option.some.injEq] at hspill
    obtain ⟨hcounter, rfl⟩ := hspill
    rw [goto_phase] at hput'
    cases hput'
    refine ⟨hinline, ?_⟩
    rintro record ⟨⟩
    have hname := Sys.fileSpillName_length_le hpid hcounter
    simp only [spillRecord, List.length_append, leBytes_length]
    omega
  | noSpace left clock =>
    simp only [spill] at hspill
    split at hspill
    · cases hspill
      rw [goto_phase] at hput'
      cases hput'
    · cases hspill
      rw [goto_phase] at hput'
      cases hput'
      exact hput
  | failed left =>
    cases hspill
    rw [goto_phase] at hput'
    cases hput'

/-- With nothing unread, a put has room. -/
theorem putDecide_of_empty (hinv : Inv queue pid state) (hcount : CountOk state) {put : PutCall}
    (hphase : state.phase thread = .putLocked put) (hsmall : Small queue put) (hempty : state.unread = 0)
    (clock : Bool) : putDecide queue state thread put clock =
      state.goto thread (.storing put put.record (publishStores queue state.shared put.record)) := by
  have halive := hcount.alive (pid thread)
  have hready : (put.mustSpill && put.spilled.isNone) = false := by
    have hlocked := (hinv.threads thread).locked_ok halive
    rwa [hphase] at hlocked
  have hoffsets : state.shared.head = state.shared.tail := by
    by_contra hne
    have hpos := hinv.unread_pos hne
    unfold State.unread at hempty
    omega
  have hslot : hasSlot queue state.shared = true := by
    have hlocked : (state.phase thread).locked = true := by rw [hphase]; rfl
    have hat := hcount.at hinv hlocked
    rw [hphase] at hat
    have hzero : state.shared.count = 0 := hat.trans hempty
    rw [hasSlot, hzero]
    simp [Nat.pos_iff_ne_zero, Classical.em]
  have hroom : hasRoom queue state.shared put.record = true := hasRoom_of_empty hoffsets (hsmall.size hready)
  unfold putDecide
  dsimp only
  rw [hslot, hroom, Bool.and_self, if_pos rfl]

/-- The decision of a put leaves it a record of half the ring at most. -/
theorem putDecide_small {put : PutCall} (hsmall : Small queue put) (clock : Bool) {put' : PutCall}
    (hput : ((putDecide queue state thread put clock).phase thread).pre = some put') : Small queue put' := by
  have hdecided : Decided queue state thread put (putDecide queue state thread put clock) :=
    putDecide_decided put clock
  generalize putDecide queue state thread put clock = after at hdecided hput
  cases hdecided with
  | stores =>
    rw [goto_phase] at hput
    cases hput
    exact hsmall
  | spills =>
    rw [goto_phase] at hput
    cases hput
    exact ⟨by rintro ⟨⟩, hsmall.spilled⟩
  | expired =>
    rw [goto_phase] at hput
    cases hput
  | waits =>
    rw [goto_phase] at hput
    cases hput
    exact ⟨hsmall.inline, hsmall.spilled⟩

/-- What a move does on the producers' side. -/
theorem moveStep_spaceTurn (hinv : Inv queue pid state) (hcount : CountOk state)
    (hsmall : ∀ put, (state.phase thread).pre = some put → Small queue put)
    (hok : SpaceOk .clear (state.phase thread)) (hwake : ∀ signalled, move ≠ .wake signalled)
    (hfinish : move = .finishPops → (state.phase thread).held = [])
    (hnext : moveStep queue pid state thread move = some next) : SpaceTurn queue state next thread := by
  have hpre {put : PutCall} (hphase : (state.phase thread).pre = some put) {put' : PutCall}
      (hsame : some put = some put') : Small queue put' := by
    cases hsame
    exact hsmall put hphase
  cases moveStep_cases hnext with
  | putBegin data deadline disk hphase =>
    refine .quiet rfl rfl (by rw [hphase]; rintro ⟨⟩) (by rw [hphase]; rintro ⟨⟩) ?_ trivial
    rintro _ ⟨⟩
    constructor
    · exact fun hfits ↦ Nat.not_lt.mp (of_decide_eq_false hfits)
    · rintro _ ⟨⟩
  | spill put result hphase hmust hunspilled hspill =>
    have hframe := spill_frame hspill
    have hunread : next.unread = state.unread := by rw [State.unread, hframe.puts, hframe.pops, State.unread]
    have hnot : (state.phase thread).supplies = false := by
      rw [hphase]
      simp [Phase.supplies, PutCall.ready, hmust, hunspilled]
    have hpopped : (state.phase thread).hasPopped = false := by rw [hphase]; rfl
    have hput : Small queue put := hpre (by rw [hphase]; rfl) rfl
    rcases hframe.phase with hidle | ⟨put', hagain⟩
    · exact .quiet hidle hunread (by rw [hpopped]; rintro ⟨⟩) (by rw [hnot]; rintro ⟨⟩) (by rintro _ ⟨⟩) trivial
    · refine .quiet hagain hunread (by rw [hpopped]; rintro ⟨⟩) (by rw [hnot]; rintro ⟨⟩) ?_ trivial
      intro other hother
      apply small_spill hmust hput hspill
      rw [hagain, Function.update_self]
      exact hother
  | acquirePut put hphase =>
    exact .quiet rfl rfl (by rw [hphase]; rintro ⟨⟩) (fun _ ↦ rfl) (fun _ ↦ hpre (by rw [hphase]; rfl)) trivial
  | acquireGet get hphase =>
    exact .quiet rfl rfl (by rw [hphase]; rintro ⟨⟩) (by rw [hphase]; rintro ⟨⟩) (by rintro _ ⟨⟩) trivial
  | putDecide put clock hphase =>
    have hput : Small queue put := hpre (by rw [hphase]; rfl) rfl
    have hhistory := @putDecide_history queue state thread put clock
    have hunread : (putDecide queue state thread put clock).unread = state.unread := by
      rw [State.unread, hhistory.1, hhistory.2.1, State.unread]
    obtain ⟨phase, hnew, -⟩ := @putDecide_phase queue state thread put clock
    have hpopped : (state.phase thread).hasPopped = false := by rw [hphase]; rfl
    rcases Nat.eq_zero_or_pos state.unread with hempty | hpos
    · rw [putDecide_of_empty hinv hcount hphase hput hempty]
      exact .quiet rfl rfl (by rw [hpopped]; rintro ⟨⟩) (fun _ ↦ rfl) (fun _ ↦ hpre (by rw [hphase]; rfl)) trivial
    · -- it has not found the ring empty, whatever it decides
      constructor
      · exact ⟨phase, hnew⟩
      · rw [hunread]
        exact .inl
      · rw [hpopped]
        rintro ⟨⟩
      · rw [hunread]
        exact fun _ ↦ .inl hpos
      · exact fun put' ↦ putDecide_small hput clock
      · rw [hunread]
        have hdecided : Decided queue state thread put (putDecide queue state thread put clock) :=
          putDecide_decided put clock
        generalize putDecide queue state thread put clock = after at hdecided
        cases hdecided with
        | stores | spills | expired =>
          rw [goto_phase]
          exact .inl trivial
        | waits =>
          have hlocked := (hinv.threads thread).locked_ok (hcount.alive _)
          rw [hphase] at hlocked
          rw [goto_phase]
          exact .inr ⟨⟨_, rfl, congrArg not hlocked⟩, hpos⟩
  | store put record address byte todo hphase =>
    exact .quiet rfl rfl (by rw [hphase]; rintro ⟨⟩) (fun _ ↦ rfl) (fun _ ↦ hpre (by rw [hphase]; rfl)) trivial
  | storeTail put record hphase =>
    have hpos : 0 < (State.goto { state with
        shared := { state.shared with tail := nextTail queue state.shared record }
        puts := state.puts ++ [⟨put.call, put.data⟩] } thread (.counting put)).unread := by
      have hle := hinv.pops_le
      simp only [State.unread, State.goto, List.length_append, List.length_singleton]
      omega
    constructor
    · exact ⟨_, rfl⟩
    · exact fun _ ↦ .inl hpos
    · rw [hphase]
      rintro ⟨⟩
    · exact fun _ ↦ .inl hpos
    · rw [goto_phase]
      rintro _ ⟨⟩
    · rw [goto_phase]
      exact .inl trivial
  | addCount put hphase | putDone put hphase | putAbort put hphase | getBegin get hphase
  | getItems get clock hphase | getExpired get clock hphase | getAgain get clock hphase =>
    exact .quiet rfl rfl (by rw [hphase]; rintro ⟨⟩) (by rw [hphase]; rintro ⟨⟩) (by rintro _ ⟨⟩) trivial
  | interrupted | wake => exact absurd rfl (hwake _)
  | popEnough get got hphase | popEmpty get got hphase =>
    cases got <;>
      exact .quiet rfl rfl (by rw [hphase]; exact id) (by rw [hphase]; exact id) (by rintro _ ⟨⟩) trivial
  | pop get got hphase hne =>
    have hself : (State.goto { state with
        shared := { state.shared with head := (nextRecord queue state.shared).2 }
        pops := state.pops ++ [thread] } thread
          (.popCount get (got ++ [⟨state.pops.length, (nextRecord queue state.shared).1⟩]))).phase thread =
        .popCount get (got ++ [⟨state.pops.length, (nextRecord queue state.shared).1⟩]) := goto_phase _ _ _
    constructor
    · exact ⟨_, rfl⟩
    · rw [hself]
      exact fun _ ↦ .inr rfl
    · rw [hself]
      exact fun _ ↦ rfl
    · rw [hself]
      exact fun _ ↦ .inr rfl
    · rw [hself]
      rintro _ ⟨⟩
    · rw [hself]
      cases got <;> exact .inl trivial
  | storeCount get got hphase =>
    cases got with
    | nil =>
      rw [hphase] at hok
      exact hok.elim
    | cons popped rest =>
      exact .quiet rfl rfl (fun _ ↦ rfl) (fun _ ↦ rfl) (by rintro _ ⟨⟩) trivial
  | resync get got hphase =>
    cases got <;>
      exact .quiet rfl rfl (by rw [hphase]; exact id) (by rw [hphase]; exact id) (by rintro _ ⟨⟩) trivial
  | finishRead get popped rest hphase =>
    have hheld := hfinish rfl
    rw [hphase] at hheld
    cases hheld
  | finishMany get hphase | finishAgain get hphase =>
    exact .quiet rfl rfl (by rw [hphase]; rintro ⟨⟩) (by rw [hphase]; rintro ⟨⟩) (by rintro _ ⟨⟩) trivial
  | materialize popped rest hphase =>
    have hpopped : (state.phase thread).hasPopped = false := by rw [hphase]; rfl
    have hnot : (state.phase thread).supplies = false := by rw [hphase]; rfl
    have hquiet {after : State} {phase : Phase} (hnew : after.phase = Function.update state.phase thread phase)
        (hunread : after.unread = state.unread) (hpre : phase.pre = none) (hok : SpaceOk .clear phase) :
        SpaceTurn queue state after thread := by
      refine .quiet hnew hunread (by rw [hpopped]; rintro ⟨⟩) (by rw [hnot]; rintro ⟨⟩) ?_ hok
      rw [hpre]
      rintro _ ⟨⟩
    unfold materializeNext
    split
    · refine hquiet rfl rfl ?_ ?_ <;> split <;> trivial
    · exact hquiet rfl rfl rfl trivial

end Turns

/-! ## The invariant -/

/-- A thread has taken records and not told the producers, or something is unread. -/
def Taking (state : EndsState) : Prop :=
  0 < state.wait.ring.unread ∨
    ∃ popper, state.side popper = .clear ∧ (state.wait.ring.phase popper).hasPopped = true

/-- Something is unread, or a thread wakes a producer or looks at the ring. -/
def Supplied (state : EndsState) : Prop :=
  0 < state.wait.ring.unread ∨ ∃ thread, supplies (state.side thread, state.wait.ring.phase thread) = true

structure Stocked (queue : RingQueue) (pid : ℕ → UInt32) (state : EndsState) : Prop where
  served : Served queue pid state.wait
  count : CountOk state.wait.ring
  small : ∀ thread put, (state.wait.ring.phase thread).pre = some put → Small queue put
  sides : ∀ thread, SpaceOk (state.side thread) (state.wait.ring.phase thread)
  asleep : ∀ thread ∈ state.sleeping, ∃ seen, state.side thread = .announced seen
  finite : (Function.support fun thread ↦ (state.side thread).waits).Finite
  counted : state.waitingProducers = ∑ᶠ thread, (state.side thread).waits
  seen_le : ∀ thread seen, state.side thread = .announced seen → seen ≤ state.spaceSeq
  fresh : ∀ thread, state.side thread = .announced state.spaceSeq → Taking state
  supplied : state.sleeping ≠ [] → Supplied state

section Steps

variable {queue : RingQueue} {pid : ℕ → UInt32} {state : EndsState} {thread : ℕ}

/-- The ring behind a step of `put`, `get` or `get_many`. -/
theorem ringStep_ring {before after : WaitState} {move : Move}
    (h : ringStep queue pid before thread move = some after) :
    moveStep queue pid before.ring thread move = some after.ring := by
  have hring {next : State} : (before.announce thread next).ring = next := by
    unfold WaitState.announce
    split <;> rfl
  unfold ringStep at h
  split at h
  · cases h
  · obtain ⟨next, hnext, rfl⟩ := Option.map_eq_some_iff.mp h
    exact (step_alive hnext).2
  · obtain ⟨next, hnext, rfl⟩ := Option.map_eq_some_iff.mp h
    rw [hring]
    exact (step_alive hnext).2
  · obtain ⟨next, hnext, rfl⟩ := Option.map_eq_some_iff.mp h
    exact (step_alive hnext).2
  · cases h

theorem SpaceOk.waiting {phase : Phase} (h : SpaceOk .leaving phase) :
    ∃ put, phase = .waiting put ∧ put.ready = true := by
  cases phase with
  | waiting put => exact ⟨put, rfl, h⟩
  | popCount get got => cases got <;> exact h.elim
  | _ => exact h.elim

theorem SpaceOk.leaving {seen : ℕ} {phase : Phase} (h : SpaceOk (.announced seen) phase) : SpaceOk .leaving phase := by
  cases phase with
  | waiting put => exact h
  | popCount get got => cases got <;> exact h.elim
  | _ => exact h.elim

theorem SpaceOk.owes {count : ℕ} {phase : Phase} (h : SpaceOk (.owes count) phase) :
    0 < count ∧ SpaceOk .clear phase := by
  cases phase with
  | reading got => exact ⟨h, trivial⟩
  | popCount get got => cases got <;> exact h.elim
  | _ => exact h.elim

/-- What a thread of which the side stays clear has taken, it still has. -/
theorem Taking.move {after : WaitState} (h : Taking state) (hclear : state.side thread = .clear)
    (hturn : SpaceTurn queue state.wait.ring after.ring thread) : Taking { state with wait := after } := by
  obtain ⟨phase, hphase⟩ := hturn.phase
  rcases h with hpos | ⟨popper, hside, hpopped⟩
  · exact (hturn.unread hpos).imp_right fun hpopped ↦ ⟨thread, hclear, hpopped⟩
  · refine .inr ⟨popper, hside, ?_⟩
    by_cases hsame : popper = thread
    · rw [hsame] at hpopped ⊢
      exact hturn.popped hpopped
    · show (after.ring.phase popper).hasPopped = true
      rw [hphase, Function.update_of_ne hsame]
      exact hpopped

theorem Supplied.move {after : WaitState} (h : Supplied state) (hclear : state.side thread = .clear)
    (hturn : SpaceTurn queue state.wait.ring after.ring thread) : Supplied { state with wait := after } := by
  obtain ⟨phase, hphase⟩ := hturn.phase
  have hmine (hsupplies : (after.ring.phase thread).supplies = true) :
      ∃ other, supplies (state.side other, after.ring.phase other) = true := by
    refine ⟨thread, ?_⟩
    rw [hclear]
    exact hsupplies
  rcases h with hpos | ⟨other, hsupplies⟩
  · exact (hturn.unread hpos).imp_right fun hpopped ↦ hmine (Phase.supplies_of_hasPopped hpopped)
  · by_cases hsame : other = thread
    · rw [hsame, hclear] at hsupplies
      exact (hturn.supplies hsupplies).imp_right hmine
    · refine .inr ⟨other, ?_⟩
      show supplies (state.side other, after.ring.phase other) = true
      rw [hphase, Function.update_of_ne hsame]
      exact hsupplies

namespace Stocked

/-- What the ring and the consumers do keeps what is said about them. -/
theorem small_of_turn (h : Stocked queue pid state) {next : State}
    (hturn : SpaceTurn queue state.wait.ring next thread) (other : ℕ) {put : PutCall}
    (hput : (next.phase other).pre = some put) : Small queue put := by
  obtain ⟨phase, hphase⟩ := hturn.phase
  by_cases hsame : other = thread
  · rw [hsame] at hput
    exact hturn.small put hput
  · rw [hphase, Function.update_of_ne hsame] at hput
    exact h.small other put hput

/-- A move of a thread that has nothing to do with the producers' word, and does not go to sleep on it. -/
theorem move (h : Stocked queue pid state) {after : WaitState} (hclear : state.side thread = .clear)
    (hturn : SpaceTurn queue state.wait.ring after.ring thread) (hserved : Served queue pid after)
    (hcount : CountOk after.ring) (hok : SpaceOk .clear (after.ring.phase thread)) :
    Stocked queue pid { state with wait := after } where
  served := hserved
  count := hcount
  small other _ hput := h.small_of_turn hturn other hput
  sides other := by
    obtain ⟨phase, hphase⟩ := hturn.phase
    show SpaceOk (state.side other) (after.ring.phase other)
    by_cases hsame : other = thread
    · rw [hsame, hclear]
      exact hok
    · rw [hphase, Function.update_of_ne hsame]
      exact h.sides other
  asleep := h.asleep
  finite := h.finite
  counted := h.counted
  seen_le := h.seen_le
  fresh other hother := (h.fresh other hother).move hclear hturn
  supplied hsleeping := (h.supplied hsleeping).move hclear hturn

/-- A producer announces itself while something is unread. -/
theorem announce (h : Stocked queue pid state) {after : WaitState} (hclear : state.side thread = .clear)
    (hturn : SpaceTurn queue state.wait.ring after.ring thread) (hserved : Served queue pid after)
    (hcount : CountOk after.ring) {put : PutCall} (hwaiting : after.ring.phase thread = .waiting put)
    (hready : put.ready = true) (hunread : 0 < after.ring.unread) :
    Stocked queue pid
      { state with
        wait := after
        waitingProducers := state.waitingProducers + 1
        side := Function.update state.side thread (.announced state.spaceSeq) } where
  served := hserved
  count := hcount
  small other _ hput := h.small_of_turn hturn other hput
  sides other := by
    obtain ⟨phase, hphase⟩ := hturn.phase
    show SpaceOk (Function.update state.side thread _ other) (after.ring.phase other)
    by_cases hsame : other = thread
    · rw [hsame, Function.update_self, hwaiting]
      exact hready
    · rw [hphase, Function.update_of_ne hsame, Function.update_of_ne hsame]
      exact h.sides other
  asleep other hother := by
    obtain ⟨seen, hseen⟩ := h.asleep other hother
    have hne : other ≠ thread := by
      rintro rfl
      rw [hclear] at hseen
      cases hseen
    exact ⟨seen, by dsimp only; rw [Function.update_of_ne hne]; exact hseen⟩
  finite := finite_support_update SpaceSide.waits state.side thread _ h.finite
  counted := by
    have htotal := finsum_update_comp SpaceSide.waits state.side thread (.announced state.spaceSeq) h.finite
    rw [hclear, ← h.counted] at htotal
    exact htotal.symm
  seen_le other seen hseen := by
    dsimp only at hseen
    by_cases hsame : other = thread
    · rw [hsame, Function.update_self] at hseen
      cases hseen
      exact le_rfl
    · rw [Function.update_of_ne hsame] at hseen
      exact h.seen_le other seen hseen
  fresh _ _ := .inl hunread
  supplied _ := .inl hunread

/-- A thread that has business with the producers' word goes on with it, and the ring is as it was. -/
theorem turn (h : Stocked queue pid state) {side : SpaceSide} {seq : ℕ} {sleeping : List ℕ}
    (hok : SpaceOk side (state.wait.ring.phase thread)) (hwaits : side.waits = (state.side thread).waits)
    (hquiet : ∀ seen, side ≠ .announced seen) (hle : state.spaceSeq ≤ seq)
    (hfresh : state.spaceSeq < seq ∨ state.side thread ≠ .clear)
    (hsupplies : supplies (state.side thread, state.wait.ring.phase thread) = true →
      supplies (side, state.wait.ring.phase thread) = true)
    (hsleeping : ∀ other ∈ sleeping, other ∈ state.sleeping ∧ other ≠ thread) :
    Stocked queue pid
      { state with
        spaceSeq := seq
        side := Function.update state.side thread side
        sleeping := sleeping } := by
  have hsame : (fun other ↦ (Function.update state.side thread side other).waits) =
      fun other ↦ (state.side other).waits := by
    funext other
    by_cases hother : other = thread
    · rw [hother, Function.update_self, hwaits]
    · rw [Function.update_of_ne hother]
  constructor
  · exact h.served
  · exact h.count
  · exact h.small
  · intro other
    dsimp only
    by_cases hother : other = thread
    · rw [hother, Function.update_self]
      exact hok
    · rw [Function.update_of_ne hother]
      exact h.sides other
  · intro other hother
    obtain ⟨hbefore, hne⟩ := hsleeping other hother
    obtain ⟨seen, hseen⟩ := h.asleep other hbefore
    exact ⟨seen, by dsimp only; rw [Function.update_of_ne hne]; exact hseen⟩
  · show (Function.support fun other ↦ (Function.update state.side thread side other).waits).Finite
    rw [hsame]
    exact h.finite
  · show state.waitingProducers = ∑ᶠ other, (Function.update state.side thread side other).waits
    rw [h.counted]
    exact congrArg finsum hsame.symm
  · intro other seen hseen
    dsimp only at hseen
    by_cases hother : other = thread
    · rw [hother, Function.update_self] at hseen
      exact absurd hseen (hquiet seen)
    · rw [Function.update_of_ne hother] at hseen
      exact (h.seen_le other seen hseen).trans hle
  · intro other hseen
    dsimp only at hseen
    by_cases hother : other = thread
    · rw [hother, Function.update_self] at hseen
      exact absurd hseen (hquiet _)
    · rw [Function.update_of_ne hother] at hseen
      rcases hfresh with hlt | hclear
      · -- the word has moved since the announcement
        have hbefore := h.seen_le other seq hseen
        omega
      · have hseq : seq = state.spaceSeq := Nat.le_antisymm (h.seen_le other seq hseen) hle
        rw [hseq] at hseen
        rcases h.fresh other hseen with hpos | ⟨popper, hside, hpopped⟩
        · exact .inl hpos
        · have hne : popper ≠ thread := by
            rintro rfl
            exact hclear hside
          exact .inr ⟨popper, by dsimp only; rw [Function.update_of_ne hne]; exact hside, hpopped⟩
  · intro hsome
    obtain ⟨sleeper, hsleeper⟩ := List.exists_mem_of_ne_nil _ hsome
    rcases h.supplied (List.ne_nil_of_mem (hsleeping sleeper hsleeper).1) with hpos | ⟨other, hother⟩
    · exact .inl hpos
    · refine .inr ⟨other, ?_⟩
      dsimp only
      by_cases hthread : other = thread
      · rw [hthread] at hother ⊢
        rw [Function.update_self]
        exact hsupplies hother
      · rw [Function.update_of_ne hthread]
        exact hother

/-- What a thread has to do with the producers' word tells it from those that sleep on it. -/
theorem ne_of_asleep (h : Stocked queue pid state) (hside : ∀ seen, state.side thread ≠ .announced seen) {other : ℕ}
    (hother : other ∈ state.sleeping) : other ≠ thread := by
  rintro rfl
  obtain ⟨seen, hseen⟩ := h.asleep other hother
  exact hside seen hseen

theorem bump (h : Stocked queue pid state) (hside : state.side thread = .clear) {get : GetCall} {popped : Popped}
    {rest : List Popped} (hphase : state.wait.ring.phase thread = .finishing get (popped :: rest)) :
    Stocked queue pid
      { state with
        spaceSeq := state.spaceSeq + (popped :: rest).length
        side := Function.update state.side thread .bumped } := by
  have hlt : state.spaceSeq < state.spaceSeq + (popped :: rest).length := Nat.lt_add_of_pos_right (Nat.succ_pos _)
  apply h.turn _ _ _ hlt.le (.inl hlt) (fun _ ↦ rfl)
  · exact fun other hother ↦ ⟨hother, h.ne_of_asleep (by rw [hside]; rintro _ ⟨⟩) hother⟩
  · rw [hphase]
    trivial
  · rw [hside]
    rfl
  · rintro _ ⟨⟩

/-- A producer that does not sleep, or no longer, is on its way to look at the ring. -/
theorem rouse (h : Stocked queue pid state) {seen : ℕ} (hside : state.side thread = .announced seen)
    {sleeping : List ℕ} (hsleeping : ∀ other ∈ sleeping, other ∈ state.sleeping ∧ other ≠ thread) :
    Stocked queue pid
      { state with side := Function.update state.side thread .leaving, sleeping := sleeping } := by
  have hok := h.sides thread
  rw [hside] at hok
  exact h.turn hok.leaving (by rw [hside]; rfl) (by rintro _ ⟨⟩) le_rfl (.inr (by rw [hside]; rintro ⟨⟩))
    (fun _ ↦ rfl) hsleeping

/-- A producer that falls asleep has missed nothing since it announced itself. -/
theorem sleep (h : Stocked queue pid state) (hside : state.side thread = .announced state.spaceSeq) :
    Stocked queue pid { state with sleeping := state.sleeping ++ [thread] } where
  served := h.served
  count := h.count
  small := h.small
  sides := h.sides
  asleep other hother := by
    rcases List.mem_append.mp hother with hold | hnew
    · exact h.asleep other hold
    · rw [List.mem_singleton.mp hnew]
      exact ⟨_, hside⟩
  finite := h.finite
  counted := h.counted
  seen_le := h.seen_le
  fresh := h.fresh
  supplied _ := by
    rcases h.fresh thread hside with hpos | ⟨popper, hclear, hpopped⟩
    · exact .inl hpos
    · refine .inr ⟨popper, ?_⟩
      dsimp only
      rw [hclear]
      exact Phase.supplies_of_hasPopped hpopped

/-- A get that has records releases the lock. -/
theorem release (h : Stocked queue pid state) {after : WaitState} (hside : state.side thread = .bumped)
    {get : GetCall} {popped : Popped} {rest : List Popped}
    (hbefore : state.wait.ring.phase thread = .finishing get (popped :: rest))
    (hphase : after.ring.phase = Function.update state.wait.ring.phase thread (.reading (popped :: rest)))
    (hunread : after.ring.unread = state.wait.ring.unread) (hserved : Served queue pid after)
    (hcount : CountOk after.ring) : Stocked queue pid (state.release thread after) := by
  obtain ⟨side, hnew⟩ : ∃ side, side = if 0 < state.waitingProducers then
      SpaceSide.owes (state.wait.ring.phase thread).held.length else .clear := ⟨_, rfl⟩
  have hcases : side = .owes (popped :: rest).length ∧ 0 < state.waitingProducers ∨
      side = .clear ∧ state.waitingProducers = 0 := by
    rw [hnew, hbefore]
    split
    · exact .inl ⟨rfl, ‹_›⟩
    · exact .inr ⟨rfl, Nat.eq_zero_of_not_pos ‹_›⟩
  have hquiet : ∀ seen, side ≠ .announced seen := by
    rintro seen rfl
    rcases hcases with ⟨⟨⟩, -⟩ | ⟨⟨⟩, -⟩
  have hwaits : side.waits = 0 := by
    rcases hcases with ⟨rfl, -⟩ | ⟨rfl, -⟩ <;> rfl
  have hstill {other : ℕ} (hne : other ≠ thread) : after.ring.phase other = state.wait.ring.phase other := by
    rw [hphase, Function.update_of_ne hne]
  unfold EndsState.release
  rw [← hnew]
  constructor
  · exact hserved
  · exact hcount
  · intro other put hput
    change (after.ring.phase other).pre = some put at hput
    by_cases hother : other = thread
    · rw [hother, hphase, Function.update_self] at hput
      cases hput
    · rw [hstill hother] at hput
      exact h.small other put hput
  · intro other
    show SpaceOk (Function.update state.side thread side other) (after.ring.phase other)
    by_cases hother : other = thread
    · rw [hother, Function.update_self, hphase, Function.update_self]
      rcases hcases with ⟨rfl, -⟩ | ⟨rfl, -⟩
      · exact Nat.succ_pos _
      · trivial
    · rw [Function.update_of_ne hother, hstill hother]
      exact h.sides other
  · intro other hother
    obtain ⟨seen, hseen⟩ := h.asleep other hother
    have hne : other ≠ thread := h.ne_of_asleep (by rw [hside]; rintro _ ⟨⟩) hother
    exact ⟨seen, by dsimp only; rw [Function.update_of_ne hne]; exact hseen⟩
  · exact finite_support_update SpaceSide.waits state.side thread side h.finite
  · have htotal := finsum_update_comp SpaceSide.waits state.side thread side h.finite
    rw [hside, ← h.counted, hwaits] at htotal
    exact htotal.symm
  · intro other seen hseen
    dsimp only at hseen
    by_cases hother : other = thread
    · rw [hother, Function.update_self] at hseen
      exact absurd hseen (hquiet seen)
    · rw [Function.update_of_ne hother] at hseen
      exact h.seen_le other seen hseen
  · intro other hseen
    dsimp only at hseen
    by_cases hother : other = thread
    · rw [hother, Function.update_self] at hseen
      exact absurd hseen (hquiet _)
    · rw [Function.update_of_ne hother] at hseen
      rcases h.fresh other hseen with hpos | ⟨popper, hclear, hpopped⟩
      · exact .inl (hunread.symm ▸ hpos)
      · have hne : popper ≠ thread := by
          rintro rfl
          rw [hside] at hclear
          cases hclear
        refine .inr ⟨popper, ?_, ?_⟩
        · dsimp only
          rw [Function.update_of_ne hne]
          exact hclear
        · dsimp only
          rw [hstill hne]
          exact hpopped
  · intro hsome
    -- whoever sleeps counts, so the wake is owed
    obtain ⟨sleeper, hsleeper⟩ := List.exists_mem_of_ne_nil _ hsome
    obtain ⟨seen, hseen⟩ := h.asleep sleeper hsleeper
    have hpos : 0 < state.waitingProducers := by
      have hle := le_finsum h.finite sleeper
      rw [← h.counted, hseen] at hle
      exact hle
    refine .inr ⟨thread, ?_⟩
    dsimp only
    rw [Function.update_self]
    rcases hcases with ⟨rfl, -⟩ | ⟨-, hzero⟩
    · rfl
    · omega

/-- A wake takes at least one sleeper, if there is one, and it goes to look at the ring. -/
theorem wake (h : Stocked queue pid state) {count : ℕ} (hside : state.side thread = .owes count)
    {sleepers : List ℕ} (hlength : sleepers.length = min count state.sleeping.length)
    (hsubset : sleepers ⊆ state.sleeping) :
    Stocked queue pid
      { state with
        side := state.roused thread sleepers
        sleeping := state.sleeping.filter (· ∉ sleepers) } := by
  have hok := h.sides thread
  rw [hside] at hok
  obtain ⟨hcount, hdone⟩ := hok.owes
  have hannounced {other : ℕ} (hother : other ∈ sleepers) : ∃ seen, state.side other = .announced seen :=
    h.asleep other (hsubset hother)
  have hnot {other : ℕ} (hother : other ∈ sleepers) : other ≠ thread :=
    h.ne_of_asleep (by rw [hside]; rintro _ ⟨⟩) (hsubset hother)
  have hmine : state.roused thread sleepers thread = .clear := if_pos rfl
  have hroused {other : ℕ} (hother : other ∈ sleepers) : state.roused thread sleepers other = .leaving := by
    rw [EndsState.roused, if_neg (hnot hother), if_pos hother]
  have hrest {other : ℕ} (hne : other ≠ thread) (hother : other ∉ sleepers) :
      state.roused thread sleepers other = state.side other := by
    rw [EndsState.roused, if_neg hne, if_neg hother]
  have hstill {other seen : ℕ} (hseen : state.roused thread sleepers other = .announced seen) :
      state.side other = .announced seen := by
    by_cases hne : other = thread
    · rw [hne, hmine] at hseen
      cases hseen
    · by_cases hother : other ∈ sleepers
      · rw [hroused hother] at hseen
        cases hseen
      · rwa [hrest hne hother] at hseen
  have hwaits : (fun other ↦ (state.roused thread sleepers other).waits) = fun other ↦ (state.side other).waits := by
    funext other
    by_cases hne : other = thread
    · rw [hne, hmine, hside]
      rfl
    · by_cases hother : other ∈ sleepers
      · obtain ⟨seen, hseen⟩ := hannounced hother
        rw [hroused hother, hseen]
        rfl
      · rw [hrest hne hother]
  constructor
  · exact h.served
  · exact h.count
  · exact h.small
  · intro other
    dsimp only
    by_cases hne : other = thread
    · rw [hne, hmine]
      exact hdone
    · by_cases hother : other ∈ sleepers
      · obtain ⟨seen, hseen⟩ := hannounced hother
        have hasleep := h.sides other
        rw [hseen] at hasleep
        rw [hroused hother]
        exact hasleep.leaving
      · rw [hrest hne hother]
        exact h.sides other
  · intro other hother
    rw [List.mem_filter, decide_eq_true_eq] at hother
    obtain ⟨seen, hseen⟩ := h.asleep other hother.1
    refine ⟨seen, ?_⟩
    dsimp only
    rw [hrest (h.ne_of_asleep (by rw [hside]; rintro _ ⟨⟩) hother.1) hother.2]
    exact hseen
  · show (Function.support fun other ↦ (state.roused thread sleepers other).waits).Finite
    rw [hwaits]
    exact h.finite
  · show state.waitingProducers = ∑ᶠ other, (state.roused thread sleepers other).waits
    rw [h.counted]
    exact congrArg finsum hwaits.symm
  · exact fun other seen hseen ↦ h.seen_le other seen (hstill hseen)
  · intro other hseen
    rcases h.fresh other (hstill hseen) with hpos | ⟨popper, hclear, hpopped⟩
    · exact .inl hpos
    · refine .inr ⟨popper, ?_, hpopped⟩
      have hne : popper ≠ thread := by
        rintro rfl
        rw [hside] at hclear
        cases hclear
      have hother : popper ∉ sleepers := by
        intro hmem
        obtain ⟨seen, hannounced⟩ := hannounced hmem
        rw [hclear] at hannounced
        cases hannounced
      dsimp only
      rw [hrest hne hother]
      exact hclear
  · intro hsome
    obtain ⟨sleeper, hsleeper⟩ := List.exists_mem_of_ne_nil _ hsome
    have hpos : 0 < state.sleeping.length := List.length_pos_of_mem (List.mem_filter.mp hsleeper).1
    obtain ⟨taken, htaken⟩ := List.exists_mem_of_length_pos (show 0 < sleepers.length by omega)
    refine .inr ⟨taken, ?_⟩
    dsimp only
    rw [hroused htaken]
    rfl

/-- A producer that comes out of its sleep looks at the ring again. -/
theorem leave (h : Stocked queue pid state) {after : WaitState} (hside : state.side thread = .leaving) {put : PutCall}
    (hbefore : state.wait.ring.phase thread = .waiting put)
    (hphase : after.ring.phase = Function.update state.wait.ring.phase thread (.put put))
    (hunread : after.ring.unread = state.wait.ring.unread) (hserved : Served queue pid after)
    (hcount : CountOk after.ring) :
    Stocked queue pid
      { state with
        wait := after
        waitingProducers := state.waitingProducers - 1
        side := Function.update state.side thread .clear } := by
  have hok := h.sides thread
  rw [hside] at hok
  obtain ⟨put', hwaiting, hready⟩ := hok.waiting
  rw [hbefore] at hwaiting
  cases hwaiting
  have hstill {other : ℕ} (hne : other ≠ thread) : after.ring.phase other = state.wait.ring.phase other := by
    rw [hphase, Function.update_of_ne hne]
  have hannounced {other seen : ℕ} (hseen : Function.update state.side thread .clear other = .announced seen) :
      state.side other = .announced seen := by
    by_cases hother : other = thread
    · rw [hother, Function.update_self] at hseen
      cases hseen
    · rwa [Function.update_of_ne hother] at hseen
  constructor
  · exact hserved
  · exact hcount
  · intro other put' hput
    change (after.ring.phase other).pre = some put' at hput
    by_cases hother : other = thread
    · rw [hother, hphase, Function.update_self] at hput
      cases hput
      exact h.small thread put (by rw [hbefore]; rfl)
    · rw [hstill hother] at hput
      exact h.small other put' hput
  · intro other
    show SpaceOk (Function.update state.side thread .clear other) (after.ring.phase other)
    by_cases hother : other = thread
    · rw [hother, Function.update_self, hphase, Function.update_self]
      trivial
    · rw [Function.update_of_ne hother, hstill hother]
      exact h.sides other
  · intro other hother
    obtain ⟨seen, hseen⟩ := h.asleep other hother
    have hne : other ≠ thread := h.ne_of_asleep (by rw [hside]; rintro _ ⟨⟩) hother
    exact ⟨seen, by dsimp only; rw [Function.update_of_ne hne]; exact hseen⟩
  · exact finite_support_update SpaceSide.waits state.side thread .clear h.finite
  · have htotal := finsum_update_comp SpaceSide.waits state.side thread .clear h.finite
    rw [hside, ← h.counted] at htotal
    exact (Nat.eq_sub_of_add_eq htotal).symm
  · exact fun other seen hseen ↦ h.seen_le other seen (hannounced hseen)
  · intro other hseen
    rcases h.fresh other (hannounced hseen) with hpos | ⟨popper, hclear, hpopped⟩
    · exact .inl (hunread.symm ▸ hpos)
    · have hne : popper ≠ thread := by
        rintro rfl
        rw [hside] at hclear
        cases hclear
      refine .inr ⟨popper, ?_, ?_⟩
      · dsimp only
        rw [Function.update_of_ne hne]
        exact hclear
      · dsimp only
        rw [hstill hne]
        exact hpopped
  · intro _
    refine .inr ⟨thread, ?_⟩
    dsimp only
    rw [Function.update_self, hphase, Function.update_self]
    exact hready

theorem frame (h : Stocked queue pid state) {after : WaitState} (hring : after.ring = state.wait.ring)
    (hserved : Served queue pid after) : Stocked queue pid { state with wait := after } := by
  obtain ⟨-, hcount, hsmall, hsides, hasleep, hfinite, hcounted, hseen, hfresh, hsupplied⟩ := h
  rw [← hring] at hcount hsmall hsides
  unfold Taking at hfresh
  unfold Supplied at hsupplied
  rw [← hring] at hfresh hsupplied
  exact ⟨hserved, hcount, hsmall, hsides, hasleep, hfinite, hcounted, hseen, hfresh, hsupplied⟩

/-- A move of a thread that has no business with the producers' word. -/
theorem moveClear (h : Stocked queue pid state) {move : Move} {next : WaitState} (hclear : state.side thread = .clear)
    (hwake : ∀ signalled, move ≠ .wake signalled)
    (hfinish : move = .finishPops → (state.wait.ring.phase thread).held = [])
    (hserved : Served queue pid next) (hnext : waitStep queue pid state.wait (.ring thread move) = some next) :
    Stocked queue pid (state.announce thread next) := by
  have hmoved : moveStep queue pid state.wait.ring thread move = some next.ring := ringStep_ring hnext
  have hok := h.sides thread
  rw [hclear] at hok
  have hturn := moveStep_spaceTurn h.served.inv h.count (h.small thread) hok hwake hfinish hmoved
  have hcount := h.count.moveStep h.served.inv hmoved
  rcases hturn.ok with hquiet | ⟨⟨put, hwaiting, hready⟩, hunread⟩
  · have hplain : state.announce thread next = { state with wait := next } := by
      unfold EndsState.announce
      split
      · rename_i put hphase
        rw [hphase] at hquiet
        exact hquiet.elim
      · rfl
    rw [hplain]
    exact h.move hclear hturn hserved hcount hquiet
  · simp only [EndsState.announce, hwaiting]
    exact h.announce hclear hturn hserved hcount hwaiting hready hunread

/-- A move of `put`, `get` or `get_many`, with the words of both sides. -/
theorem endsMove (h : Stocked queue pid state) {move : Move} {after : EndsState}
    (hallowed : undisturbed queue state.wait (.ring thread move) = true)
    (hstep : endsMove queue pid state thread move = some after) : Stocked queue pid after := by
  unfold Ring.endsMove at hstep
  split at hstep
  · cases hstep
  · rename_i hclear
    split at hstep
    · rename_i hheld
      obtain ⟨next, hnext, rfl⟩ := Option.map_eq_some_iff.mp hstep
      exact h.moveClear hclear (by rintro _ ⟨⟩) (fun _ ↦ List.isEmpty_iff.mp hheld) (h.served.step hallowed hnext) hnext
    · cases hstep
  · rename_i hside
    obtain ⟨next, hnext, rfl⟩ := Option.map_eq_some_iff.mp hstep
    have hmoved : moveStep queue pid state.wait.ring thread .finishPops = some next.ring := ringStep_ring hnext
    have hcount := h.count.moveStep h.served.inv hmoved
    have hserved := h.served.step hallowed hnext
    have hok := h.sides thread
    rw [hside] at hok
    generalize hafter : next.ring = ring at hmoved
    cases moveStep_cases hmoved with
    | finishRead get popped rest hphase =>
      exact h.release hside hphase (by rw [hafter]; rfl) (by rw [hafter]; rfl) hserved hcount
    | finishMany get hphase | finishAgain get hphase =>
      rw [hphase] at hok
      exact hok.elim
  · rename_i hclear hwake hfinish
    obtain ⟨next, hnext, rfl⟩ := Option.map_eq_some_iff.mp hstep
    exact h.moveClear hclear hwake (fun hmove ↦ absurd hmove hfinish) (h.served.step hallowed hnext) hnext
  · cases hstep

end Stocked

/-- What the consumers do at their own word leaves the ring alone. -/
theorem waitStep_ring {before after : WaitState} {action : WaitAction} (hallowed : undisturbed queue before action = true)
    (hnot : ∀ thread move, action ≠ .ring thread move) (hstep : waitStep queue pid before action = some after) :
    after.ring = before.ring := by
  cases action with
  | ring thread move => exact absurd rfl (hnot thread move)
  | bump thread =>
    rw [waitStep] at hstep
    split at hstep
    · cases hstep
      rfl
    · cases hstep
  | wake thread sleeper =>
    simp only [waitStep] at hstep
    split at hstep
    · split at hstep <;> cases hstep
      rfl
    · split at hstep <;> cases hstep
      rfl
    · cases hstep
  | sleep thread =>
    rw [waitStep] at hstep
    split at hstep
    · split at hstep
      · cases hstep
      · split at hstep <;> cases hstep <;> rfl
    · cases hstep
  | timeout thread =>
    rw [waitStep] at hstep
    split at hstep
    · cases hstep
      rfl
    · cases hstep
  | leave thread =>
    rw [waitStep, leaveStep] at hstep
    split at hstep
    · cases hstep
      rfl
    · cases hstep
  | interrupt | die => cases hallowed

theorem undisturbed_of_unbroken {action : WaitAction} (h : unbroken queue state (.wait action) = true) :
    undisturbed queue state.wait action = true := by
  unfold unbroken at h
  split at h
  · cases h
  · rename_i heq
    cases heq
    exact h
  · rename_i heq
    cases heq
  · rename_i heq
    cases heq
  · rename_i hnot _ _
    exact absurd rfl (hnot action)

/-- What every step of an unbroken run preserves, on both sides of the ring. -/
theorem Stocked.step {action : EndsAction} {after : EndsState} (h : Stocked queue pid state)
    (hallowed : unbroken queue state action = true) (hstep : endsStep queue pid state action = some after) :
    Stocked queue pid after := by
  cases action with
  | wait action =>
    have hundisturbed := undisturbed_of_unbroken hallowed
    have hother (hnot : ∀ thread move, action ≠ .ring thread move)
        (hstep : (waitStep queue pid state.wait action).map (fun next ↦ { state with wait := next }) = some after) :
        Stocked queue pid after := by
      obtain ⟨next, hnext, rfl⟩ := Option.map_eq_some_iff.mp hstep
      exact h.frame (waitStep_ring hundisturbed hnot hnext) (h.served.step hundisturbed hnext)
    cases action with
    | ring thread move => exact h.endsMove hundisturbed hstep
    | bump | wake | sleep | timeout | leave => exact hother (by rintro _ _ ⟨⟩) hstep
    | interrupt | die => cases hundisturbed
  | bump thread =>
    rw [endsStep] at hstep
    split at hstep
    · cases hstep
      exact h.bump ‹_› ‹_›
    · cases hstep
  | wake thread sleepers =>
    rw [endsStep] at hstep
    split at hstep
    · rename_i count hside
      split at hstep
      · rename_i htakes
        cases hstep
        exact h.wake hside htakes.1 htakes.2.2
      · cases hstep
    · cases hstep
  | sleep thread =>
    rw [endsStep] at hstep
    split at hstep
    · rename_i seen hside
      split at hstep
      · cases hstep
      · rename_i hawake
        split at hstep
        · -- within one round of `space_seq` an unchanged word has not moved
          rename_i hword
          cases hstep
          have hle := h.seen_le thread seen hside
          simp only [unbroken, hside, decide_eq_true_eq] at hallowed
          have hseen : seen = state.spaceSeq := by omega
          rw [hseen] at hside
          exact h.sleep hside
        · cases hstep
          exact h.rouse hside fun other hother ↦ ⟨hother, fun hsame ↦ hawake (hsame ▸ hother)⟩
    · cases hstep
  | timeout thread =>
    rw [endsStep] at hstep
    split at hstep
    · rename_i seen hside
      cases hstep
      apply h.rouse hside
      intro other hother
      rw [List.mem_filter, decide_eq_true_eq] at hother
      exact hother
    · cases hstep
  | leave thread =>
    rw [endsStep, endsLeave] at hstep
    split at hstep
    · rename_i hside
      obtain ⟨next, hnext, rfl⟩ := Option.map_eq_some_iff.mp hstep
      have hmoved : moveStep queue pid state.wait.ring thread (.wake false) = some next.ring := ringStep_ring hnext
      have hallowed : undisturbed queue state.wait (.ring thread (.wake false)) = true := rfl
      have hserved := h.served.step hallowed hnext
      have hcount := h.count.moveStep h.served.inv hmoved
      generalize hafter : next.ring = ring at hmoved
      cases moveStep_cases hmoved with
      | wake put hphase =>
        exact h.leave hside hphase (by rw [hafter]; rfl) (by rw [hafter]; rfl) hserved hcount
    · cases hstep
  | interrupt thread => cases hallowed

theorem stocked_start : Stocked queue pid .start where
  served := served_start
  count := ⟨fun _ ↦ rfl, (by rintro _ ⟨⟩), fun _ ↦ rfl⟩
  small := by rintro _ _ ⟨⟩
  sides _ := trivial
  asleep := by rintro _ ⟨⟩
  finite := by
    have hzero : (Function.support fun thread ↦ (EndsState.start.side thread).waits) = ∅ :=
      Function.support_eq_empty_iff.mpr rfl
    rw [hzero]
    exact Set.finite_empty
  counted := finsum_zero.symm
  seen_le := by rintro _ _ ⟨⟩
  fresh := by rintro _ ⟨⟩
  supplied h := absurd rfl h

/-- In every state of an unbroken run a sleeping producer is seen to, or something is unread. -/
theorem stocked_of_reachable (h : ((endsMachine queue pid).restrict (unbroken queue)).Reachable state) :
    Stocked queue pid state := by
  apply h.invariant (Stocked queue pid) stocked_start
  intro before action after hbefore hstep
  obtain ⟨hallowed, hstep⟩ := Machine.restrict_step hstep
  exact hbefore.step hallowed hstep

end Steps

/-- The thread is asleep at neither end, and it wakes a sleeper or looks at the ring itself. -/
structure Attends (state : EndsState) (thread : ℕ) : Prop where
  producer : thread ∉ state.sleeping
  consumer : thread ∉ state.wait.sleeping
  attends : answers (state.wait.side thread, state.wait.ring.phase thread) ≠ 0 ∨
    supplies (state.side thread, state.wait.ring.phase thread) = true

section Attending

variable {queue : RingQueue} {pid : ℕ → UInt32} {state : EndsState} {thread : ℕ}

theorem Stocked.attends_of_answers (h : Stocked queue pid state)
    (hanswers : answers (state.wait.side thread, state.wait.ring.phase thread) ≠ 0) : Attends state thread := by
  constructor
  · intro hasleep
    obtain ⟨seen, hseen⟩ := h.asleep thread hasleep
    have hok := h.sides thread
    rw [hseen] at hok
    obtain ⟨put, hwaiting, -⟩ := hok.leaving.waiting
    have hside := h.served.sides thread
    rw [hwaiting] at hside hanswers
    cases hclear : state.wait.side thread with
    | clear =>
      rw [hclear] at hanswers
      exact hanswers rfl
    | bumped | owes | announced | leaving =>
      rw [hclear] at hside
      exact hside
  · intro hasleep
    obtain ⟨seen, hseen⟩ := h.served.asleep thread hasleep
    rw [hseen] at hanswers
    exact hanswers rfl
  · exact .inl hanswers

theorem Stocked.attends_of_supplies (h : Stocked queue pid state)
    (hsupplies : supplies (state.side thread, state.wait.ring.phase thread) = true) : Attends state thread := by
  constructor
  · intro hasleep
    obtain ⟨seen, hseen⟩ := h.asleep thread hasleep
    rw [hseen] at hsupplies
    cases hsupplies
  · intro hasleep
    obtain ⟨seen, hseen⟩ := h.served.asleep thread hasleep
    have hside := h.served.sides thread
    rw [hseen] at hside
    have hok := h.sides thread
    cases hphase : state.wait.ring.phase thread with
    | get call =>
      rw [hphase] at hok hsupplies
      cases hclear : state.side thread with
      | clear =>
        rw [hclear] at hsupplies
        cases hsupplies
      | bumped | owes | announced | leaving =>
        rw [hclear] at hok
        exact hok
    | _ =>
      rw [hphase] at hside
      exact hside
  · exact .inr hsupplies

/-- While a producer sleeps, something is unread or somebody sees to it that it will not sleep on; while a consumer
sleeps, nothing is unread or somebody sees to it; so producers and consumers never all sleep, each waiting for the
other side. -/
theorem never_all_asleep (h : ((endsMachine queue pid).restrict (unbroken queue)).Reachable state) :
    (state.sleeping ≠ [] → 0 < state.wait.ring.unread ∨ ∃ thread, Attends state thread) ∧
      (state.wait.sleeping ≠ [] → state.wait.ring.unread = 0 ∨ ∃ thread, Attends state thread) ∧
      (state.sleeping ≠ [] → state.wait.sleeping ≠ [] → ∃ thread, Attends state thread) := by
  have hstocked := stocked_of_reachable h
  have hproducers (hsleeping : state.sleeping ≠ []) :
      0 < state.wait.ring.unread ∨ ∃ thread, Attends state thread := by
    apply (hstocked.supplied hsleeping).imp_right
    rintro ⟨thread, hsupplies⟩
    exact ⟨thread, hstocked.attends_of_supplies hsupplies⟩
  have hconsumers (hsleeping : state.wait.sleeping ≠ []) :
      state.wait.ring.unread = 0 ∨ ∃ thread, Attends state thread := by
    apply (Nat.eq_zero_or_pos state.wait.ring.unread).imp_right
    intro hpos
    obtain ⟨thread, hanswers⟩ := hstocked.served.answered hsleeping hpos
    exact ⟨thread, hstocked.attends_of_answers hanswers⟩
  refine ⟨hproducers, hconsumers, ?_⟩
  intro hsleeping hwaiting
  rcases hproducers hsleeping with hpos | hattends
  · exact (hconsumers hwaiting).resolve_left hpos.ne'
  · exact hattends

end Attending

def oneSlot : RingQueue :=
  .ofNew 1 65536 none someCreator small_lt_word

/-- Producer 1 fills the ring, producer 2 goes to sleep, consumer 0 takes the item and has not woken anyone yet when
consumer 3 goes to sleep too. -/
def bothAsleep : List EndsAction :=
  [.wait (.ring 1 (.putBegin [7] .forever false)), .wait (.ring 1 .acquire), .wait (.ring 1 (.putDecide false))] ++
    List.replicate 9 (.wait (.ring 1 .store)) ++ [.wait (.ring 1 .storeTail), .wait (.ring 1 .addCount),
      .wait (.bump 1), .wait (.ring 1 .putDone)] ++
    [.wait (.ring 2 (.putBegin [8] .forever false)), .wait (.ring 2 .acquire), .wait (.ring 2 (.putDecide false)),
      .sleep 2] ++
    [.wait (.ring 0 (.getBegin ⟨1, false, .forever⟩)), .wait (.ring 0 .acquire), .wait (.ring 0 (.getCheck false)),
      .wait (.ring 0 .pop), .wait (.ring 0 .storeCount), .wait (.ring 0 .pop), .bump 0, .wait (.ring 0 .finishPops)] ++
    [.wait (.ring 3 (.getBegin ⟨1, false, .forever⟩)), .wait (.ring 3 .acquire), .wait (.ring 3 (.getCheck false)),
      .wait (.sleep 3)]

/-- A producer and a consumer sleep, and the consumer that has made room has still to wake one of them. -/
theorem never_all_asleep_bothAsleep : ∃ state,
    ((endsMachine oneSlot fun _ ↦ 0).restrict (unbroken oneSlot)).Reachable state ∧
      state.sleeping = [2] ∧ state.wait.sleeping = [3] ∧ ∃ thread, Attends state thread := by
  have hrun : (((endsMachine oneSlot fun _ ↦ 0).restrict (unbroken oneSlot)).runFrom .start bothAsleep).map
      (fun state ↦ (state.sleeping, state.wait.sleeping)) = some ([2], [3]) := by decide +kernel
  obtain ⟨state, hstate, hasleep⟩ := Option.map_eq_some_iff.mp hrun
  rw [Prod.mk.injEq] at hasleep
  have hreachable : ((endsMachine oneSlot fun _ ↦ 0).restrict (unbroken oneSlot)).Reachable state :=
    ⟨bothAsleep, hstate⟩
  have hattends := (never_all_asleep hreachable).2.2 (by rw [hasleep.1]; simp) (by rw [hasleep.2]; simp)
  exact ⟨state, hreachable, hasleep.1, hasleep.2, hattends⟩

end GpuPipe.Ring
