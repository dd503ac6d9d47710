import GpuPipe.Ring.Preservation

/-!
# Calls that run alone

The run of one non-blocking `put` by one thread while no other thread moves, from a
state in which it can take the lock. Every byte store is a step of its own here too.
Where no call is under way, whole calls of `put` and `get` follow one another.
-/

namespace GpuPipe.Ring

variable {queue : RingQueue} {pid : ℕ → UInt32} {state : State} {thread : ℕ}

@[simp] theorem goto_phase (state : State) (thread : ℕ) (phase : Phase) :
    (state.goto thread phase).phase thread = phase := Function.update_self ..

/-- What a live thread's move does is what the machine does. -/
theorem step_act {next : State} {move : Move} (halive : state.dead (pid thread) = false)
    (h : moveStep queue pid state thread move = some next) :
    (machine queue pid).step state (.act thread move) = some next := by
  simpa [machine, step, halive] using h

/-- The remaining byte stores of a record, one after the other. -/
theorem run_stores {put : PutCall} {record : Record} (todo : List (ℕ × UInt8))
    (halive : state.dead (pid thread) = false) (hphase : state.phase thread = .storing put record todo) :
    (machine queue pid).runFrom state (List.replicate todo.length (.act thread .store)) =
      some (State.goto { state with shared := { state.shared with
        bytes := state.shared.bytes.applyStores todo } } thread (.storing put record [])) := by
  induction todo generalizing state with
  | nil =>
    simp only [List.length_nil, List.replicate_zero, Machine.runFrom_nil, Memory.applyStores_nil,
      Option.some.injEq]
    rw [State.goto, ← hphase, Function.update_eq_self]
  | cons store todo ih =>
    refine Machine.runFrom_step (step_act halive (moveStep_store hphase)) ?_
    have halive' : (State.goto { state with shared := { state.shared with
        bytes := Function.update state.shared.bytes store.1 store.2 } } thread
          (.storing put record todo)).dead (pid thread) = false := halive
    rw [ih halive' (goto_phase _ _ _)]
    simp [State.goto]

/-- The moves of a critical section that publishes a record. -/
def publishMoves (queue : RingQueue) (shared : Shared) (record : Record) (thread : ℕ) : List Action :=
  .act thread .acquire :: .act thread (.putDecide true) ::
    (List.replicate (publishStores queue shared record).length (Action.act thread .store) ++
      [Action.act thread .storeTail, .act thread .addCount, .act thread .putDone])

theorem lockable_of_none (hlock : state.lock = none) : lockable pid state = true := by
  rw [lockable, hlock]

/-- A put at its loop top with a slot and room for its record publishes it and returns true. -/
theorem run_publish {put : PutCall} (halive : state.dead (pid thread) = false)
    (hlock : lockable pid state = true) (hphase : state.phase thread = .put put)
    (hready : (put.mustSpill && put.spilled.isNone) = false) (hpending : put.pending = none)
    (hslot : hasSlot queue state.shared = true) (hroom : hasRoom queue state.shared put.record = true) :
    (machine queue pid).runFrom state (publishMoves queue state.shared put.record thread) =
      some (State.goto { state with
        lock := none
        shared := publish queue state.shared put.record
        puts := state.puts ++ [⟨put.call, put.data⟩]
        putReturns := state.putReturns ++ [(put.call, true)] } thread .idle) := by
  have hacquire : moveStep queue pid state thread .acquire =
      some (State.goto { state with lock := some thread } thread (.putLocked put)) := by
    simp [moveStep, hphase, hready, hlock]
  refine Machine.runFrom_step (step_act halive hacquire) ?_
  have hdecide : putDecide queue (State.goto { state with lock := some thread } thread (.putLocked put))
      thread put true = State.goto { state with lock := some thread } thread
        (.storing put put.record (publishStores queue state.shared put.record)) := by
    simp [putDecide, State.goto, hslot, hroom]
  refine Machine.runFrom_step (step_act halive (moveStep_putDecide (goto_phase _ _ _) true)) ?_
  rw [hdecide]
  have halive' : (State.goto { state with lock := some thread } thread (.storing put put.record
      (publishStores queue state.shared put.record))).dead (pid thread) = false := halive
  refine Machine.runFrom_trans (run_stores _ halive' (goto_phase _ _ _)) ?_
  refine Machine.runFrom_step (step_act halive (by simp only [moveStep, goto_phase]; rfl)) ?_
  refine Machine.runFrom_step (step_act halive (by simp only [moveStep, goto_phase]; rfl)) ?_
  refine Machine.runFrom_step (step_act halive (by simp only [moveStep, goto_phase]; rfl)) ?_
  simp [State.goto, publish, nextTail, padding, hpending, clearPending]

/-! ## One call after the other -/

/-- Between calls: nobody has died, and the lock is free. -/
structure Rests (queue : RingQueue) (pid : ℕ → UInt32) (state : State) : Prop where
  reachable : ((machine queue pid).restrict noDeath).Reachable state
  lock : state.lock = none
  idle : state.phase = fun _ ↦ .idle
  alive : ∀ process, state.dead process = false

theorem rests_start : Rests queue pid .start := ⟨.refl, rfl, rfl, fun _ ↦ rfl⟩

theorem Rests.inv (h : Rests queue pid state) (hspill : queue.spillAt < 2 ^ 32) : Inv queue pid state :=
  inv_of_reachable (h.reachable.restrict_mono fun state action _ ↦ ridesWhole_of_spillAt hspill state action)

/-- A run of calls that nobody disturbs is one of the runs without deaths. -/
theorem Rests.run (h : Rests queue pid state) {actions : List Action} {next : State}
    (hrun : (machine queue pid).runFrom state actions = some next)
    (hcalm : ∀ action ∈ actions, ∃ thread move, action = .act thread move) :
    ((machine queue pid).restrict noDeath).Reachable next := by
  refine h.reachable.run ((Machine.restrict_runFrom ?_ state).trans hrun)
  intro action haction _
  obtain ⟨thread, move, rfl⟩ := hcalm action haction
  rfl

theorem publishMoves_acts (shared : Shared) (record : Record) :
    ∀ action ∈ publishMoves queue shared record thread, ∃ thread move, action = .act thread move := by
  intro action haction
  simp only [publishMoves, List.mem_cons, List.mem_append, List.mem_replicate, List.not_mem_nil,
    or_false] at haction
  rcases haction with rfl | rfl | ⟨_, rfl⟩ | rfl | rfl | rfl <;> exact ⟨_, _, rfl⟩

theorem update_idle {phases : ℕ → Phase} (h : phases = fun _ ↦ .idle) (phase : Phase) :
    Function.update (Function.update phases thread phase) thread .idle = phases := by
  subst h
  rw [Function.update_idem]
  exact Function.update_eq_self ..

/-- A put whose payload rides in the ring. -/
theorem Rests.put (h : Rests queue pid state) (thread : ℕ) (data : Bytes) (hlength : data.length < 2 ^ 63)
    (hinline : data.length ≤ queue.spillAt) (hslot : hasSlot queue state.shared = true)
    (hroom : hasRoom queue state.shared ⟨kindData, data⟩ = true) :
    Rests queue pid { state with
      calls := state.calls + 1
      shared := publish queue state.shared ⟨kindData, data⟩
      puts := state.puts ++ [⟨state.calls, data⟩]
      putReturns := state.putReturns ++ [(state.calls, true)] } := by
  have hbegin : moveStep queue pid state thread (.putBegin data .nonblocking false) =
      some (State.goto { state with calls := state.calls + 1 } thread
        (.put ⟨state.calls, data, .nonblocking, false, false, none, none⟩)) := by
    have hfits : decide (queue.spillAt < data.length) = false := decide_eq_false (by omega)
    simp only [moveStep, h.idle, hlength, hfits, if_true]
  have hput := Machine.runFrom_step (step_act (h.alive _) hbegin)
    (run_publish (h.alive _) (lockable_of_none h.lock) (goto_phase _ _ _) rfl rfl hslot hroom)
  simp only [State.goto, update_idle h.idle] at hput
  rw [← h.lock] at hput
  refine ⟨h.run hput ?_, h.lock, h.idle, h.alive⟩
  simp only [List.mem_cons, forall_eq_or_imp]
  exact ⟨⟨_, _, rfl⟩, publishMoves_acts _ _⟩

/-- A put whose payload is too long for the ring and finds shared memory. -/
theorem Rests.spill (h : Rests queue pid state) (thread : ℕ) (data : Bytes) {name : Bytes} (hlength : data.length < 2 ^ 63)
    (hlong : queue.spillAt < data.length)
    (hname : Sys.spillObjectName queue.name (pid thread).toNat (state.spills (pid thread)) = name)
    (hfresh : state.objects (.shm, name) = none) (hspills : state.spills (pid thread) < 2 ^ 64)
    (hslot : hasSlot queue state.shared = true)
    (hroom : hasRoom queue state.shared (spillRecord .shm name data.length) = true) :
    Rests queue pid { state with
      calls := state.calls + 1
      objects := Function.update state.objects (.shm, name) (some ⟨state.calls, data⟩)
      spills := Function.update state.spills (pid thread) (state.spills (pid thread) + 1)
      shared := publish queue state.shared (spillRecord .shm name data.length)
      puts := state.puts ++ [⟨state.calls, data⟩]
      putReturns := state.putReturns ++ [(state.calls, true)] } := by
  have hbegin : moveStep queue pid state thread (.putBegin data .nonblocking false) =
      some (State.goto { state with calls := state.calls + 1 } thread
        (.put ⟨state.calls, data, .nonblocking, false, true, none, none⟩)) := by
    simp only [moveStep, h.idle, hlength, hlong, decide_true, if_true]
  have hspill : moveStep queue pid (State.goto { state with calls := state.calls + 1 } thread
      (.put ⟨state.calls, data, .nonblocking, false, true, none, none⟩)) thread (.spill .shm) =
      some (State.goto { state with
        calls := state.calls + 1
        objects := Function.update state.objects (.shm, name) (some ⟨state.calls, data⟩)
        spills := Function.update state.spills (pid thread) (state.spills (pid thread) + 1) } thread
          (.put ⟨state.calls, data, .nonblocking, false, true, some (spillRecord .shm name data.length), none⟩)) := by
    simp only [moveStep, Ring.spill, State.goto, hname, hfresh, Function.update_idem, Function.update_self,
      Nat.not_le.mpr hspills, Option.isNone_none, Option.isSome_none, Bool.and_self, Bool.or_self,
      decide_false, Bool.false_eq_true, if_true, if_false]
  have hput := Machine.runFrom_step (step_act (h.alive _) hbegin) (Machine.runFrom_step (step_act (h.alive _) hspill)
    (run_publish (h.alive _) (lockable_of_none h.lock) (goto_phase _ _ _) rfl rfl hslot hroom))
  simp only [State.goto, update_idle h.idle] at hput
  rw [← h.lock] at hput
  refine ⟨h.run hput ?_, h.lock, h.idle, h.alive⟩
  simp only [List.mem_cons, forall_eq_or_imp]
  exact ⟨⟨_, _, rfl⟩, ⟨_, _, rfl⟩, publishMoves_acts _ _⟩

/-- What a get leaves of the state it found. -/
structure Got (state next : State) (thread : ℕ) (entry : PutEntry) (record : Record) : Prop where
  oldest : state.puts[state.pops.length]? = some entry
  carries : Carries state.objects entry record
  puts : next.puts = state.puts
  pops : next.pops = state.pops ++ [thread]
  returned : next.returned = state.returned ++ [⟨state.pops.length, thread, entry.payload⟩]
  objects : next.objects = discard state.objects (some record)
  spills : next.spills = state.spills
  head : state.shared.head + record.size ≤ next.shared.head
  tail : next.shared.tail = state.shared.tail
  count : next.shared.count = state.shared.count - 1

/-- A get in a ring that is not empty. -/
theorem Rests.get (h : Rests queue pid state) (hspill : queue.spillAt < 2 ^ 32) (thread : ℕ)
    (hunread : state.pops.length < state.puts.length) :
    ∃ next entry record, Rests queue pid next ∧ Got state next thread entry record := by
  have hinv := h.inv hspill
  obtain ⟨records, hchain, hmatch⟩ := hinv.ring.chain
  have hne : state.shared.head ≠ state.shared.tail := by
    intro hempty
    rw [hempty] at hchain
    obtain rfl := hchain.eq_nil
    have hlength := hmatch.length_eq
    simp only [List.length_drop, List.length_nil] at hlength
    omega
  obtain ⟨record, head, records', rfl, hfirst, -⟩ := hchain.uncons hne
  obtain ⟨entry, rest, hcarries, -, hrest⟩ := List.forall₂_cons_right_iff.mp hmatch
  have hentry : state.puts[state.pops.length]? = some entry := by
    have hhead := congrArg (fun entries ↦ entries[0]?) hrest
    simpa [List.getElem?_drop] using hhead
  have hread := materialize_carries hcarries (hinv.puts_length entry (List.mem_of_getElem? hentry))
  have hnext := hfirst.nextRecord
  have hrun : (machine queue pid).runFrom state [.act thread (.getBegin ⟨1, false, .nonblocking⟩),
      .act thread .acquire, .act thread (.getCheck true), .act thread .pop, .act thread .storeCount,
      .act thread .pop, .act thread .finishPops, .act thread .materialize] = some { state with
        shared := { state.shared with head := head, count := state.shared.count - 1 }
        pops := state.pops ++ [thread]
        objects := discard state.objects (some record)
        returned := state.returned ++ [⟨state.pops.length, thread, entry.payload⟩] } := by
    simp [machine, step, moveStep, lockable, popNext, materializeNext, State.goto, h.idle, h.alive, h.lock, hne, hnext, hread]
  refine ⟨_, entry, record, ⟨h.run hrun ?_, h.lock, h.idle, h.alive⟩, hentry, hcarries, rfl, rfl, rfl, rfl, rfl,
    hfirst.size_le, rfl, rfl⟩
  simp

end GpuPipe.Ring
