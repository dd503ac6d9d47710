import GpuPipe.Ring.Refinement

/-!
# Capacity of the ring

Without deaths the stored item count is the number of unread items whenever nobody
holds the lock. A non-blocking put that finds a free slot is accepted when its payload
fits the ring, or else when its spill record does; a ring full of small records leaves
no room for even a spill record, and then a put with a free slot is refused.
-/

namespace GpuPipe.Ring

variable {queue : RingQueue} {pid : ℕ → UInt32} {state next : State} {thread : ℕ} {phase : Phase}

/-! ## The stored count -/

/-- Payloads published and not popped. -/
def State.unread (state : State) : ℕ := state.puts.length - state.pops.length

/-- How far the stored count may be off while its holder is between two stores. -/
def CountAt (shared : Shared) (unread : ℕ) : Phase → Prop
  | .counting _ => shared.count + 1 = unread
  | .popCount _ _ => shared.count = unread + 1
  | .resyncing _ _ => shared.count = unread ∧ unread = 0
  | _ => shared.count = unread

structure CountOk (state : State) : Prop where
  free : state.lock = none → state.shared.count = state.unread
  held : ∀ holder, state.lock = some holder →
    (state.phase holder).locked = true ∧ CountAt state.shared state.unread (state.phase holder)
  alive : ∀ process, state.dead process = false

/-- A thread outside the lock moves. -/
theorem CountOk.outside (h : CountOk state) (hcount : next.shared.count = state.shared.count)
    (hunread : next.unread = state.unread) (hlock : next.lock = state.lock)
    (hdead : next.dead = state.dead) (hphase : next.phase = Function.update state.phase thread phase)
    (hthread : (state.phase thread).locked = false) : CountOk next where
  free hfree := by
    rw [hcount, hunread]
    exact h.free (hlock ▸ hfree)
  held holder hholder := by
    obtain ⟨hlocked, hat⟩ := h.held holder (hlock ▸ hholder)
    have hne : holder ≠ thread := by
      rintro rfl
      rw [hthread] at hlocked
      cases hlocked
    rw [hphase, Function.update_of_ne hne, hunread]
    refine ⟨hlocked, ?_⟩
    revert hat
    cases state.phase holder <;> simp [CountAt, hcount]
  alive := hdead ▸ h.alive

/-- The holder moves, and keeps the lock exactly while its phase is a locked one. -/
theorem CountOk.inside (h : CountOk state)
    (hphase : next.phase = Function.update state.phase thread phase)
    (hlock : next.lock = if phase.locked then some thread else none) (hdead : next.dead = state.dead)
    (hat : CountAt next.shared next.unread phase) : CountOk next where
  free hfree := by
    rw [hlock] at hfree
    cases phase <;> first | exact hat | simp [Phase.locked] at hfree
  held holder hholder := by
    rw [hlock] at hholder
    split at hholder
    · cases hholder
      rw [hphase, Function.update_self]
      exact ⟨‹_›, hat⟩
    · cases hholder
  alive := hdead ▸ h.alive

theorem CountOk.lock_none (h : CountOk state) (hlockable : lockable pid state = true) :
    state.lock = none := by
  unfold lockable at hlockable
  split at hlockable
  · assumption
  · rw [h.alive] at hlockable
    cases hlockable

/-- The holder's own count, read off its phase. -/
theorem CountOk.at (h : CountOk state) (hinv : Inv queue pid state)
    (hlocked : (state.phase thread).locked = true) :
    CountAt state.shared state.unread (state.phase thread) :=
  (h.held thread ((hinv.threads thread).locked (h.alive _) hlocked)).2

theorem Inv.unread_zero (h : Inv queue pid state) (hempty : state.shared.head = state.shared.tail) :
    state.unread = 0 := by
  obtain ⟨records, hchain, hcarries⟩ := h.ring.chain
  rw [hempty] at hchain
  obtain rfl := hchain.eq_nil
  have hlength := hcarries.length_eq
  rwa [List.length_drop] at hlength

theorem Inv.unread_pos (h : Inv queue pid state) (hne : state.shared.head ≠ state.shared.tail) :
    state.pops.length < state.puts.length := by
  obtain ⟨entry, rest, hunread, _⟩ := h.ring.pop hne
  have hlength := congrArg List.length hunread
  rw [List.length_drop, List.length_cons] at hlength
  omega

@[simp] theorem clearPending_count (shared : Shared) (slot : Option ℕ) :
    (clearPending shared slot).count = shared.count := by cases slot <;> rfl

theorem notePending_count (shared : Shared) (name : Bytes) :
    (notePending shared name).2.count = shared.count := by
  unfold notePending
  split
  · rfl
  · split <;> rfl

theorem CountOk.spill (h : CountOk state) {put : PutCall} (hput : state.phase thread = .put put)
    {result : SpillResult} (hnext : spill queue pid state thread put result = some next) :
    CountOk next := by
  have hthread : (state.phase thread).locked = false := by rw [hput]; rfl
  have hframe := spill_frame hnext
  have hcount : next.shared.count = state.shared.count := by rw [hframe.shared]
  have hunread : next.unread = state.unread := by rw [State.unread, State.unread, hframe.puts, hframe.pops]
  rcases hframe.phase with hphase | ⟨put', hphase⟩
  · exact h.outside hcount hunread hframe.lock hframe.dead hphase hthread
  · exact h.outside hcount hunread hframe.lock hframe.dead hphase hthread

theorem CountOk.putDecide (h : CountOk state) (hcount : state.shared.count = state.unread)
    (hlock : state.lock = some thread) (put : PutCall) (clock : Bool) :
    CountOk (putDecide queue state thread put clock) := by
  unfold Ring.putDecide
  dsimp only
  split
  · exact h.inside rfl hlock rfl hcount
  · split
    · exact h.inside rfl rfl rfl hcount
    · split
      · exact h.inside rfl rfl rfl ((clearPending_count _ _).trans hcount)
      · split
        · split
          · exact h.inside rfl rfl rfl ((notePending_count _ _).trans hcount)
          · exact h.inside rfl rfl rfl hcount
        · exact h.inside rfl rfl rfl hcount

/-- No move takes the stored count further off than the two stores of a put or a pop allow. -/
theorem CountOk.moveStep (h : CountOk state) (hinv : Inv queue pid state) {move : Move}
    (hnext : moveStep queue pid state thread move = some next) : CountOk next := by
  have hmine (hlocked : (state.phase thread).locked = true) : state.lock = some thread :=
    (hinv.threads thread).locked (h.alive _) hlocked
  have hat (hlocked : (state.phase thread).locked = true) := h.at hinv hlocked
  have hle := hinv.pops_le
  cases moveStep_cases hnext with
  | putBegin _ _ _ hphase | interrupted _ hphase | wake _ hphase | getBegin _ hphase =>
    exact h.outside rfl rfl rfl rfl rfl (by rw [hphase]; rfl)
  | spill put result hphase hmust hunspilled hspill => exact h.spill hphase hspill
  | acquirePut put hphase hready hlockable => exact h.inside rfl rfl rfl (h.free (h.lock_none hlockable))
  | acquireGet get hphase hlockable => exact h.inside rfl rfl rfl (h.free (h.lock_none hlockable))
  | putDecide put clock hphase =>
    rw [hphase] at hat hmine
    exact h.putDecide (hat rfl) (hmine rfl) put clock
  | storeTail put record hphase =>
    rw [hphase] at hat hmine
    refine h.inside rfl (hmine rfl) rfl ?_
    have hcount := hat rfl
    simp only [CountAt, State.unread, State.goto, List.length_append, List.length_singleton] at hcount ⊢
    omega
  | store _ _ _ _ _ hphase | addCount _ hphase | getItems _ _ hphase | popEnough _ _ hphase =>
    rw [hphase] at hat hmine
    exact h.inside rfl (hmine rfl) rfl (hat rfl)
  | putDone put hphase =>
    rw [hphase] at hat
    exact h.inside rfl rfl rfl ((clearPending_count _ _).trans (hat rfl))
  | putAbort put hphase hlockable =>
    exact h.inside rfl rfl rfl ((clearPending_count _ _).trans (h.free (h.lock_none hlockable)))
  | getExpired _ _ hphase | getAgain _ _ hphase | finishRead _ _ _ hphase | finishMany _ hphase
    | finishAgain _ hphase =>
    rw [hphase] at hat
    exact h.inside rfl rfl rfl (hat rfl)
  | popEmpty get got hphase hempty =>
    rw [hphase] at hat hmine
    exact h.inside rfl (hmine rfl) rfl ⟨hat rfl, hinv.unread_zero hempty⟩
  | pop get got hphase hne =>
    rw [hphase] at hat hmine
    have hcount : state.shared.count = state.unread := hat rfl
    have hpos := hinv.unread_pos hne
    refine h.inside rfl (hmine rfl) rfl ?_
    simp only [CountAt, State.unread, State.goto, List.length_append, List.length_singleton] at hcount ⊢
    omega
  | storeCount get got hphase =>
    rw [hphase] at hat hmine
    refine h.inside rfl (hmine rfl) rfl ?_
    have hcount := hat rfl
    simp only [CountAt, State.unread, State.goto] at hcount ⊢
    omega
  | resync get got hphase =>
    rw [hphase] at hat hmine
    exact h.inside rfl (hmine rfl) rfl (hat rfl).2.symm
  | materialize popped rest hphase =>
    have hthread : (state.phase thread).locked = false := by rw [hphase]; rfl
    unfold materializeNext
    split
    · exact h.outside rfl rfl rfl rfl rfl hthread
    · exact h.outside rfl rfl rfl rfl rfl hthread

/-- No deaths, and in-ring payloads whose length fits the header. -/
def calm (queue : Header) (state : State) (action : Action) : Bool :=
  noDeath state action && ridesWhole queue state action

/-- While nobody dies, the count is right whenever the lock is free. -/
theorem countOk_of_reachable (h : ((machine queue pid).restrict (calm queue)).Reachable state) :
    Inv queue pid state ∧ CountOk state := by
  refine h.invariant (fun state ↦ Inv queue pid state ∧ CountOk state) ⟨inv_start, ?_⟩ ?_
  · exact ⟨fun _ ↦ rfl, (by intros; contradiction), fun _ ↦ rfl⟩
  · rintro state action next ⟨hinv, hcount⟩ hstep
    obtain ⟨hcalm, hnext⟩ := Machine.restrict_step hstep
    simp only [calm, Bool.and_eq_true] at hcalm
    refine ⟨hinv.step hcalm.2 hnext, ?_⟩
    cases action with
    | act thread move =>
      simp only [machine, step, Option.ite_none_left_eq_some] at hnext
      exact hcount.moveStep hinv hnext.2
    | die process => cases hcalm.1

/-! ## A non-blocking put that nobody interrupts -/

/-- The name the next spill of this thread's process gets. -/
def nextName (queue : Header) (pid : ℕ → UInt32) (state : State) (thread : ℕ) : Medium → Bytes
  | .shm => Sys.spillObjectName queue.name (pid thread).toNat (state.spills (pid thread))
  | .disk => Sys.fileSpillName (pid thread).toNat (state.fileSpills (pid thread))

/-- The record that carries `data` through a spill object. -/
def spillFor (queue : Header) (pid : ℕ → UInt32) (state : State) (thread : ℕ) (medium : Medium)
    (data : Bytes) : Record := spillRecord medium (nextName queue pid state thread medium) data.length

/-- The medium takes a spill of this put. -/
def canSpill (queue : Header) (pid : ℕ → UInt32) (state : State) (thread : ℕ) (disk : Bool) :
    Medium → Bool
  | .shm => !disk && (state.objects (.shm, nextName queue pid state thread .shm)).isNone &&
      state.spills (pid thread) < 2 ^ 64
  | .disk => state.fileSpills (pid thread) < 2 ^ 64

def Medium.result : Medium → SpillResult
  | .shm => .shm
  | .disk => .file

/-- The thread's own moves inside `put`, when a spill goes to this medium. -/
def ownAction (thread : ℕ) (medium : Medium) : Action → Bool
  | .act other move => other == thread && match move with
    | .spill result => result == medium.result
    | .acquire | .putDecide _ | .store | .storeTail | .addCount | .putDone => true
    | _ => false
  | .die _ => false

/-- What the put of `data` will answer. -/
def accepts (queue : Header) (shared : Shared) (data : Bytes) (spilled : Record) : Bool :=
  hasSlot queue shared && (data.length ≤ queue.spillAt && hasRoom queue shared ⟨kindData, data⟩ ||
    hasRoom queue shared spilled)

section Alone

variable (queue pid) (before : State) (thread) (medium : Medium) (data : Bytes)

/-- The local variables of the put while it has not been answered. -/
structure Trying (state : State) (put : PutCall) : Prop where
  call : put.call = before.calls
  same_data : put.data = data
  deadline : put.deadline = .nonblocking
  shared : state.shared = before.shared
  putReturns : state.putReturns = before.putReturns
  counters : put.spilled = none → state.spills = before.spills ∧ state.fileSpills = before.fileSpills
  stage : put.spilled = none ∧ put.mustSpill = false ∧ data.length ≤ queue.spillAt ∨
    put.mustSpill = true ∧ (data.length ≤ queue.spillAt && hasRoom queue before.shared ⟨kindData, data⟩) = false ∧
      ∀ record, put.spilled = some record → record = spillFor queue pid before thread medium data

/-- Where the put stands, in terms of the state before it. -/
def Alone (state : State) : Prop :=
  match state.phase thread with
  | .put put => Trying queue pid thread before medium data state put
  | .putLocked put => Trying queue pid thread before medium data state put ∧
      (put.mustSpill && put.spilled.isNone) = false
  | .storing put _ _ | .counting put | .putRelease put => put.call = before.calls ∧
      state.putReturns = before.putReturns ∧
        accepts queue before.shared data (spillFor queue pid before thread medium data) = true
  | .idle => state.putReturns = before.putReturns ++
      [(before.calls, accepts queue before.shared data (spillFor queue pid before thread medium data))]
  | _ => False

end Alone

variable {before : State} {medium : Medium} {data : Bytes}

theorem Trying.decide {put : PutCall} (h : Trying queue pid thread before medium data state put)
    (hready : (put.mustSpill && put.spilled.isNone) = false) (clock : Bool) :
    Alone queue pid thread before medium data (putDecide queue state thread put clock) := by
  obtain ⟨hcall, hdata, hdeadline, hshared, hreturns, hcounters, hstage⟩ := h
  have hexpired : put.deadline.expired clock = true := by rw [hdeadline]; rfl
  unfold putDecide
  dsimp only
  rw [hshared, hexpired]
  rcases hstage with ⟨hnone, hmust, hle⟩ | ⟨hmust, hnofit, hspilled⟩
  · have hrecord : put.record = ⟨kindData, data⟩ := by simp [PutCall.record, hnone, hdata]
    rw [hrecord]
    split
    · rename_i hroom
      rw [Bool.and_eq_true] at hroom
      simp only [Alone, goto_phase]
      exact ⟨hcall, hreturns, by simp [accepts, hroom.1, hroom.2, hle]⟩
    · rename_i hroom
      split
      · rename_i hslot
        simp only [Alone, goto_phase]
        refine ⟨hcall, hdata, hdeadline, rfl, hreturns, hcounters, .inr ⟨rfl, ?_, ?_⟩⟩
        · simp only [beq_self_eq_true, Bool.and_true] at hslot
          simp only [hslot, Bool.true_and, Bool.not_eq_true] at hroom
          simp [hroom]
        · simp [hnone]
      · rename_i hslot
        simp only [beq_self_eq_true, Bool.and_true, Bool.not_eq_true] at hslot
        simp only [if_true, Alone, goto_phase]
        simp [State.goto, hreturns, hcall, accepts, hslot]
  · have hsome : put.spilled ≠ none := by
      intro hnone
      simp [hmust, hnone] at hready
    obtain ⟨record, hrecord⟩ := Option.ne_none_iff_exists'.mp hsome
    have heq := hspilled record hrecord
    have hkind : (put.record.kind == kindData) = false := by
      simp only [PutCall.record, hrecord, Option.getD_some, heq, spillFor, spillRecord]
      cases medium <;> decide
    have hput : put.record = spillFor queue pid before thread medium data := by
      simp [PutCall.record, hrecord, heq]
    rw [hkind, hput]
    split
    · rename_i hroom
      rw [Bool.and_eq_true] at hroom
      simp only [Alone, goto_phase]
      exact ⟨hcall, hreturns, by simp [accepts, hroom.1, hroom.2]⟩
    · rename_i hroom
      simp only [Bool.and_false, Bool.false_eq_true, if_false, if_true, Alone, goto_phase]
      rw [Bool.not_eq_true] at hroom
      have haccepts : accepts queue before.shared data (spillFor queue pid before thread medium data) =
          false := by
        rw [accepts, hnofit, Bool.false_or, hroom]
      simp [State.goto, hreturns, hcall, haccepts]

theorem Trying.spill {put : PutCall} (h : Trying queue pid thread before medium data state put)
    (hmust : put.mustSpill = true) (hnone : put.spilled = none)
    (hnext : spill queue pid state thread put medium.result = some next) :
    Alone queue pid thread before medium data next := by
  obtain ⟨hcall, hdata, hdeadline, hshared, hreturns, hcounters, hstage⟩ := h
  obtain ⟨hspills, hfiles⟩ := hcounters hnone
  have hnofit : (data.length ≤ queue.spillAt && hasRoom queue before.shared ⟨kindData, data⟩) = false := by
    rcases hstage with ⟨_, hfalse, _⟩ | ⟨_, hnofit, _⟩
    · rw [hmust] at hfalse
      cases hfalse
    · exact hnofit
  cases medium with
  | shm =>
    simp only [Medium.result, Ring.spill, Option.ite_none_left_eq_some, Option.some.injEq] at hnext
    obtain ⟨_, rfl⟩ := hnext
    simp only [Alone, goto_phase]
    refine ⟨hcall, hdata, hdeadline, hshared, hreturns, (by intros; contradiction), .inr ⟨hmust, hnofit, ?_⟩⟩
    rintro record ⟨⟩
    rw [spillFor, nextName, hspills, hdata]
  | disk =>
    simp only [Medium.result, Ring.spill, Option.ite_none_left_eq_some, Option.some.injEq] at hnext
    obtain ⟨_, rfl⟩ := hnext
    simp only [Alone, goto_phase]
    refine ⟨hcall, hdata, hdeadline, hshared, hreturns, (by intros; contradiction), .inr ⟨hmust, hnofit, ?_⟩⟩
    rintro record ⟨⟩
    rw [spillFor, nextName, hfiles, hdata]

/-- Each of the put's own moves keeps the account of it. -/
theorem Alone.step {action : Action} (h : Alone queue pid thread before medium data state)
    (hown : ownAction thread medium action = true)
    (hnext : (machine queue pid).step state action = some next) :
    Alone queue pid thread before medium data next := by
  cases action with
  | die => cases hown
  | act other move =>
    simp only [ownAction, Bool.and_eq_true, beq_iff_eq] at hown
    obtain ⟨rfl, hmove⟩ := hown
    simp only [machine, Ring.step, Option.ite_none_left_eq_some] at hnext
    cases moveStep_cases hnext.2 with
    | spill put result hphase hmust hunspilled hspill =>
      simp only [Alone, hphase] at h
      obtain rfl : result = medium.result := by simpa using hmove
      exact h.spill hmust hunspilled hspill
    | acquirePut put hphase hready hlockable =>
      simp only [Alone, hphase] at h
      simp only [Alone, goto_phase]
      exact ⟨⟨h.call, h.same_data, h.deadline, h.shared, h.putReturns, h.counters, h.stage⟩, hready⟩
    | acquireGet get hphase => simp only [Alone, hphase] at h
    | putDecide put clock hphase =>
      simp only [Alone, hphase] at h
      exact h.1.decide h.2 clock
    | store _ _ _ _ _ hphase | storeTail _ _ hphase | addCount _ hphase =>
      simp only [Alone, hphase] at h
      simp only [Alone, goto_phase]
      exact h
    | putDone put hphase =>
      simp only [Alone, hphase] at h
      obtain ⟨hcall, hreturns, haccepts⟩ := h
      simp [Alone, State.goto, hcall, hreturns, haccepts]
    | _ => cases hmove

/-- The call's own moves, one after another, lead through the places that `Alone` describes. -/
theorem Alone.run {actions : List Action} (h : Alone queue pid thread before medium data state)
    (hown : ∀ action ∈ actions, ownAction thread medium action = true)
    (hrun : (machine queue pid).runFrom state actions = some next) :
    Alone queue pid thread before medium data next := by
  induction actions generalizing state with
  | nil =>
    cases hrun
    exact h
  | cons action rest ih =>
    rw [Machine.runFrom_cons, Option.bind_eq_some_iff] at hrun
    obtain ⟨middle, hmiddle, hrest⟩ := hrun
    exact ih (h.step (hown action List.mem_cons_self) hmiddle)
      (fun other hother ↦ hown other (List.mem_cons_of_mem _ hother)) hrest

/-- The state in which the put starts its loop. -/
theorem alone_begin (disk : Bool)
    (hbegin : (machine queue pid).step before (.act thread (.putBegin data .nonblocking disk)) = some state) :
    Alone queue pid thread before medium data state := by
  simp only [machine, step, Option.ite_none_left_eq_some] at hbegin
  cases moveStep_cases hbegin.2
  simp only [Alone, goto_phase]
  refine ⟨rfl, rfl, rfl, rfl, rfl, fun _ ↦ ⟨rfl, rfl⟩, ?_⟩
  rcases Nat.lt_or_ge queue.spillAt data.length with hlt | hge
  · refine .inr ⟨decide_eq_true hlt, ?_, (by intros; contradiction)⟩
    rw [decide_eq_false (Nat.not_le.mpr hlt), Bool.false_and]
  · exact .inl ⟨rfl, decide_eq_false (Nat.not_lt.mpr hge), hge⟩

/-- The thread's own moves lead from this state to the end of its call. -/
def Ends (queue : Header) (pid : ℕ → UInt32) (thread : ℕ) (medium : Medium) (state : State) : Prop :=
  ∃ actions next, (∀ action ∈ actions, ownAction thread medium action = true) ∧
    (machine queue pid).runFrom state actions = some next ∧ next.phase thread = .idle

theorem Ends.cons {action : Action} (hown : ownAction thread medium action = true)
    (hstep : (machine queue pid).step state action = some next)
    (h : Ends queue pid thread medium next) : Ends queue pid thread medium state := by
  obtain ⟨actions, last, hactions, hrun, hidle⟩ := h
  refine ⟨action :: actions, last, ?_, Machine.runFrom_step hstep hrun, hidle⟩
  simpa using ⟨hown, hactions⟩

theorem publishMoves_own (shared : Shared) (record : Record) :
    ∀ action ∈ publishMoves queue shared record thread, ownAction thread medium action = true := by
  intro action haction
  simp only [publishMoves, List.mem_cons, List.mem_append, List.mem_replicate, List.not_mem_nil,
    or_false] at haction
  rcases haction with rfl | rfl | ⟨_, rfl⟩ | rfl | rfl | rfl <;> simp [ownAction]

/-- One attempt of a non-blocking put ends the call, or asks for a spill. -/
theorem ends_of_attempt {put : PutCall} (halive : state.dead (pid thread) = false)
    (hlock : state.lock = none) (hphase : state.phase thread = .put put)
    (hready : (put.mustSpill && put.spilled.isNone) = false) (hpending : put.pending = none)
    (hdeadline : put.deadline = .nonblocking)
    (hretry : put.record.kind = kindData → Ends queue pid thread medium
      (state.goto thread (.put { put with mustSpill := true }))) :
    Ends queue pid thread medium state := by
  cases hroom : hasSlot queue state.shared && hasRoom queue state.shared put.record with
  | true =>
    rw [Bool.and_eq_true] at hroom
    have hrun := run_publish halive (lockable_of_none hlock) hphase hready hpending hroom.1 hroom.2
    exact ⟨_, _, publishMoves_own _ _, hrun, goto_phase _ _ _⟩
  | false =>
    have hacquire : moveStep queue pid state thread .acquire =
        some (State.goto { state with lock := some thread } thread (.putLocked put)) := by
      simp [moveStep, hphase, hready, lockable, hlock]
    refine .cons (by simp [ownAction]) (step_act halive hacquire) ?_
    have hdecide : moveStep queue pid (State.goto { state with lock := some thread } thread
        (.putLocked put)) thread (.putDecide true) = some (putDecide queue (State.goto { state with
          lock := some thread } thread (.putLocked put)) thread put true) :=
      moveStep_putDecide (goto_phase _ _ _) true
    refine .cons (by simp [ownAction]) (step_act halive hdecide) ?_
    have hroom' : (hasSlot queue (State.goto { state with lock := some thread } thread
        (.putLocked put)).shared && hasRoom queue (State.goto { state with lock := some thread } thread
          (.putLocked put)).shared put.record) = false := hroom
    simp only [putDecide, hroom', hdeadline, Deadline.expired, Bool.false_eq_true, if_false, if_true]
    split
    · rename_i hslot
      rw [Bool.and_eq_true, beq_iff_eq] at hslot
      have hstate : State.goto { State.goto { state with lock := some thread } thread (.putLocked put) with
          lock := none } thread (.put { put with mustSpill := true }) =
          state.goto thread (.put { put with mustSpill := true }) := by
        simp [State.goto, hlock]
      rw [hdeadline] at hretry hstate
      rw [hstate]
      exact hretry hslot.2
    · exact ⟨[], _, by simp, rfl, goto_phase _ _ _⟩

/-- An available medium takes the spill, and the put goes on with its spill record. -/
theorem spill_available {put : PutCall} (havailable : canSpill queue pid state thread put.disk medium = true) :
    ∃ next record, spill queue pid state thread put medium.result = some next ∧
      next.dead = state.dead ∧ next.lock = state.lock ∧ record.kind ≠ kindData ∧
        next.phase thread = .put { put with spilled := some record } := by
  cases medium with
  | shm =>
    simp only [canSpill, nextName, Bool.and_eq_true, Bool.not_eq_true', Option.isNone_iff_eq_none,
      decide_eq_true_eq] at havailable
    obtain ⟨⟨hdisk, hfresh⟩, hcounter⟩ := havailable
    simp only [Medium.result, spill, hdisk, hfresh, Option.isSome_none, Bool.or_self, Bool.false_or,
      decide_eq_true_eq, Nat.not_le.mpr hcounter, if_false]
    refine ⟨_, spillRecord .shm _ put.data.length, rfl, rfl, rfl, ?_, goto_phase _ _ _⟩
    simp [spillRecord, Medium.kind, kindSpill, kindData]
  | disk =>
    simp only [canSpill, decide_eq_true_eq] at havailable
    simp only [Medium.result, spill, Nat.not_le.mpr havailable, if_false]
    refine ⟨_, spillRecord .disk _ put.data.length, rfl, rfl, rfl, ?_, goto_phase _ _ _⟩
    simp [spillRecord, Medium.kind, kindFile, kindData]

/-- A put that must spill does so, tries its spill record and ends. -/
theorem ends_of_mustSpill {put : PutCall} (halive : state.dead (pid thread) = false)
    (hlock : state.lock = none) (hphase : state.phase thread = .put put) (hmust : put.mustSpill = true)
    (hnone : put.spilled = none) (hpending : put.pending = none) (hdeadline : put.deadline = .nonblocking)
    (havailable : canSpill queue pid state thread put.disk medium = true) :
    Ends queue pid thread medium state := by
  obtain ⟨next, record, hspill, hdead, hlock', hkind, hphase'⟩ := spill_available havailable
  have hmove : moveStep queue pid state thread (.spill medium.result) = some next := by
    simp only [moveStep, hphase, hmust, hnone, Option.isNone_none, Bool.and_self, if_true]
    exact hspill
  refine .cons (by simp [ownAction]) (step_act halive hmove) ?_
  refine ends_of_attempt (hdead ▸ halive) (hlock'.trans hlock) hphase' ?_ hpending hdeadline ?_
  · simp
  · exact fun hdata ↦ absurd hdata hkind

/-- A non-blocking put that nobody interrupts comes to an end. -/
theorem ends_of_begin (halive : state.dead (pid thread) = false) (hlock : state.lock = none)
    (data : Bytes) (disk : Bool) (havailable : canSpill queue pid state thread disk medium = true) :
    Ends queue pid thread medium (State.goto { state with calls := state.calls + 1 } thread
      (.put ⟨state.calls, data, .nonblocking, disk, queue.spillAt < data.length, none, none⟩)) := by
  cases hmust : decide (queue.spillAt < data.length) with
  | true => exact ends_of_mustSpill halive hlock (goto_phase _ _ _) rfl rfl rfl rfl havailable
  | false =>
    refine ends_of_attempt halive hlock (goto_phase _ _ _) rfl rfl rfl fun _ ↦ ?_
    exact ends_of_mustSpill halive hlock (goto_phase _ _ _) rfl rfl rfl rfl havailable

/-! ## When the answer is the item count -/

section Answer

variable (queue : Header) (pid : ℕ → UInt32) (state : State) (thread : ℕ) (data : Bytes) (disk : Bool)
  (medium : Medium)

def PutRun (actions : List Action) (next : State) : Prop :=
  (∀ action ∈ actions, ownAction thread medium action = true) ∧
    (machine queue pid).runFrom state (.act thread (.putBegin data .nonblocking disk) :: actions) =
      some next ∧ next.phase thread = .idle

/-- The call ends, and its answer is whether the queue is unbounded or below `maxsize`. -/
def AnswersByMaxsize : Prop :=
  (∃ actions next, PutRun queue pid state thread data disk medium actions next) ∧
    ∀ actions next, PutRun queue pid state thread data disk medium actions next →
      next.putReturns = state.putReturns ++
        [(state.calls, decide (queue.maxsize = 0 ∨ state.unread < queue.maxsize))]

end Answer

/-- A whole put answers what `accepts` says of the state it began in. -/
theorem PutRun.answer {disk : Bool} {actions : List Action}
    (h : PutRun queue pid state thread data disk medium actions next) :
    next.putReturns = state.putReturns ++ [(state.calls,
      accepts queue state.shared data (spillFor queue pid state thread medium data))] := by
  obtain ⟨hown, hrun, hidle⟩ := h
  rw [Machine.runFrom_cons, Option.bind_eq_some_iff] at hrun
  obtain ⟨middle, hbegin, hrest⟩ := hrun
  have halone := (alone_begin disk hbegin).run hown hrest
  simpa only [Alone, hidle] using halone

/-- A put that finds the lock free comes to its end by its own moves. -/
theorem putRun_exists {disk : Bool} (halive : state.dead (pid thread) = false) (hlock : state.lock = none)
    (hidle : state.phase thread = .idle) (hlength : data.length < 2 ^ 63)
    (havailable : canSpill queue pid state thread disk medium = true) :
    ∃ actions next, PutRun queue pid state thread data disk medium actions next := by
  obtain ⟨actions, next, hown, hrun, hend⟩ := ends_of_begin halive hlock data disk havailable
  refine ⟨actions, next, hown, Machine.runFrom_step (step_act halive ?_) hrun, hend⟩
  simp only [moveStep, hidle, hlength, if_true]

/-- While nobody dies, a put without a wait answers by `maxsize` if the queue is at it, or the ring has room for the
payload or for its spill record, and in no other case. -/
theorem answersByMaxsize_iff (h : ((machine queue pid).restrict (calm queue)).Reachable state)
    (hlock : state.lock = none) (hidle : state.phase thread = .idle) (hlength : data.length < 2 ^ 63)
    {disk : Bool} (havailable : canSpill queue pid state thread disk medium = true) :
    AnswersByMaxsize queue pid state thread data disk medium ↔
      (queue.maxsize ≠ 0 ∧ queue.maxsize ≤ state.unread) ∨
        (data.length ≤ queue.spillAt ∧ hasRoom queue state.shared ⟨kindData, data⟩ = true) ∨
          hasRoom queue state.shared (spillFor queue pid state thread medium data) = true := by
  obtain ⟨-, hcount⟩ := countOk_of_reachable h
  have hslot : hasSlot queue state.shared = true ↔ queue.maxsize = 0 ∨ state.unread < queue.maxsize := by
    rw [hasSlot, hcount.free hlock]
    simp
  obtain ⟨actions, next, hrun⟩ := putRun_exists (hcount.alive _) hlock hidle hlength havailable
  have hanswer : AnswersByMaxsize queue pid state thread data disk medium ↔
      (accepts queue state.shared data (spillFor queue pid state thread medium data) = true ↔
        hasSlot queue state.shared = true) := by
    rw [hslot]
    constructor
    · rintro ⟨_, hall⟩
      have heq := (hrun.answer).symm.trans (hall actions next hrun)
      simp only [List.append_cancel_left_eq, List.cons.injEq, Prod.mk.injEq, true_and, and_true] at heq
      rw [heq, decide_eq_true_eq]
    · intro hiff
      refine ⟨⟨actions, next, hrun⟩, fun actions next hrun ↦ ?_⟩
      rw [hrun.answer]
      congr 3
      exact Bool.eq_iff_iff.mpr (hiff.trans (decide_eq_true_iff).symm)
  have hfull : ¬hasSlot queue state.shared = true ↔ queue.maxsize ≠ 0 ∧ queue.maxsize ≤ state.unread := by
    rw [hslot]
    omega
  rw [hanswer, ← hfull]
  simp only [accepts, Bool.and_eq_true, Bool.or_eq_true, decide_eq_true_eq]
  rw [and_iff_left_iff_imp, imp_iff_not_or]

/-- In every ring that lies in its map, in every state between operations and for every payload: the answer
is the item count's exactly if the queue is full, or the payload fits the ring, or its spill record does. -/
theorem put_nowait_by_maxsize_iff (maxsize ringBytes : ℕ) (spillAt : Option ℕ) (creator : Sys.Creator)
    (hmap : hdr + align8 (max ringBytes (64 * 1024)) < 2 ^ 64) {queue : Header}
    (hqueue : queue = RingQueue.new maxsize ringBytes spillAt creator) (pid : ℕ → UInt32) (state : State)
    (h : ((machine queue pid).restrict (calm queue)).Reachable state) (hlock : state.lock = none)
    (thread : ℕ) (hidle : state.phase thread = .idle) (data : Bytes) (hlength : data.length < 2 ^ 63)
    (disk : Bool) (medium : Medium) (havailable : canSpill queue pid state thread disk medium = true) :
    AnswersByMaxsize queue pid state thread data disk medium ↔
      (queue.maxsize ≠ 0 ∧ queue.maxsize ≤ state.unread) ∨
        (data.length ≤ queue.spillAt ∧ hasRoom queue state.shared ⟨kindData, data⟩ = true) ∨
          hasRoom queue state.shared (spillFor queue pid state thread medium data) = true := by
  subst hqueue
  exact @answersByMaxsize_iff (.ofNew maxsize ringBytes spillAt creator hmap) _ _ _ _ _ h hlock hidle hlength _
    havailable

/-- One byte into an empty queue of four. -/
theorem put_nowait_by_maxsize_empty : AnswersByMaxsize smallQueue (fun _ ↦ 0) .start 0 [7] false .disk :=
  (put_nowait_by_maxsize_iff 4 65536 none someCreator (by decide) rfl (fun _ ↦ 0) .start .refl rfl 0 rfl [7]
    (by decide) false .disk (by decide)).mpr (.inr (.inl (by decide)))

/-- Where rounding up takes the size of the ring to zero, a put panics and answers nothing. -/
theorem not_answersByMaxsize_of_cap {queue : Header} (hcap : queue.cap = 0) (halive : state.dead (pid thread) = false)
    (hlock : state.lock = none) (hidle : state.phase thread = .idle) {disk : Bool} :
    ¬AnswersByMaxsize queue pid state thread [] disk medium := by
  rintro ⟨-, hall⟩
  have hrun : PutRun queue pid state thread [] disk medium [.act thread .acquire, .act thread (.putDecide true)]
      { state with
        calls := state.calls + 1
        lock := some thread
        phase := Function.update state.phase thread .idle } := by
    refine ⟨by simp [ownAction], ?_, Function.update_self ..⟩
    simp [machine, step, moveStep, State.goto, lockable, hidle, halive, hlock, hcap]
  have hanswer := congrArg List.length (hall _ _ hrun)
  simp at hanswer

/-! ## A ring full of empty payloads -/

def unboundedQueue : RingQueue :=
  .ofNew 0 65536 none someCreator small_lt_word

/-- After `n` puts of empty payloads the ring holds `n` records of eight bytes. -/
theorem fill (n : ℕ) (h : 8 * n ≤ 65536) :
    ∃ state, ((machine unboundedQueue fun _ ↦ 0).restrict noDeath).Reachable state ∧
      state.lock = none ∧ state.phase 0 = .idle ∧ state.dead 0 = false ∧ state.fileSpills 0 = 0 ∧
        state.shared.head = 0 ∧ state.shared.tail = 8 * n := by
  induction n with
  | zero => exact ⟨.start, .refl, rfl, rfl, rfl, rfl, rfl, rfl⟩
  | succ n ih =>
    obtain ⟨state, hreachable, hlock, hidle, halive, hfiles, hhead, htail⟩ := ih (by omega)
    have hcap : unboundedQueue.cap = 65536 := rfl
    have hpad : padding unboundedQueue state.shared ⟨kindData, []⟩ = 0 := by
      rw [padding, hcap, htail, if_neg]
      simp only [Record.size, recHdr, align8, List.length_nil]
      omega
    have hbegin : moveStep unboundedQueue (fun _ ↦ 0) state 0 (.putBegin [] .nonblocking false) =
        some (State.goto { state with calls := state.calls + 1 } 0
          (.put ⟨state.calls, [], .nonblocking, false, false, none, none⟩)) := by
      simp [moveStep, hidle]
    have hroom : hasRoom unboundedQueue state.shared ⟨kindData, []⟩ = true := by
      rw [hasRoom_iff, hpad, hhead, htail, hcap]
      simp only [Record.size, recHdr, align8, List.length_nil]
      omega
    have hrun : (machine unboundedQueue fun _ ↦ 0).runFrom (State.goto { state with
        calls := state.calls + 1 } 0 (.put ⟨state.calls, [], .nonblocking, false, false, none, none⟩)) _ =
        some _ :=
      run_publish halive (lockable_of_none hlock) (goto_phase _ _ _) rfl rfl rfl hroom
    have hwhole := Machine.runFrom_step (step_act halive hbegin) hrun
    refine ⟨_, hreachable.run ((Machine.restrict_runFrom ?_ state).trans hwhole), rfl,
      goto_phase _ _ _, halive, hfiles, hhead, ?_⟩
    · intro action haction _
      rw [List.mem_cons] at haction
      rcases haction with rfl | haction
      · rfl
      · have hown : ownAction 0 .shm action = true := publishMoves_own _ _ action haction
        cases action with
        | act => rfl
        | die => cases hown
    · show nextTail unboundedQueue state.shared ⟨kindData, []⟩ = _
      rw [nextTail, hpad, htail]
      simp only [Record.size, recHdr, align8, List.length_nil]
      omega

/-- With 8192 empty payloads in it, an unbounded queue refuses the next put. -/
theorem not_put_nowait_by_maxsize : ¬∀ (maxsize ringBytes : ℕ) (spillAt : Option ℕ) (creator : Sys.Creator)
    (pid : ℕ → UInt32) (state : State),
    ((machine (RingQueue.new maxsize ringBytes spillAt creator) pid).restrict noDeath).Reachable state →
      state.lock = none → ∀ thread, state.phase thread = .idle → ∀ data : Bytes, data.length < 2 ^ 63 →
        ∀ disk medium, canSpill (RingQueue.new maxsize ringBytes spillAt creator) pid state thread disk medium = true →
          AnswersByMaxsize (RingQueue.new maxsize ringBytes spillAt creator) pid state thread data disk medium := by
  intro hall
  obtain ⟨state, hreachable, hlock, hidle, halive, hfiles, hhead, htail⟩ := fill 8192 (by norm_num)
  have havailable : canSpill unboundedQueue (fun _ ↦ 0) state 0 false .disk = true := by
    simp [canSpill, hfiles]
  have hfull (record : Record) : hasRoom unboundedQueue state.shared record = false := by
    rw [Bool.eq_false_iff, ne_eq, hasRoom_iff, hhead, htail]
    have hcap : unboundedQueue.cap = 65536 := rfl
    simp only [Record.size, recHdr]
    omega
  obtain ⟨⟨actions, next, hrun⟩, hanswer⟩ :=
    hall 0 65536 none someCreator _ state hreachable hlock 0 hidle [] (by decide) false .disk havailable
  have heq := (@PutRun.answer unboundedQueue _ _ _ _ _ _ _ _ hrun).symm.trans (hanswer actions next hrun)
  simp only [accepts, hfull, List.append_cancel_left_eq] at heq
  simp [RingQueue.new] at heq

end GpuPipe.Ring
