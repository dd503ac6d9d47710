import GpuPipe.Ring.Capacity

/-!
# One call of `put`

A call of `put` from its first statement to its return, between any steps of the other threads: its number,
the objects it makes, and what each of its steps does to the record, the pending table and the objects.
-/

namespace GpuPipe.Ring

variable {queue : RingQueue} {pid : ℕ → UInt32} {state next last : State} {thread : ℕ} {move : Move}

/-! ## Whose call an object is -/

/-- What a step of a thread may do to call numbers and to objects. -/
structure CallFrame (state next : State) (thread : ℕ) : Prop where
  phase : ∃ phase, next.phase = Function.update state.phase thread phase ∧
    ∀ put, phase.pre = some put →
      (∃ old, (state.phase thread).pre = some old ∧ put.call = old.call) ∨
        put.call = state.calls ∧ next.calls = state.calls + 1
  calls : state.calls ≤ next.calls
  objects : ∀ place object, next.objects place = some object → state.objects place = some object ∨
    ∃ put, (state.phase thread).pre = some put ∧ object.call = put.call

theorem CallFrame.quiet {phase : Phase} (hphase : next.phase = Function.update state.phase thread phase)
    (hpre : ∀ put, phase.pre = some put →
      ∃ old, (state.phase thread).pre = some old ∧ put.call = old.call)
    (hcalls : next.calls = state.calls)
    (hobjects : ∀ place object, next.objects place = some object → state.objects place = some object) :
    CallFrame state next thread where
  phase := ⟨phase, hphase, fun put hput ↦ .inl (hpre put hput)⟩
  calls := hcalls.ge
  objects := fun place object hobject ↦ .inl (hobjects place object hobject)

theorem remove_some {objects : Objects} {place other : Medium × Bytes} {object : Object}
    (h : Function.update objects other none place = some object) : objects place = some object := by
  rcases eq_or_ne place other with rfl | hne
  · rw [Function.update_self] at h
    cases h
  · rwa [Function.update_of_ne hne] at h

theorem discard_some {objects : Objects} {spilled : Option Record} {place : Medium × Bytes}
    {object : Object} (h : discard objects spilled place = some object) : objects place = some object := by
  cases hplace : spilled.bind Record.place with
  | none => simpa only [discard, hplace] using h
  | some other =>
    simp only [discard, hplace] at h
    exact remove_some h

theorem materialize_some {objects : Objects} {record : Record} {place : Medium × Bytes} {object : Object}
    (h : (materialize objects record).2 place = some object) : objects place = some object := by
  cases hplace : record.place with
  | none => simpa only [materialize, hplace] using h
  | some other =>
    simp only [materialize, hplace] at h
    split at h
    · exact h
    · exact remove_some h

theorem create_some {objects : Objects} {place other : Medium × Bytes} {object created : Object}
    (h : Function.update objects other (some created) place = some object) :
    objects place = some object ∨ place = other ∧ object = created := by
  rcases eq_or_ne place other with rfl | hne
  · rw [Function.update_self, Option.some.injEq] at h
    exact .inr ⟨rfl, h.symm⟩
  · rw [Function.update_of_ne hne] at h
    exact .inl h

theorem leaveFile_objects {put : PutCall} {left : Option Bytes} {place : Medium × Bytes} {object : Object}
    (h : (leaveFile pid state thread put left).objects place = some object) :
    state.objects place = some object ∨ left.isSome = true ∧ object.call = put.call := by
  cases left with
  | none => exact .inl h
  | some bytes =>
    rcases create_some h with hold | ⟨-, rfl⟩
    · exact .inl hold
    · exact .inr ⟨rfl, rfl⟩

theorem spill_callFrame {put : PutCall} {result : SpillResult} (hput : state.phase thread = .put put)
    (h : spill queue pid state thread put result = some next) : CallFrame state next thread := by
  have hpre : (state.phase thread).pre = some put := by rw [hput]; rfl
  cases result with
  | shm =>
    simp only [spill, Option.ite_none_left_eq_some, Option.some.injEq] at h
    obtain ⟨-, rfl⟩ := h
    refine ⟨⟨_, rfl, ?_⟩, le_rfl, ?_⟩
    · rintro put' ⟨⟩
      exact .inl ⟨put, hpre, rfl⟩
    · intro place object hobject
      rcases create_some hobject with hold | ⟨-, rfl⟩
      · exact .inl hold
      · exact .inr ⟨put, hpre, rfl⟩
  | file =>
    simp only [spill, Option.ite_none_left_eq_some, Option.some.injEq] at h
    obtain ⟨-, rfl⟩ := h
    refine ⟨⟨_, rfl, ?_⟩, le_rfl, ?_⟩
    · rintro put' ⟨⟩
      exact .inl ⟨put, hpre, rfl⟩
    · intro place object hobject
      rcases create_some hobject with hold | ⟨-, rfl⟩
      · exact .inl hold
      · exact .inr ⟨put, hpre, rfl⟩
  | noSpace left clock =>
    have hobjects : ∀ place object, (leaveFile pid state thread put left).objects place = some object →
        state.objects place = some object ∨
          ∃ put, (state.phase thread).pre = some put ∧ object.call = put.call :=
      fun place object hobject ↦ (leaveFile_objects hobject).imp_right fun hleft ↦ ⟨put, hpre, hleft.2⟩
    have hcalls : (leaveFile pid state thread put left).calls = state.calls := by cases left <;> rfl
    simp only [spill] at h
    split at h
    · cases h
      refine ⟨⟨.idle, ?_, ?_⟩, hcalls.ge, hobjects⟩
      · simp only [State.goto, leaveFile_phase]
      · rintro put' ⟨⟩
    · cases h
      refine ⟨⟨.put put, ?_, ?_⟩, hcalls.ge, hobjects⟩
      · simp only [State.goto, leaveFile_phase]
      · rintro put' ⟨⟩
        exact .inl ⟨put, hpre, rfl⟩
  | failed left =>
    have hcalls : (leaveFile pid state thread put left).calls = state.calls := by cases left <;> rfl
    cases h
    refine ⟨⟨.idle, ?_, ?_⟩, hcalls.ge, fun place object hobject ↦ ?_⟩
    · simp only [State.goto, leaveFile_phase]
    · rintro put' ⟨⟩
    · exact (leaveFile_objects hobject).imp_right fun hleft ↦ ⟨put, hpre, hleft.2⟩

/-- The decision of `put` under the lock, by its outcome. -/
inductive Decided (queue : RingQueue) (state : State) (thread : ℕ) (put : PutCall) : State → Prop
  | stores : Decided queue state thread put
      (state.goto thread (.storing put put.record (publishStores queue state.shared put.record)))
  | spills : Decided queue state thread put
      (State.goto { state with lock := none } thread (.put { put with mustSpill := true }))
  | expired : Decided queue state thread put
      (State.goto { state with
        shared := clearPending state.shared put.pending
        lock := none
        objects := discard state.objects put.spilled
        putReturns := state.putReturns ++ [(put.call, false)] } thread .idle)
  | waits {shared : Shared} {pending : Option ℕ} (hhead : shared.head = state.shared.head)
      (htail : shared.tail = state.shared.tail) (hcount : shared.count = state.shared.count)
      (hbytes : shared.bytes = state.shared.bytes)
      (hpending : pending = put.pending ∨ put.pending = none ∧ put.spilled ≠ none) :
      Decided queue state thread put
        (State.goto { state with shared := shared, lock := none } thread
          (.waiting { put with pending := pending }))

theorem putDecide_decided (put : PutCall) (clock : Bool) :
    Decided queue state thread put (putDecide queue state thread put clock) := by
  unfold putDecide
  dsimp only
  split
  · exact .stores
  · split
    · exact .spills
    · split
      · exact .expired
      · split
        · rename_i record hpending hspilled
          split
          · obtain ⟨hhead, htail, hbytes⟩ := notePending_ring state.shared (record.payload.drop 8)
            exact .waits hhead htail (notePending_count _ _) hbytes
              (.inr ⟨hpending, by rw [hspilled]; simp⟩)
          · exact .waits rfl rfl rfl rfl (.inl rfl)
        · exact .waits rfl rfl rfl rfl (.inl rfl)

/-- No move writes or keeps an object of a call that is not its own. -/
theorem moveStep_callFrame (h : moveStep queue pid state thread move = some next) :
    CallFrame state next thread := by
  cases moveStep_cases h with
  | putBegin data deadline disk hphase =>
    refine ⟨⟨_, rfl, ?_⟩, Nat.le_succ _, fun _ _ hobject ↦ .inl hobject⟩
    rintro put ⟨⟩
    exact .inr ⟨rfl, rfl⟩
  | spill put result hphase _ _ hspill => exact spill_callFrame hphase hspill
  | acquirePut put hphase =>
    refine .quiet rfl ?_ rfl fun _ _ hobject ↦ hobject
    rintro put' ⟨⟩
    exact ⟨put, by rw [hphase]; rfl, rfl⟩
  | putDecide put clock hphase =>
    have hpre : (state.phase thread).pre = some put := by rw [hphase]; rfl
    have hdecided : Decided queue state thread put (putDecide queue state thread put clock) :=
      putDecide_decided put clock
    generalize putDecide queue state thread put clock = after at hdecided
    cases hdecided with
    | stores | spills | waits =>
      refine .quiet rfl ?_ rfl fun _ _ hobject ↦ hobject
      rintro put' ⟨⟩
      exact ⟨put, hpre, rfl⟩
    | expired => exact .quiet rfl nofun rfl fun _ _ hobject ↦ discard_some hobject
  | store put record address byte todo hphase =>
    refine .quiet rfl ?_ rfl fun _ _ hobject ↦ hobject
    rintro put' ⟨⟩
    exact ⟨put, by rw [hphase]; rfl, rfl⟩
  | interrupted put hphase | wake put hphase =>
    refine .quiet rfl ?_ rfl fun _ _ hobject ↦ hobject
    rintro put' ⟨⟩
    exact ⟨put, by rw [hphase]; rfl, rfl⟩
  | putAbort => exact .quiet rfl nofun rfl fun _ _ hobject ↦ discard_some hobject
  | materialize popped rest =>
    unfold materializeNext
    have hobjects : ∀ place object, (materialize state.objects popped.record).2 place = some object →
        state.objects place = some object := fun _ _ hobject ↦ materialize_some hobject
    split
    · rename_i hmaterialize
      rw [hmaterialize] at hobjects
      refine .quiet rfl ?_ rfl hobjects
      cases rest <;> exact nofun
    · rename_i hmaterialize
      rw [hmaterialize] at hobjects
      exact .quiet rfl nofun rfl hobjects
  | _ => exact .quiet rfl nofun rfl fun _ _ hobject ↦ hobject

/-- Each put has a call number of its own, and objects belong to calls made so far. -/
structure CallsOk (state : State) : Prop where
  pre_lt : ∀ thread put, (state.phase thread).pre = some put → put.call < state.calls
  inj : PreInj state.phase
  objects_lt : ∀ place object, state.objects place = some object → object.call < state.calls

theorem CallsOk.frame (h : CallsOk state) (hframe : CallFrame state next thread) : CallsOk next := by
  obtain ⟨phase, hphase, hpre⟩ := hframe.phase
  constructor
  · rw [hphase]
    refine (Function.forall_update_iff _ fun _ (phase : Phase) ↦
      ∀ put, phase.pre = some put → put.call < next.calls).mpr ⟨fun put hput ↦ ?_, fun other _ put hput ↦ ?_⟩
    · rcases hpre put hput with ⟨old, hold, hcall⟩ | ⟨hcall, hcalls⟩
      · rw [hcall]
        exact (h.pre_lt thread old hold).trans_le hframe.calls
      · omega
    · exact (h.pre_lt other put hput).trans_le hframe.calls
  · rw [hphase]
    refine h.inj.update fun put hput ↦ ?_
    rcases hpre put hput with ⟨old, hold, hcall⟩ | ⟨hcall, -⟩
    · exact h.inj.alone hold hcall
    · intro other put' _ hput'
      have hlt := h.pre_lt other put' hput'
      omega
  · intro place object hobject
    rcases hframe.objects place object hobject with hold | ⟨put, hput, hcall⟩
    · exact (h.objects_lt place object hold).trans_le hframe.calls
    · rw [hcall]
      exact (h.pre_lt thread put hput).trans_le hframe.calls

theorem CallsOk.step {action : Action} (h : CallsOk state)
    (hstep : Ring.step queue pid state action = some next) : CallsOk next := by
  cases action with
  | act thread move =>
    simp only [Ring.step, Option.ite_none_left_eq_some] at hstep
    exact h.frame (moveStep_callFrame hstep.2)
  | die process =>
    cases hstep
    exact ⟨h.pre_lt, h.inj, h.objects_lt⟩

theorem callsOk_start : CallsOk .start := by
  constructor <;> simp [State.start, Phase.pre, PreInj]

/-- In every reachable state call numbers are in use once. -/
theorem callsOk_of_reachable (h : (machine queue pid).Reachable state) : CallsOk state :=
  h.invariant CallsOk callsOk_start fun _ _ _ hstate hstep ↦ hstate.step hstep

/-! ## One call, step by step -/

/-- A put that has not begun to store its record. -/
def Phase.attempt : Phase → Option PutCall
  | .put call | .putLocked call | .waiting call | .aborting call => some call
  | _ => none

/-- A put that is storing its record will return True. -/
def Phase.publishing : Phase → Option PutCall
  | .storing call _ _ | .counting call | .putRelease call => some call
  | _ => none

/-- The operating system made the file, then failed to write it. -/
def SpillResult.leaves : SpillResult → Bool
  | .noSpace (some _) _ | .failed (some _) => true
  | _ => false

def Move.leaves : Move → Bool
  | .spill result => result.leaves
  | _ => false

/-- A place that nothing has been written to: there is no object, or it is the next file of a process. -/
def Free (state : State) (place : Medium × Bytes) : Prop :=
  state.objects place = none ∨
    ∃ process, place = (.disk, Sys.fileSpillName process.toNat (state.fileSpills process))

/-- All that a step of an attempt can do to the ring, to the pending table and to objects. -/
inductive Attempted (state next : State) (thread : ℕ) (put : PutCall) (move : Move) : Prop
  | goes (put' : PutCall) (hattempt : (next.phase thread).attempt = some put') (hcall : put'.call = put.call)
      (hobjects : next.objects = state.objects) (hspilled : put'.spilled = put.spilled)
      (hpending : put'.pending = put.pending ∨ put.pending = none ∧ put.spilled ≠ none)
      (hleaves : move.leaves = false)
  | spilled (put' : PutCall) (place : Medium × Bytes) (object : Object)
      (hattempt : (next.phase thread).attempt = some put') (hcall : put'.call = put.call)
      (hfresh : put.spilled = none) (hplace : put'.spilled.bind Record.place = some place)
      (hobjects : next.objects = Function.update state.objects place (some object))
      (hfree : Free state place) (hpending : put'.pending = put.pending) (hleaves : move.leaves = false)
  | left (place : Medium × Bytes) (object : Object)
      (hphase : (next.phase thread).attempt = some put ∨ next.phase thread = .idle)
      (hfresh : put.spilled = none) (hobject : object.call = put.call)
      (hobjects : next.objects = Function.update state.objects place (some object))
      (hfree : Free state place) (hleaves : move.leaves = true)
  | stores (put' : PutCall) (hpublishing : (next.phase thread).publishing = some put')
      (hcall : put'.call = put.call) (hleaves : move.leaves = false)
  | fails (hphase : next.phase thread = .idle) (hobjects : next.objects = discard state.objects put.spilled)
      (hcleared : ∀ slot, put.pending = some slot → next.shared.pending slot = none)
      (hleaves : move.leaves = false)

structure SameRecords (state next : State) : Prop where
  head : next.shared.head = state.shared.head
  tail : next.shared.tail = state.shared.tail
  count : next.shared.count = state.shared.count
  bytes : next.shared.bytes = state.shared.bytes

theorem discard_unspilled {objects : Objects} {put : PutCall} (h : put.spilled = none) :
    discard objects put.spilled = objects := by
  rw [h]
  rfl

/-- A spill makes an object of this call, or leaves what `leaves` says. -/
theorem spill_attempted {put : PutCall} {result : SpillResult} (hunspilled : put.spilled = none)
    (hpending : put.pending = none)
    (h : spill queue pid state thread put result = some next) :
    Attempted state next thread put (.spill result) ∧ SameRecords state next := by
  cases result with
  | shm =>
    simp only [spill, Option.ite_none_left_eq_some, Bool.or_eq_true, not_or, Bool.not_eq_true,
      Option.isSome_eq_false_iff, Option.isNone_iff_eq_none, Option.some.injEq] at h
    obtain ⟨⟨⟨-, hfree⟩, -⟩, rfl⟩ := h
    refine ⟨.spilled { put with spilled := some (spillRecord .shm _ put.data.length) } _ _ ?_ rfl hunspilled
      (place_spillRecord .shm _ _) rfl (.inl hfree) rfl rfl, rfl, rfl, rfl, rfl⟩
    simp [State.goto, Phase.attempt]
  | file =>
    simp only [spill, Option.ite_none_left_eq_some, Option.some.injEq] at h
    obtain ⟨-, rfl⟩ := h
    refine ⟨.spilled { put with spilled := some (spillRecord .disk _ put.data.length) } _ _ ?_ rfl hunspilled
      (place_spillRecord .disk _ _) rfl (.inr ⟨pid thread, rfl⟩) rfl rfl, rfl, rfl, rfl, rfl⟩
    simp [State.goto, Phase.attempt]
  | noSpace left clock =>
    simp only [spill] at h
    cases left with
    | none =>
      split at h
      · cases h
        refine ⟨.fails ?_ (discard_unspilled hunspilled).symm ?_ rfl, rfl, rfl, rfl, rfl⟩
        · simp [State.goto]
        · simp [hpending]
      · cases h
        refine ⟨.goes put ?_ rfl rfl rfl (.inl rfl) rfl, rfl, rfl, rfl, rfl⟩
        simp [State.goto, Phase.attempt]
    | some bytes =>
      split at h
      · cases h
        refine ⟨.left _ _ (.inr ?_) hunspilled ?_ rfl (.inr ⟨pid thread, rfl⟩) rfl, rfl, rfl, rfl, rfl⟩
        · simp [State.goto]
        · rfl
      · cases h
        refine ⟨.left _ _ (.inl ?_) hunspilled ?_ rfl (.inr ⟨pid thread, rfl⟩) rfl, rfl, rfl, rfl, rfl⟩
        · simp [State.goto, Phase.attempt]
        · rfl
  | failed left =>
    cases left with
    | none =>
      cases h
      refine ⟨.fails ?_ (discard_unspilled hunspilled).symm ?_ rfl, rfl, rfl, rfl, rfl⟩
      · simp [State.goto]
      · simp [hpending]
    | some bytes =>
      cases h
      refine ⟨.left _ _ (.inr ?_) hunspilled ?_ rfl (.inr ⟨pid thread, rfl⟩) rfl, rfl, rfl, rfl, rfl⟩
      · simp [State.goto]
      · rfl

theorem clearPending_slot (shared : Shared) {pending : Option ℕ} {slot : ℕ} (h : pending = some slot) :
    (clearPending shared pending).pending slot = none := by
  rw [h]
  exact Function.update_self _ _ _

/-- What a step does to an attempt, which notes a pending entry only once it has spilled. -/
theorem moveStep_attempted {put : PutCall} (h : moveStep queue pid state thread move = some next)
    (hattempt : (state.phase thread).attempt = some put)
    (hpending : put.spilled = none → put.pending = none) :
    Attempted state next thread put move ∧ SameRecords state next := by
  have hsame (lock : Option ℕ) (phase : Phase) :
      SameRecords state (State.goto { state with lock := lock } thread phase) := ⟨rfl, rfl, rfl, rfl⟩
  cases moveStep_cases h with
  | spill put' result hphase hmust hunspilled hspill =>
    rw [hphase] at hattempt
    cases hattempt
    exact spill_attempted hunspilled (hpending hunspilled) hspill
  | acquirePut put' hphase =>
    rw [hphase] at hattempt
    cases hattempt
    refine ⟨.goes put ?_ rfl rfl rfl (.inl rfl) rfl, hsame _ _⟩
    simp [State.goto, Phase.attempt]
  | putDecide put' clock hphase =>
    rw [hphase] at hattempt
    cases hattempt
    have hdecided : Decided queue state thread put (putDecide queue state thread put clock) :=
      putDecide_decided put clock
    generalize putDecide queue state thread put clock = after at hdecided
    cases hdecided with
    | stores =>
      refine ⟨.stores put ?_ rfl rfl, hsame state.lock _⟩
      simp [State.goto, Phase.publishing]
    | spills =>
      refine ⟨.goes { put with mustSpill := true } ?_ rfl rfl rfl (.inl rfl) rfl, hsame _ _⟩
      simp [State.goto, Phase.attempt]
    | expired =>
      refine ⟨.fails ?_ rfl (fun slot hslot ↦ clearPending_slot _ hslot) rfl, ?_⟩
      · simp [State.goto]
      · exact ⟨clearPending_head _ _, clearPending_tail _ _, clearPending_count _ _, clearPending_bytes _ _⟩
    | @waits shared pending hhead htail hcount hbytes hnoted =>
      refine ⟨.goes { put with pending := pending } ?_ rfl rfl rfl hnoted rfl, hhead, htail, hcount, hbytes⟩
      simp [State.goto, Phase.attempt]
  | interrupted put' hphase | wake put' hphase =>
    rw [hphase] at hattempt
    cases hattempt
    refine ⟨.goes put ?_ rfl rfl rfl (.inl rfl) rfl, hsame state.lock _⟩
    simp [State.goto, Phase.attempt]
  | putAbort put' hphase =>
    rw [hphase] at hattempt
    cases hattempt
    refine ⟨.fails ?_ rfl (fun slot hslot ↦ clearPending_slot _ hslot) rfl, ?_⟩
    · simp [State.goto]
    · exact ⟨clearPending_head _ _, clearPending_tail _ _, clearPending_count _ _, clearPending_bytes _ _⟩
  | putBegin _ _ _ hphase | acquireGet _ hphase | store _ _ _ _ _ hphase | storeTail _ _ hphase
  | addCount _ hphase | putDone _ hphase | getBegin _ hphase | getItems _ _ hphase | getExpired _ _ hphase
  | getAgain _ _ hphase | popEnough _ _ hphase | popEmpty _ _ hphase | pop _ _ hphase
  | storeCount _ _ hphase | resync _ _ hphase | finishRead _ _ _ hphase | finishMany _ hphase
  | finishAgain _ hphase | materialize _ _ hphase =>
    rw [hphase] at hattempt
    cases hattempt

/-! ## One call, from its first step to its return -/

variable {call : ℕ}

/-- The thread is in this call and has not begun to store the record. -/
structure Attempting (thread call : ℕ) (state : State) (put : PutCall) : Prop where
  attempt : (state.phase thread).attempt = some put
  call : put.call = call
  pending : put.spilled = none → put.pending = none

/-- The call is storing its record, or has returned True. -/
def Completing (thread call : ℕ) (state : State) : Prop :=
  (∃ put, (state.phase thread).publishing = some put ∧ put.call = call) ∨
    (call, true) ∈ state.putReturns

def inCall (thread : ℕ) (state : State) (_ : Action) : Bool :=
  decide (state.phase thread ≠ .idle)

theorem moveStep_putReturns (h : moveStep queue pid state thread move = some next) :
    ∃ new, next.putReturns = state.putReturns ++ new := by
  cases moveStep_cases h with
  | spill put result _ _ _ hspill =>
    cases result with
    | shm | file =>
      simp only [spill, Option.ite_none_left_eq_some, Option.some.injEq] at hspill
      obtain ⟨-, rfl⟩ := hspill
      exact ⟨[], (List.append_nil _).symm⟩
    | noSpace left clock =>
      have hleft : (leaveFile pid state thread put left).putReturns = state.putReturns := by
        cases left <;> rfl
      simp only [spill] at hspill
      split at hspill
      · cases hspill
        exact ⟨[(put.call, false)], congrArg (· ++ _) hleft⟩
      · cases hspill
        exact ⟨[], hleft.trans (List.append_nil _).symm⟩
    | failed left =>
      cases hspill
      exact ⟨[], by cases left <;> exact (List.append_nil _).symm⟩
  | putDecide put clock =>
    have hdecided : Decided queue state thread put (putDecide queue state thread put clock) :=
      putDecide_decided put clock
    generalize putDecide queue state thread put clock = after at hdecided
    cases hdecided with
    | expired => exact ⟨[(put.call, false)], rfl⟩
    | stores | spills | waits => exact ⟨[], (List.append_nil _).symm⟩
  | putDone put => exact ⟨[(put.call, true)], rfl⟩
  | materialize popped rest =>
    unfold materializeNext
    split <;> exact ⟨[], (List.append_nil _).symm⟩
  | _ => exact ⟨[], (List.append_nil _).symm⟩

theorem moveStep_publishing {put : PutCall} (h : moveStep queue pid state thread move = some next)
    (hpublishing : (state.phase thread).publishing = some put) (hcall : put.call = call) :
    Completing thread call next := by
  cases moveStep_cases h with
  | store put' record address byte todo hphase | storeTail put' record hphase | addCount put' hphase =>
    rw [hphase] at hpublishing
    cases hpublishing
    refine .inl ⟨put, ?_, hcall⟩
    simp [State.goto, Phase.publishing]
  | putDone put' hphase =>
    rw [hphase] at hpublishing
    cases hpublishing
    refine .inr ?_
    simp [State.goto, hcall]
  | putBegin _ _ _ hphase | spill _ _ hphase | acquirePut _ hphase | acquireGet _ hphase
  | putDecide _ _ hphase | interrupted _ hphase | wake _ hphase | putAbort _ hphase | getBegin _ hphase
  | getItems _ _ hphase | getExpired _ _ hphase | getAgain _ _ hphase | popEnough _ _ hphase
  | popEmpty _ _ hphase | pop _ _ hphase | storeCount _ _ hphase | resync _ _ hphase
  | finishRead _ _ _ hphase | finishMany _ hphase | finishAgain _ hphase | materialize _ _ hphase =>
    rw [hphase] at hpublishing
    cases hpublishing

theorem moveStep_of_step (h : step queue pid state (.act thread move) = some next) :
    moveStep queue pid state thread move = some next := by
  simp only [step, Option.ite_none_left_eq_some] at h
  exact h.2

/-- A step of the thread itself, or one that leaves its phase alone. -/
theorem step_own_or_other (thread : ℕ) {action : Action} (h : step queue pid state action = some next) :
    (∃ move, action = .act thread move ∧ moveStep queue pid state thread move = some next) ∨
      next.phase thread = state.phase thread ∧ ∃ new, next.putReturns = state.putReturns ++ new := by
  cases action with
  | act other move =>
    simp only [step, Option.ite_none_left_eq_some] at h
    rcases eq_or_ne other thread with rfl | hne
    · exact .inl ⟨move, rfl, h.2⟩
    · obtain ⟨phase, hphase, -⟩ := (moveStep_callFrame h.2).phase
      refine .inr ⟨?_, moveStep_putReturns h.2⟩
      rw [hphase, Function.update_of_ne hne.symm]
  | die process =>
    cases h
    exact .inr ⟨rfl, [], (List.append_nil _).symm⟩

theorem Completing.step {action : Action} (h : Completing thread call state)
    (hstep : Ring.step queue pid state action = some next) : Completing thread call next := by
  rcases step_own_or_other thread hstep with ⟨move, -, hmove⟩ | ⟨hphase, new, hreturns⟩
  · rcases h with ⟨put, hpublishing, hcall⟩ | hreturned
    · exact moveStep_publishing hmove hpublishing hcall
    · obtain ⟨new, hreturns⟩ := moveStep_putReturns hmove
      exact .inr (hreturns ▸ List.mem_append_left _ hreturned)
  · rcases h with ⟨put, hpublishing, hcall⟩ | hreturned
    · exact .inl ⟨put, hphase ▸ hpublishing, hcall⟩
    · exact .inr (hreturns ▸ List.mem_append_left _ hreturned)

/-- A put that stores its record returns True or goes on with it, whatever the others do. -/
theorem Completing.run {actions : List Action} (h : Completing thread call state)
    (hrun : (machine queue pid).runFrom state actions = some last) : Completing thread call last :=
  Machine.run_invariant (Completing thread call) (fun _ _ _ hstate hstep ↦ hstate.step hstep) h hrun

/-- An attempt goes on, begins to store, or ends with the thread back from the call. -/
theorem Attempting.own {put : PutCall} (h : Attempting thread call state put)
    (hmove : moveStep queue pid state thread move = some next) :
    (∃ put', Attempting thread call next put') ∨ Completing thread call next ∨
      next.phase thread = .idle := by
  cases (moveStep_attempted hmove h.attempt h.pending).1 with
  | goes put' hattempt hcall _ hspilled hpending =>
    refine .inl ⟨put', hattempt, hcall.trans h.call, fun hnone ↦ ?_⟩
    rcases hpending with hpending | ⟨-, hsome⟩
    · rw [hpending]
      exact h.pending (hspilled ▸ hnone)
    · exact absurd (hspilled ▸ hnone) hsome
  | spilled put' place object hattempt hcall _ hplace _ hpending =>
    refine .inl ⟨put', hattempt, hcall.trans h.call, fun hnone ↦ ?_⟩
    rw [hnone] at hplace
    cases hplace
  | left place object hphase =>
    rcases hphase with hattempt | hidle
    · exact .inl ⟨put, hattempt, h.call, h.pending⟩
    · exact .inr (.inr hidle)
  | stores put' hpublishing hcall => exact .inr (.inl (.inl ⟨put', hpublishing, hcall.trans h.call⟩))
  | fails hidle => exact .inr (.inr hidle)

theorem Phase.not_idle_of_attempt {phase : Phase} {put : PutCall} (h : phase.attempt = some put) :
    phase ≠ .idle := by
  intro hidle
  rw [hidle] at h
  cases h

theorem Phase.of_publishing {phase : Phase} {put : PutCall} (h : phase.publishing = some put) :
    phase.attempt = none ∧ phase ≠ .idle := by
  cases phase with
  | storing | counting | putRelease => exact ⟨rfl, nofun⟩
  | _ => cases h

theorem Attempting.not_idle {put : PutCall} (h : Attempting thread call state put) :
    state.phase thread ≠ .idle :=
  Phase.not_idle_of_attempt h.attempt

/-- Nothing follows the return of the call. -/
theorem run_of_idle {actions : List Action} (hidle : state.phase thread = .idle)
    (hrun : ((machine queue pid).restrict (inCall thread)).runFrom state actions = some last) :
    last = state := by
  cases actions with
  | nil => exact (Option.some.inj hrun).symm
  | cons action rest =>
    rw [Machine.runFrom_cons, Option.bind_eq_some_iff] at hrun
    obtain ⟨next, hnext, -⟩ := hrun
    have hin := (Machine.restrict_step hnext).1
    simp [inCall, hidle] at hin

/-- The rule for a call that fails: what every step of an attempt keeps, and what its last step makes of
it, holds at the return. -/
theorem Attempting.ends (Held : State → PutCall → Prop) (Ended : State → Prop) (allowed : Move → Prop)
    (hother : ∀ {state next : State} {action : Action} {put : PutCall}, Attempting thread call state put →
      Held state put → (∀ move, action ≠ .act thread move) → step queue pid state action = some next →
      Held next put)
    (hown : ∀ {state next : State} {move : Move} {put : PutCall}, allowed move →
      Attempting thread call state put → Held state put →
      step queue pid state (.act thread move) = some next →
      (∀ put', Attempting thread call next put' → Held next put') ∧ (next.phase thread = .idle → Ended next))
    {actions : List Action} {put : PutCall} (h : Attempting thread call state put) (hheld : Held state put)
    (hallowed : ∀ move, Action.act thread move ∈ actions → allowed move)
    (hrun : ((machine queue pid).restrict (inCall thread)).runFrom state actions = some last)
    (hidle : last.phase thread = .idle) (hfailed : ¬ Completing thread call last) : Ended last := by
  induction actions generalizing state put with
  | nil =>
    cases hrun
    exact absurd hidle h.not_idle
  | cons action rest ih =>
    rw [Machine.runFrom_cons, Option.bind_eq_some_iff] at hrun
    obtain ⟨next, hnext, hrest⟩ := hrun
    have hstep : step queue pid state action = some next := (Machine.restrict_step hnext).2
    have hallowedRest : ∀ move, Action.act thread move ∈ rest → allowed move :=
      fun move hmem ↦ hallowed move (List.mem_cons_of_mem _ hmem)
    by_cases hmine : ∃ move, action = .act thread move
    · obtain ⟨move, rfl⟩ := hmine
      obtain ⟨hgoes, hends⟩ := hown (hallowed move List.mem_cons_self) h hheld hstep
      rcases h.own (moveStep_of_step hstep) with ⟨put', hnext'⟩ | hcompleting | hnextIdle
      · exact ih hnext' (hgoes put' hnext') hallowedRest hrest
      · exact absurd (hcompleting.run (Machine.runFrom_of_restrict hrest)) hfailed
      · rw [run_of_idle hnextIdle hrest]
        exact hends hnextIdle
    · have hforeign : ∀ move, action ≠ .act thread move := fun move heq ↦ hmine ⟨move, heq⟩
      have hnext' : Attempting thread call next put := by
        rcases step_own_or_other thread hstep with ⟨move, heq, -⟩ | ⟨hphase, -⟩
        · exact absurd heq (hforeign move)
        · exact ⟨hphase ▸ h.attempt, h.call, h.pending⟩
      exact ih hnext' (hother h hheld hforeign hstep) hallowedRest hrest

/-- In a call that fails the thread attempts until it returns. -/
theorem Attempting.stage {actions : List Action} {put : PutCall} (h : Attempting thread call state put)
    (hrun : ((machine queue pid).restrict (inCall thread)).runFrom state actions = some next) :
    (∃ put', Attempting thread call next put') ∨ Completing thread call next ∨
      next.phase thread = .idle := by
  refine Machine.run_invariant (fun state ↦ (∃ put, Attempting thread call state put) ∨
    Completing thread call state ∨ state.phase thread = .idle) ?_ (.inl ⟨put, h⟩) hrun
  rintro state action next hstage hnext
  obtain ⟨hin, hstep⟩ := Machine.restrict_step hnext
  rcases hstage with ⟨put, hput⟩ | hcompleting | hidle
  · rcases step_own_or_other thread hstep with ⟨move, -, hmove⟩ | ⟨hphase, -⟩
    · exact hput.own hmove
    · exact .inl ⟨put, hphase ▸ hput.attempt, hput.call, hput.pending⟩
  · exact .inr (.inl (hcompleting.step hstep))
  · simp [inCall, hidle] at hin

theorem Phase.pre_of_attempt {phase : Phase} {put : PutCall} (h : phase.attempt = some put) :
    phase.pre = some put := by
  cases phase <;> first | exact h | cases h

end GpuPipe.Ring
