import GpuPipe.Ring.Capacity

/-!
# The item count after deaths

`count` is stored apart from the offsets, so a death between two stores leaves it off by one.
A producer that dies before its `count` store leaves it too low, which no reader can tell from
an item less; a consumer that dies after its `head` store leaves it too high, and a get that
finds the queue empty by its offsets returns without looking at `count`. As long as no consumer
dies there, the count never exceeds the unread items, and an empty queue takes the next put.
-/

namespace GpuPipe.Ring

variable {queue : RingQueue} {pid : ℕ → UInt32} {state next : State} {thread : ℕ} {phase : Phase}

/-! ## What a move does to the count -/

/-- A pop has stored `head` and not yet `count`. -/
def Phase.owes : Phase → Bool
  | .popCount _ _ => true
  | _ => false

/-- A put has stored `tail` and not yet `count`. -/
def Phase.counts : Phase → Bool
  | .counting _ => true
  | _ => false

/-- The effect of a move on the stored count, next to the number of unread items. -/
inductive CountStep (state next : State) (old new : Phase) : Prop
  | quiet (hold : old.owes = false) (hnew : new.owes = false ∧ new.counts = false)
      (hcount : next.shared.count = state.shared.count) (hunread : next.unread = state.unread)
  | storeTail (hold : old.locked = true ∧ old.owes = false) (hnew : new.owes = false)
      (hcount : next.shared.count = state.shared.count) (hunread : next.unread = state.unread + 1)
  | addCount (hold : old.locked = true ∧ old.counts = true) (hnew : new.owes = false ∧ new.counts = false)
      (hcount : next.shared.count = state.shared.count + 1) (hunread : next.unread = state.unread)
  | pop (hold : old.locked = true ∧ old.owes = false) (hnew : new.owes = true ∧ new.counts = false)
      (hcount : next.shared.count = state.shared.count) (hunread : state.unread = next.unread + 1)
  | storeCount (hold : old.locked = true) (hnew : new.owes = false ∧ new.counts = false)
      (hcount : next.shared.count = state.shared.count - 1) (hunread : next.unread = state.unread)
  | resync (hold : old.locked = true) (hnew : new.owes = false ∧ new.counts = false)
      (hcount : next.shared.count = 0) (hunread : next.unread = state.unread)

theorem spill_countStep {put : PutCall} {result : SpillResult} {old : Phase} (hold : old.owes = false)
    (hnext : spill queue pid state thread put result = some next) :
    ∃ phase, next.phase = Function.update state.phase thread phase ∧ next.dead = state.dead ∧
      CountStep state next old phase := by
  have hframe := spill_frame hnext
  have hcount : next.shared.count = state.shared.count := by rw [hframe.shared]
  have hunread : next.unread = state.unread := by rw [State.unread, State.unread, hframe.puts, hframe.pops]
  rcases hframe.phase with hphase | ⟨put', hphase⟩
  · exact ⟨_, hphase, hframe.dead, .quiet hold ⟨rfl, rfl⟩ hcount hunread⟩
  · exact ⟨_, hphase, hframe.dead, .quiet hold ⟨rfl, rfl⟩ hcount hunread⟩

theorem putDecide_countStep (put : PutCall) (clock : Bool) {old : Phase} (hold : old.owes = false) :
    ∃ phase, (putDecide queue state thread put clock).phase = Function.update state.phase thread phase ∧
      (putDecide queue state thread put clock).dead = state.dead ∧
      CountStep state (putDecide queue state thread put clock) old phase := by
  unfold putDecide
  dsimp only
  split
  · exact ⟨_, rfl, rfl, .quiet hold ⟨rfl, rfl⟩ rfl rfl⟩
  · split
    · exact ⟨_, rfl, rfl, .quiet hold ⟨rfl, rfl⟩ rfl rfl⟩
    · split
      · exact ⟨_, rfl, rfl, .quiet hold ⟨rfl, rfl⟩ (clearPending_count _ _) rfl⟩
      · split
        · split
          · exact ⟨_, rfl, rfl, .quiet hold ⟨rfl, rfl⟩ (notePending_count _ _) rfl⟩
          · exact ⟨_, rfl, rfl, .quiet hold ⟨rfl, rfl⟩ rfl rfl⟩
        · exact ⟨_, rfl, rfl, .quiet hold ⟨rfl, rfl⟩ rfl rfl⟩

/-- Every move is one of the count's steps. -/
theorem moveStep_countStep (hinv : Inv queue pid state) {move : Move}
    (hnext : moveStep queue pid state thread move = some next) :
    ∃ phase, next.phase = Function.update state.phase thread phase ∧ next.dead = state.dead ∧
      CountStep state next (state.phase thread) phase := by
  have hle := hinv.pops_le
  cases moveStep_cases hnext with
  | spill put result hphase hmust hunspilled hspill => exact spill_countStep (by rw [hphase]; rfl) hspill
  | putDecide put clock hphase => exact putDecide_countStep put clock (by rw [hphase]; rfl)
  | storeTail put record hphase =>
    refine ⟨_, rfl, rfl, .storeTail ⟨by rw [hphase]; rfl, by rw [hphase]; rfl⟩ rfl rfl ?_⟩
    simp only [State.unread, State.goto, List.length_append, List.length_singleton]
    omega
  | addCount put hphase =>
    exact ⟨_, rfl, rfl, .addCount ⟨by rw [hphase]; rfl, by rw [hphase]; rfl⟩ ⟨rfl, rfl⟩ rfl rfl⟩
  | putDone put hphase | putAbort put hphase =>
    exact ⟨_, rfl, rfl, .quiet (by rw [hphase]; rfl) ⟨rfl, rfl⟩ (clearPending_count _ _) rfl⟩
  | pop get got hphase hne =>
    have hpos := hinv.unread_pos hne
    refine ⟨_, rfl, rfl, .pop ⟨by rw [hphase]; rfl, by rw [hphase]; rfl⟩ ⟨rfl, rfl⟩ rfl ?_⟩
    simp only [State.unread, State.goto, List.length_append, List.length_singleton]
    omega
  | storeCount get got hphase => exact ⟨_, rfl, rfl, .storeCount (by rw [hphase]; rfl) ⟨rfl, rfl⟩ rfl rfl⟩
  | resync get got hphase => exact ⟨_, rfl, rfl, .resync (by rw [hphase]; rfl) ⟨rfl, rfl⟩ rfl rfl⟩
  | materialize popped rest hphase =>
    unfold materializeNext
    split
    · refine ⟨_, rfl, rfl, .quiet (by rw [hphase]; rfl) ?_ rfl rfl⟩
      split <;> exact ⟨rfl, rfl⟩
    · exact ⟨_, rfl, rfl, .quiet (by rw [hphase]; rfl) ⟨rfl, rfl⟩ rfl rfl⟩
  | putBegin _ _ _ hphase | acquirePut _ hphase | acquireGet _ hphase | store _ _ _ _ _ hphase | interrupted _ hphase
    | wake _ hphase | getBegin _ hphase | getItems _ _ hphase | getExpired _ _ hphase | getAgain _ _ hphase
    | popEnough _ _ hphase | popEmpty _ _ hphase | finishRead _ _ _ hphase | finishMany _ hphase
    | finishAgain _ hphase =>
    exact ⟨_, rfl, rfl, .quiet (by rw [hphase]; rfl) ⟨rfl, rfl⟩ rfl rfl⟩

/-! ## The count never exceeds the unread items -/

/-- The stored count is at most the unread items, plus the one a live consumer has popped and
not yet counted; a live producer has its own still to count. -/
structure CountLe (pid : ℕ → UInt32) (state : State) : Prop where
  le_succ : state.shared.count ≤ state.unread + 1
  le : (∀ thread, state.dead (pid thread) = false → (state.phase thread).owes = false) →
    state.shared.count ≤ state.unread
  counting : ∀ thread, state.dead (pid thread) = false → (state.phase thread).counts = true →
    state.shared.count + 1 ≤ state.unread

theorem Phase.locked_of_owes (h : phase.owes = true) : phase.locked = true := by
  cases phase <;> first | rfl | cases h

theorem Phase.locked_of_counts (h : phase.counts = true) : phase.locked = true := by
  cases phase <;> first | rfl | cases h

/-- A live thread in a critical section that owes nothing: nobody owes anything. -/
theorem CountLe.le_of_locked (h : CountLe pid state) (hinv : Inv queue pid state)
    (halive : state.dead (pid thread) = false) (hlocked : (state.phase thread).locked = true)
    (howes : (state.phase thread).owes = false) : state.shared.count ≤ state.unread := by
  apply h.le
  intro other hother
  by_cases hne : other = thread
  · rw [hne, howes]
  · by_contra hcontra
    have hfree := hinv.not_locked halive hlocked hne hother
    rw [Phase.locked_of_owes (by simpa using hcontra)] at hfree
    cases hfree

/-- A move keeps the count at most the number of unread items, but for one that a consumer has popped and not yet
counted. -/
theorem CountLe.act (h : CountLe pid state) (hinv : Inv queue pid state)
    (halive : state.dead (pid thread) = false) (hphase : next.phase = Function.update state.phase thread phase)
    (hdead : next.dead = state.dead) (hstep : CountStep state next (state.phase thread) phase) :
    CountLe pid next := by
  have hself : next.phase thread = phase := by rw [hphase, Function.update_self]
  have hothers (other : ℕ) (hne : other ≠ thread) : next.phase other = state.phase other := by
    rw [hphase, Function.update_of_ne hne]
  -- Once somebody else may count, the mover was not in a critical section.
  have hcounting (hlocked : (state.phase thread).locked = true) (hnew : phase.counts = false) (other : ℕ)
      (hother : next.dead (pid other) = false) (hcounts : (next.phase other).counts = true) : False := by
    by_cases hne : other = thread
    · rw [hne, hself, hnew] at hcounts
      cases hcounts
    · rw [hothers other hne] at hcounts
      have hfree := hinv.not_locked halive hlocked hne (hdead ▸ hother)
      rw [Phase.locked_of_counts hcounts] at hfree
      cases hfree
  cases hstep with
  | quiet hold hnew hcount hunread =>
    refine ⟨by rw [hcount, hunread]; exact h.le_succ, fun hnone ↦ ?_, fun other hother hcounts ↦ ?_⟩
    · rw [hcount, hunread]
      apply h.le
      intro other hother
      by_cases hne : other = thread
      · rw [hne, hold]
      · rw [← hothers other hne]
        exact hnone other (hdead ▸ hother)
    · rw [hcount, hunread]
      by_cases hne : other = thread
      · rw [hne, hself, hnew.2] at hcounts
        cases hcounts
      · rw [hothers other hne] at hcounts
        exact h.counting other (hdead ▸ hother) hcounts
  | storeTail hold hnew hcount hunread =>
    have hle := h.le_of_locked hinv halive hold.1 hold.2
    exact ⟨by omega, fun _ ↦ by omega, fun _ _ _ ↦ by omega⟩
  | addCount hold hnew hcount hunread =>
    have hle := h.counting thread halive hold.2
    exact ⟨by omega, fun _ ↦ by omega, fun other hother hcounts ↦ (hcounting hold.1 hnew.2 other hother hcounts).elim⟩
  | pop hold hnew hcount hunread =>
    have hle := h.le_of_locked hinv halive hold.1 hold.2
    refine ⟨by omega, fun hnone ↦ ?_, fun other hother hcounts ↦ (hcounting hold.1 hnew.2 other hother hcounts).elim⟩
    have hfalse := hnone thread (hdead ▸ halive)
    rw [hself, hnew.1] at hfalse
    cases hfalse
  | storeCount hold hnew hcount hunread =>
    have hle := h.le_succ
    exact ⟨by omega, fun _ ↦ by omega, fun other hother hcounts ↦ (hcounting hold hnew.2 other hother hcounts).elim⟩
  | resync hold hnew hcount hunread =>
    exact ⟨by omega, fun _ ↦ by omega, fun other hother hcounts ↦ (hcounting hold hnew.2 other hother hcounts).elim⟩

/-- No consumer dies between its `head` store and its `count` store: that thread holds the lock. -/
def diesCounted (pid : ℕ → UInt32) (state : State) : Action → Bool
  | .act _ _ => true
  | .die process =>
    match state.lock with
    | none => true
    | some holder => !(pid holder == process && (state.phase holder).owes)

/-- So does a death, but that of a consumer between its two stores. -/
theorem CountLe.die (h : CountLe pid state) (hinv : Inv queue pid state) {process : UInt32}
    (hcounted : diesCounted pid state (.die process) = true) :
    CountLe pid { state with dead := Function.update state.dead process true } := by
  have hbefore (other : ℕ) (hother : Function.update state.dead process true (pid other) = false) :
      state.dead (pid other) = false ∧ pid other ≠ process := by
    by_cases hpid : pid other = process
    · rw [hpid, Function.update_self] at hother
      cases hother
    · rw [Function.update_of_ne hpid] at hother
      exact ⟨hother, hpid⟩
  refine ⟨h.le_succ, fun hnone ↦ ?_, fun other hother ↦ h.counting other (hbefore other hother).1⟩
  apply h.le
  intro other hother
  by_contra howes
  rw [Bool.not_eq_false] at howes
  have hlock := (hinv.threads other).locked hother (Phase.locked_of_owes howes)
  simp only [diesCounted, hlock, howes, Bool.and_true, Bool.not_eq_true', beq_eq_false_iff_ne] at hcounted
  have hfalse := hnone other (by dsimp only; rw [Function.update_of_ne hcounted, hother])
  dsimp only at hfalse
  rw [howes] at hfalse
  cases hfalse

/-! ## Who finds the queue empty -/

/-- A consumer asks for at least one item, and ends with none only after it has found the ring
empty and reset the count. -/
def ConsumerOk (shared : Shared) : Phase → Prop
  | .get get | .getLocked get | .popping get _ | .popCount get _ => 0 < get.limit
  | .resyncing get _ => 0 < get.limit ∧ shared.head = shared.tail
  | .finishing get got => 0 < get.limit ∧ (got = [] → shared.head = shared.tail ∧ shared.count = 0)
  | _ => True

/-- Outside the critical sections `ConsumerOk` does not look at the ring. -/
theorem ConsumerOk.congr {shared shared' : Shared} (h : ConsumerOk shared phase)
    (hsame : phase.locked = true → shared'.head = shared.head ∧ shared'.tail = shared.tail ∧
      shared'.count = shared.count) : ConsumerOk shared' phase := by
  cases phase with
  | resyncing get got =>
    obtain ⟨hhead, htail, -⟩ := hsame rfl
    exact ⟨h.1, (hhead.trans h.2).trans htail.symm⟩
  | finishing get got =>
    obtain ⟨hhead, htail, hcount⟩ := hsame rfl
    refine ⟨h.1, fun hgot ↦ ?_⟩
    obtain ⟨hempty, hzero⟩ := h.2 hgot
    exact ⟨(hhead.trans hempty).trans htail.symm, hcount.trans hzero⟩
  | _ => exact h

/-- A thread outside the critical sections leaves offsets and count alone. -/
theorem moveStep_outside {move : Move} (hlocked : (state.phase thread).locked = false)
    (hnext : moveStep queue pid state thread move = some next) :
    next.shared.head = state.shared.head ∧ next.shared.tail = state.shared.tail ∧
      next.shared.count = state.shared.count := by
  cases moveStep_cases hnext with
  | spill put result hphase hmust hunspilled hspill => exact (spill_frame hspill).shared ▸ ⟨rfl, rfl, rfl⟩
  | putAbort put hphase =>
    exact ⟨clearPending_head _ _, clearPending_tail _ _, clearPending_count _ _⟩
  | materialize popped rest hphase =>
    unfold materializeNext
    split <;> exact ⟨rfl, rfl, rfl⟩
  | putBegin | acquirePut | acquireGet | interrupted | wake | getBegin => exact ⟨rfl, rfl, rfl⟩
  | putDecide _ _ hphase | store _ _ _ _ _ hphase | storeTail _ _ hphase | addCount _ hphase | putDone _ hphase
    | getItems _ _ hphase | getExpired _ _ hphase | getAgain _ _ hphase | popEnough _ _ hphase | popEmpty _ _ hphase
    | pop _ _ hphase | storeCount _ _ hphase | resync _ _ hphase | finishRead _ _ _ hphase | finishMany _ hphase
    | finishAgain _ hphase =>
    rw [hphase] at hlocked
    cases hlocked

theorem consumerOk_move {move : Move} (h : ConsumerOk state.shared (state.phase thread))
    (hnext : moveStep queue pid state thread move = some next) :
    ConsumerOk next.shared (next.phase thread) := by
  cases moveStep_cases hnext with
  | spill put result hphase hmust hunspilled hspill =>
    rcases (spill_frame hspill).phase with hnew | ⟨put', hnew⟩ <;> rw [hnew, Function.update_self] <;> trivial
  | putDecide put clock hphase =>
    unfold putDecide
    dsimp only
    repeat' split
    all_goals
      rw [goto_phase]
      trivial
  | acquireGet _ hphase | getItems _ _ hphase | getAgain _ _ hphase | storeCount _ _ hphase =>
    rw [hphase] at h
    rw [goto_phase]
    exact h
  | getBegin get hphase =>
    rw [goto_phase]
    show 0 < if get.many then max get.limit 1 else 1
    split <;> omega
  | popEnough get got hphase hfull =>
    rw [hphase] at h
    have hlimit : 0 < get.limit := h
    rw [goto_phase]
    refine ⟨hlimit, fun hgot ↦ ?_⟩
    rw [hgot, List.length_nil] at hfull
    omega
  | popEmpty get got hphase hempty =>
    rw [hphase] at h
    rw [goto_phase]
    exact ⟨h, hempty⟩
  | pop get got hphase hne =>
    rw [hphase] at h
    rw [goto_phase]
    exact h
  | resync get got hphase =>
    rw [hphase] at h
    rw [goto_phase]
    exact ⟨h.1, fun _ ↦ ⟨h.2, rfl⟩⟩
  | finishAgain get hphase =>
    rw [hphase] at h
    rw [goto_phase]
    exact h.1
  | materialize popped rest hphase =>
    unfold materializeNext
    split <;> rw [goto_phase]
    · split <;> trivial
    · trivial
  | _ =>
    rw [goto_phase]
    trivial

/-- The ring invariant, the bound on the count, and what live consumers know. -/
structure Healthy (queue : RingQueue) (pid : ℕ → UInt32) (state : State) : Prop where
  inv : Inv queue pid state
  count : CountLe pid state
  consumers : ∀ thread, state.dead (pid thread) = false → ConsumerOk state.shared (state.phase thread)

/-- In-ring payloads fit their header word, and no consumer dies before its `count` store. -/
def mends (queue : Header) (pid : ℕ → UInt32) (state : State) (action : Action) : Bool :=
  ridesWhole queue state action && diesCounted pid state action

theorem healthy_start : Healthy queue pid .start where
  inv := inv_start
  count := ⟨Nat.zero_le _, fun _ ↦ Nat.zero_le _, by intro _ _ hcounts; cases hcounts⟩
  consumers := fun _ _ ↦ trivial

/-- What every step of a run that mends preserves. -/
theorem Healthy.step (h : Healthy queue pid state) {action : Action} (hmends : mends queue pid state action = true)
    (hnext : step queue pid state action = some next) : Healthy queue pid next := by
  rw [mends, Bool.and_eq_true] at hmends
  refine ⟨h.inv.step hmends.1 hnext, ?_, ?_⟩
  · cases action with
    | act thread move =>
      simp only [Ring.step, Option.ite_none_left_eq_some, Bool.not_eq_true] at hnext
      obtain ⟨phase, hphase, hdead, hcount⟩ := moveStep_countStep h.inv hnext.2
      exact h.count.act h.inv hnext.1 hphase hdead hcount
    | die process =>
      cases hnext
      exact h.count.die h.inv hmends.2
  · intro other hother
    cases action with
    | act thread move =>
      simp only [Ring.step, Option.ite_none_left_eq_some, Bool.not_eq_true] at hnext
      obtain ⟨phase, hphase, hdead, -⟩ := moveStep_countStep h.inv hnext.2
      rw [hdead] at hother
      by_cases hne : other = thread
      · rw [hne]
        exact consumerOk_move (h.consumers thread hnext.1) hnext.2
      · rw [hphase, Function.update_of_ne hne]
        apply (h.consumers other hother).congr
        intro hlocked
        exact moveStep_outside (h.inv.not_locked hother hlocked (Ne.symm hne) hnext.1) hnext.2
    | die process =>
      cases hnext
      apply h.consumers other
      by_contra hcontra
      rw [Bool.not_eq_false] at hcontra
      dsimp only at hother
      by_cases hpid : pid other = process
      · rw [hpid, Function.update_self] at hother
        cases hother
      · rw [Function.update_of_ne hpid, hcontra] at hother
        cases hother

/-- In every state of such a run the count is at most what is unread. -/
theorem healthy_of_reachable (h : ((machine queue pid).restrict (mends queue pid)).Reachable state) :
    Healthy queue pid state := by
  refine h.invariant (Healthy queue pid) healthy_start ?_
  intro state action next hstate hstep
  obtain ⟨hmends, hnext⟩ := Machine.restrict_step hstep
  exact hstate.step hmends hnext

/-- A get or get_many of this thread has found the queue empty and returned nothing. -/
def ReturnsNothing (queue : Header) (pid : ℕ → UInt32) (state : State) (consumer : ℕ) (next : State) : Prop :=
  next.phase consumer = .idle ∧
    ((∃ clock, (machine queue pid).step state (.act consumer (.getCheck clock)) = some next) ∨
      (machine queue pid).step state (.act consumer .finishPops) = some next ∧
        ∃ get, state.phase consumer = .finishing get [])

/-- In a critical section, past its first look at the ring. -/
def Phase.working : Phase → Bool
  | .storing _ _ _ | .counting _ | .putRelease _ | .popping _ _ | .popCount _ _ | .resyncing _ _
  | .finishing _ _ => true
  | _ => false

theorem Phase.locked_of_working (h : phase.working = true) : phase.locked = true := by
  cases phase <;> first | rfl | cases h

/-- Empty by its offsets and by its count, with no live thread at work on it. -/
structure Hollow (pid : ℕ → UInt32) (state : State) : Prop where
  empty : state.shared.head = state.shared.tail
  zero : state.shared.count = 0
  still : ∀ thread, state.dead (pid thread) = false → (state.phase thread).working = false

/-- A live thread that leaves its critical section leaves nobody at work. -/
theorem Inv.still_of_leaves (h : Inv queue pid state) (halive : state.dead (pid thread) = false)
    (hlocked : (state.phase thread).locked = true) (hphase : next.phase = Function.update state.phase thread phase)
    (hdead : next.dead = state.dead) (hself : phase.working = false) (other : ℕ)
    (hother : next.dead (pid other) = false) : (next.phase other).working = false := by
  rw [hphase]
  by_cases hne : other = thread
  · rw [hne, Function.update_self, hself]
  · rw [Function.update_of_ne hne]
    by_contra hcontra
    have hfree := h.not_locked halive hlocked hne (hdead ▸ hother)
    rw [Phase.locked_of_working (by simpa using hcontra)] at hfree
    cases hfree

/-- Whoever returns nothing leaves a hollow queue. -/
theorem Healthy.hollow (h : Healthy queue pid state) {consumer : ℕ}
    (hnothing : ReturnsNothing queue pid state consumer next) : Hollow pid next := by
  obtain ⟨hidle, ⟨clock, hstep⟩ | ⟨hstep, get, hphase⟩⟩ := hnothing
  · simp only [machine, Ring.step, Option.ite_none_left_eq_some, Bool.not_eq_true] at hstep
    obtain ⟨halive, hnext⟩ := hstep
    cases hphase : state.phase consumer with
    | getLocked get =>
      have hlocked : (state.phase consumer).locked = true := by rw [hphase]; rfl
      simp only [moveStep, hphase] at hnext
      split at hnext
      · cases hnext
        rw [goto_phase] at hidle
        cases hidle
      · rename_i hempty
        rw [ne_eq, not_not] at hempty
        have hle := h.count.le_of_locked h.inv halive hlocked (by rw [hphase]; rfl)
        rw [h.inv.unread_zero hempty, Nat.le_zero] at hle
        split at hnext <;> cases hnext
        · exact ⟨hempty, hle, h.inv.still_of_leaves halive hlocked rfl rfl rfl⟩
        · exact ⟨hempty, hle, h.inv.still_of_leaves halive hlocked rfl rfl rfl⟩
    | _ => simp [moveStep, hphase] at hnext
  · simp only [machine, Ring.step, Option.ite_none_left_eq_some, Bool.not_eq_true] at hstep
    obtain ⟨halive, hnext⟩ := hstep
    have hlocked : (state.phase consumer).locked = true := by rw [hphase]; rfl
    have hconsumer := h.consumers consumer halive
    rw [hphase] at hconsumer
    obtain ⟨hempty, hzero⟩ := hconsumer.2 rfl
    simp only [moveStep, hphase] at hnext
    cases hnext
    rw [goto_phase] at hidle
    exact ⟨hempty, hzero, h.inv.still_of_leaves halive hlocked rfl rfl (by rw [hidle]; rfl)⟩

/-! ## The next put -/

def reads (state : State) (thread : ℕ) : Move → Bool
  | .getBegin _ | .getCheck _ | .pop | .storeCount | .resync | .finishPops | .materialize => true
  | .acquire =>
    match state.phase thread with
    | .get _ => true
    | _ => false
  | _ => false

def onlyReads (state : State) : Action → Bool
  | .act thread move => reads state thread move
  | .die _ => true

/-- A move of a put whose spill finds room somewhere. -/
def places : Move → Bool
  | .spill .shm | .spill .file | .acquire | .putDecide _ | .store | .storeTail | .addCount | .putDone => true
  | _ => false

/-- One thread puts while others only get, and processes may die. -/
def onlyPut (thread : ℕ) (state : State) : Action → Bool
  | .act other move => if other = thread then places move else reads state other move
  | .die _ => true

/-- What a read leaves alone, and that a hollow queue stays hollow. -/
theorem reads_frame {move : Move} (hreads : reads state thread move = true)
    (hnext : moveStep queue pid state thread move = some next) :
    (∃ phase, next.phase = Function.update state.phase thread phase) ∧ next.putReturns = state.putReturns ∧
      next.calls = state.calls ∧ next.dead = state.dead := by
  cases moveStep_cases hnext with
  | acquirePut put hphase => simp [reads, hphase] at hreads
  | putBegin | spill | putDecide | store | storeTail | addCount | putDone | interrupted | wake | putAbort =>
    cases hreads
  | materialize popped rest hphase =>
    unfold materializeNext
    split <;> exact ⟨⟨_, rfl⟩, rfl, rfl, rfl⟩
  | _ => exact ⟨⟨_, rfl⟩, rfl, rfl, rfl⟩

theorem Hollow.move (h : Hollow pid state) (hhead : next.shared.head = state.shared.head)
    (htail : next.shared.tail = state.shared.tail) (hcount : next.shared.count = state.shared.count)
    (hphase : next.phase = Function.update state.phase thread phase) (hdead : next.dead = state.dead)
    (hself : phase.working = false) : Hollow pid next where
  empty := by rw [hhead, htail, h.empty]
  zero := by rw [hcount, h.zero]
  still other hother := by
    rw [hphase]
    by_cases hne : other = thread
    · rw [hne, Function.update_self, hself]
    · rw [Function.update_of_ne hne]
      exact h.still other (hdead ▸ hother)

theorem Hollow.die (h : Hollow pid state) (process : UInt32) :
    Hollow pid { state with dead := Function.update state.dead process true } := by
  refine ⟨h.empty, h.zero, fun other hother ↦ h.still other ?_⟩
  dsimp only at hother
  by_cases hpid : pid other = process
  · rw [hpid, Function.update_self] at hother
    cases hother
  · rwa [Function.update_of_ne hpid] at hother

/-- Gets find nothing in a hollow queue and leave it hollow. -/
theorem Hollow.read (h : Hollow pid state) (halive : state.dead (pid thread) = false) {move : Move}
    (hreads : reads state thread move = true) (hnext : moveStep queue pid state thread move = some next) :
    Hollow pid next := by
  have hstill := h.still thread halive
  cases moveStep_cases hnext with
  | acquirePut put hphase => simp [reads, hphase] at hreads
  | putBegin | spill | putDecide | store | storeTail | addCount | putDone | interrupted | wake | putAbort =>
    cases hreads
  | getItems get clock hphase hne => exact absurd h.empty hne
  | popEnough _ _ hphase | popEmpty _ _ hphase | pop _ _ hphase | storeCount _ _ hphase | resync _ _ hphase
    | finishRead _ _ _ hphase | finishMany _ hphase | finishAgain _ hphase =>
    rw [hphase] at hstill
    cases hstill
  | materialize popped rest hphase =>
    unfold materializeNext
    split
    · refine h.move rfl rfl rfl rfl rfl ?_
      split <;> rfl
    · exact h.move rfl rfl rfl rfl rfl rfl
  | acquireGet | getBegin | getExpired | getAgain => exact h.move rfl rfl rfl rfl rfl rfl

theorem Hollow.reads {actions : List Action} (h : Hollow pid state)
    (hrun : ((machine queue pid).restrict onlyReads).runFrom state actions = some next) : Hollow pid next := by
  refine Machine.run_invariant (Hollow pid) ?_ h hrun
  intro state action next hstate hstep
  obtain ⟨hallowed, hnext⟩ := Machine.restrict_step hstep
  cases action with
  | act thread move =>
    simp only [machine, Ring.step, Option.ite_none_left_eq_some, Bool.not_eq_true] at hnext
    exact hstate.read hnext.1 hallowed hnext.2
  | die process =>
    cases hnext
    exact hstate.die process

/-- A ring that is empty by its count has a slot. -/
theorem Hollow.hasSlot (h : Hollow pid state) : hasSlot queue state.shared = true := by
  rw [Ring.hasSlot, h.zero]
  simp [Nat.pos_iff_ne_zero, Classical.em]

/-- A record that takes up at most half the ring fits an empty one, wherever it starts. -/
theorem hasRoom_of_empty {shared : Shared} {record : Record} (hempty : shared.head = shared.tail)
    (hsize : 2 * record.size ≤ queue.cap) : hasRoom queue shared record = true := by
  rw [hasRoom_iff, hempty]
  unfold padding
  split <;> omega

/-- What a put will place next takes up at most half the ring. -/
structure Small (queue : RingQueue) (put : PutCall) : Prop where
  inline : put.mustSpill = false → put.data.length ≤ queue.spillAt
  spilled : ∀ record, put.spilled = some record → record.payload.length ≤ 85

theorem Small.size {put : PutCall} (h : Small queue put) (hready : (put.mustSpill && put.spilled.isNone) = false) :
    2 * put.record.size ≤ queue.cap := by
  have hcap := queue.min_le_cap
  have hspill := queue.spillAt_le
  unfold PutCall.record
  cases hspilled : put.spilled with
  | none =>
    simp only [hspilled, Option.isNone_none, Bool.and_true] at hready
    have hinline := h.inline hready
    simp only [Option.getD_none, Record.size, recHdr, align8]
    omega
  | some record =>
    have hlength := h.spilled record hspilled
    simp only [Option.getD_some, Record.size, recHdr, align8]
    omega

/-- The put of `thread` that began with these answers: it is accepted or has not been answered. -/
def Accepted (queue : RingQueue) (pid : ℕ → UInt32) (thread call : ℕ) (returns : List (ℕ × Bool))
    (state : State) : Prop :=
  match state.phase thread with
  | .put put => Hollow pid state ∧ Small queue put ∧ put.call = call ∧ state.putReturns = returns
  | .putLocked put => Hollow pid state ∧ Small queue put ∧ put.call = call ∧ state.putReturns = returns ∧
      (put.mustSpill && put.spilled.isNone) = false
  | .storing put _ _ | .counting put | .putRelease put => put.call = call ∧ state.putReturns = returns
  | .idle => state.putReturns = returns ++ [(call, true)]
  | _ => False

section Accepted

variable {call : ℕ} {returns : List (ℕ × Bool)}

/-- The put begins on a hollow queue. -/
theorem Hollow.begin (h : Hollow pid state) {data : Bytes} {disk : Bool}
    (hbegin : (machine queue pid).step state (.act thread (.putBegin data .nonblocking disk)) = some next) :
    Accepted queue pid thread state.calls state.putReturns next ∧ state.dead (pid thread) = false ∧
      next = State.goto { state with calls := state.calls + 1 } thread
        (.put ⟨state.calls, data, .nonblocking, disk, queue.spillAt < data.length, none, none⟩) := by
  simp only [machine, Ring.step, Option.ite_none_left_eq_some, Bool.not_eq_true] at hbegin
  obtain ⟨halive, hnext⟩ := hbegin
  cases hphase : state.phase thread with
  | idle =>
    simp only [moveStep, hphase, Option.ite_none_right_eq_some, Option.some.injEq] at hnext
    obtain ⟨_, rfl⟩ := hnext
    refine ⟨?_, halive, rfl⟩
    rw [Accepted, goto_phase]
    refine ⟨h.move rfl rfl rfl rfl rfl rfl, ⟨fun hmust ↦ ?_, by simp⟩, rfl, rfl⟩
    exact Nat.not_lt.mp (of_decide_eq_false hmust)
  | _ => simp [moveStep, hphase] at hnext

/-- What others do leaves the put where it is. -/
theorem Accepted.frame (h : Accepted queue pid thread call returns state)
    (hphase : next.phase thread = state.phase thread) (hreturns : next.putReturns = state.putReturns)
    (hhollow : Hollow pid state → Hollow pid next) : Accepted queue pid thread call returns next := by
  unfold Accepted at h ⊢
  rw [hphase, hreturns]
  cases hput : state.phase thread with
  | put put | putLocked put =>
    rw [hput] at h
    exact ⟨hhollow h.1, h.2⟩
  | _ => rwa [hput] at h

theorem Accepted.spill {put : PutCall} (h : Accepted queue pid thread call returns state)
    (hphase : state.phase thread = .put put) (hmust : put.mustSpill = true) (medium : Medium)
    (hnext : spill queue pid state thread put medium.result = some next) :
    Accepted queue pid thread call returns next := by
  rw [Accepted, hphase] at h
  obtain ⟨hhollow, -, hcall, hreturns⟩ := h
  have hpid : (pid thread).toNat < 2 ^ 32 := (pid thread).toNat_lt
  have hinline : put.mustSpill = false → put.data.length ≤ queue.spillAt := by
    rw [hmust]
    intro hfalse
    cases hfalse
  cases medium with
  | shm =>
    simp only [Medium.result, Ring.spill, Option.ite_none_left_eq_some, Bool.or_eq_true, decide_eq_true_eq, not_or,
      Nat.not_le, Option.some.injEq] at hnext
    obtain ⟨⟨_, hcounter⟩, rfl⟩ := hnext
    rw [Accepted, goto_phase]
    refine ⟨hhollow.move rfl rfl rfl rfl rfl rfl, ⟨hinline, ?_⟩, hcall, hreturns⟩
    rintro record ⟨⟩
    have hname : (Sys.spillObjectName queue.name (pid thread).toNat (state.spills (pid thread))).length ≤
        queue.name.length + 26 := Sys.spillObjectName_length_le hpid hcounter
    have hring := queue.name_length_le
    simp only [spillRecord, List.length_append, leBytes_length]
    omega
  | disk =>
    simp only [Medium.result, Ring.spill, Option.ite_none_left_eq_some, Nat.not_le, Option.some.injEq] at hnext
    obtain ⟨hcounter, rfl⟩ := hnext
    rw [Accepted, goto_phase]
    refine ⟨hhollow.move rfl rfl rfl rfl rfl rfl, ⟨hinline, ?_⟩, hcall, hreturns⟩
    rintro record ⟨⟩
    have hname := Sys.fileSpillName_length_le hpid hcounter
    simp only [spillRecord, List.length_append, leBytes_length]
    omega

/-- A hollow queue has a slot and room, so the put goes on to store its record. -/
theorem Accepted.decide {put : PutCall} (h : Accepted queue pid thread call returns state)
    (hphase : state.phase thread = .putLocked put) (clock : Bool) :
    Accepted queue pid thread call returns (putDecide queue state thread put clock) := by
  rw [Accepted, hphase] at h
  obtain ⟨hhollow, hsmall, hcall, hreturns, hready⟩ := h
  have hslot : hasSlot queue state.shared = true := hhollow.hasSlot
  have hroom : hasRoom queue state.shared put.record = true :=
    hasRoom_of_empty hhollow.empty (hsmall.size hready)
  unfold putDecide
  dsimp only
  rw [hslot, hroom, Bool.and_self, if_pos rfl, Accepted, goto_phase]
  exact ⟨hcall, hreturns⟩

theorem Accepted.place (h : Accepted queue pid thread call returns state) {move : Move}
    (hplaces : places move = true) (hnext : moveStep queue pid state thread move = some next) :
    Accepted queue pid thread call returns next := by
  cases moveStep_cases hnext with
  | spill put result hphase hmust hunspilled hspill =>
    cases result with
    | shm => exact h.spill hphase hmust .shm hspill
    | file => exact h.spill hphase hmust .disk hspill
    | noSpace | failed => cases hplaces
  | acquirePut put hphase hready hlockable =>
    rw [Accepted, hphase] at h
    obtain ⟨hhollow, hsmall, hcall, hreturns⟩ := h
    rw [Accepted, goto_phase]
    exact ⟨hhollow.move rfl rfl rfl rfl rfl rfl, hsmall, hcall, hreturns, hready⟩
  | acquireGet get hphase =>
    rw [Accepted, hphase] at h
    exact h.elim
  | putDecide put clock hphase => exact h.decide hphase clock
  | store _ _ _ _ _ hphase | storeTail _ _ hphase | addCount _ hphase =>
    rw [Accepted, hphase] at h
    rw [Accepted, goto_phase]
    exact h
  | putDone put hphase =>
    rw [Accepted, hphase] at h
    obtain ⟨hcall, hreturns⟩ := h
    rw [Accepted, goto_phase]
    simp [State.goto, hcall, hreturns]
  | _ => cases hplaces

/-- A put of a small record that found the ring hollow is not turned down, step by step. -/
theorem Accepted.step {action : Action} (h : Accepted queue pid thread call returns state)
    (hallowed : onlyPut thread state action = true) (hnext : step queue pid state action = some next) :
    Accepted queue pid thread call returns next := by
  cases action with
  | act other move =>
    simp only [Ring.step, Option.ite_none_left_eq_some, Bool.not_eq_true] at hnext
    obtain ⟨halive, hmove⟩ := hnext
    rw [onlyPut] at hallowed
    split at hallowed
    · rename_i hother
      subst hother
      exact h.place hallowed hmove
    · rename_i hne
      obtain ⟨⟨phase, hphase⟩, hreturns, -, -⟩ := reads_frame hallowed hmove
      apply h.frame _ hreturns
      · exact fun hhollow ↦ hhollow.read halive hallowed hmove
      · rw [hphase, Function.update_of_ne (Ne.symm hne)]
  | die process =>
    cases hnext
    exact h.frame rfl rfl fun hhollow ↦ hhollow.die process

/-- Nor is it over a whole run. -/
theorem Accepted.run {actions : List Action} (h : Accepted queue pid thread call returns state)
    (hrun : ((machine queue pid).restrict (onlyPut thread)).runFrom state actions = some next) :
    Accepted queue pid thread call returns next := by
  refine Machine.run_invariant (Accepted queue pid thread call returns) ?_ h hrun
  intro state action next hstate hstep
  obtain ⟨hallowed, hnext⟩ := Machine.restrict_step hstep
  exact hstate.step hallowed hnext

/-- A put at its loop top, ready to place its record, can go on to its end. -/
theorem Accepted.ends {put : PutCall} (h : Accepted queue pid thread call returns state)
    (hphase : state.phase thread = .put put) (hready : (put.mustSpill && put.spilled.isNone) = false)
    (hpending : put.pending = none) (halive : state.dead (pid thread) = false) (hlock : lockable pid state = true) :
    ∃ actions next, ((machine queue pid).restrict (onlyPut thread)).runFrom state actions = some next ∧
      next.phase thread = .idle := by
  rw [Accepted, hphase] at h
  obtain ⟨hhollow, hsmall, -, -⟩ := h
  have hslot : hasSlot queue state.shared = true := hhollow.hasSlot
  have hroom : hasRoom queue state.shared put.record = true :=
    hasRoom_of_empty hhollow.empty (hsmall.size hready)
  have hrun := run_publish halive hlock hphase hready hpending hslot hroom
  refine ⟨_, _, (Machine.restrict_runFrom ?_ state).trans hrun, goto_phase _ _ _⟩
  intro action haction _
  simp only [publishMoves, List.mem_cons, List.mem_append, List.mem_replicate, List.not_mem_nil,
    or_false] at haction
  rcases haction with rfl | rfl | ⟨_, rfl⟩ | rfl | rfl | rfl <;> simp [onlyPut, places]

/-- A put that must spill writes its spill object first. -/
theorem Accepted.ends_of_spill {put : PutCall} {medium : Medium} (h : Accepted queue pid thread call returns state)
    (hphase : state.phase thread = .put put) (hmust : put.mustSpill = true) (hnone : put.spilled = none)
    (hpending : put.pending = none) (halive : state.dead (pid thread) = false) (hlock : lockable pid state = true)
    (havailable : canSpill queue pid state thread put.disk medium = true) :
    ∃ actions next, ((machine queue pid).restrict (onlyPut thread)).runFrom state actions = some next ∧
      next.phase thread = .idle := by
  obtain ⟨middle, record, hspill, hdead, hkeeps, -, hphase'⟩ := spill_available havailable
  have hmove : moveStep queue pid state thread (.spill medium.result) = some middle := by
    simp only [moveStep, hphase, hmust, hnone, Option.isNone_none, Bool.and_self, if_true]
    exact hspill
  have hlock' : lockable pid middle = true := by
    rw [lockable, hkeeps, hdead]
    exact hlock
  obtain ⟨actions, next, hrun, hidle⟩ :=
    (h.spill hphase hmust medium hspill).ends hphase' (by simp) hpending (hdead ▸ halive) hlock'
  have hallowed : onlyPut thread state (.act thread (.spill medium.result)) = true := by
    cases medium <;> simp [onlyPut, places, Medium.result]
  refine ⟨.act thread (.spill medium.result) :: actions, next, Machine.runFrom_step ?_ hrun, hidle⟩
  exact (if_pos hallowed).trans (step_act halive hmove)

end Accepted

section NextPut

variable (queue : Header) (pid : ℕ → UInt32) (state : State)

/-- Nothing is counted, and after any gets and deaths the next non-blocking put is accepted: it
comes to an end if it can take the lock, and it is never answered otherwise, whatever gets and
deaths fall between its steps. -/
structure TakesNextPut : Prop where
  qsize : state.shared.count = 0
  answer : ∀ {actions more : List Action} {before begun next : State} {thread : ℕ} {data : Bytes} {disk : Bool},
    ((machine queue pid).restrict onlyReads).runFrom state actions = some before →
      (machine queue pid).step before (.act thread (.putBegin data .nonblocking disk)) = some begun →
        ((machine queue pid).restrict (onlyPut thread)).runFrom begun more = some next →
          next.phase thread = .idle → next.putReturns = before.putReturns ++ [(before.calls, true)]
  ends : ∀ {actions : List Action} {before begun : State} {thread : ℕ} {data : Bytes} {disk : Bool} (medium : Medium),
    ((machine queue pid).restrict onlyReads).runFrom state actions = some before →
      (machine queue pid).step before (.act thread (.putBegin data .nonblocking disk)) = some begun →
        lockable pid before = true → canSpill queue pid before thread disk medium = true →
          ∃ more next, ((machine queue pid).restrict (onlyPut thread)).runFrom begun more = some next ∧
            next.phase thread = .idle

end NextPut

/-- A hollow ring takes the next put, and says that it holds nothing. -/
theorem Hollow.takesNextPut (h : Hollow pid state) : TakesNextPut queue pid state where
  qsize := h.zero
  answer {_ _ before begun next thread data disk} hreads hbegin hrun hidle := by
    have haccepted := ((h.reads hreads).begin hbegin).1.run hrun
    rwa [Accepted, hidle] at haccepted
  ends {_ before begun thread data disk} medium hreads hbegin hlock hspill := by
    obtain ⟨haccepted, halive, rfl⟩ := (h.reads hreads).begin hbegin
    cases hmust : decide (queue.spillAt < data.length) with
    | false =>
      rw [hmust] at haccepted
      exact haccepted.ends (goto_phase _ _ _) rfl rfl halive hlock
    | true =>
      rw [hmust] at haccepted
      exact haccepted.ends_of_spill (goto_phase _ _ _) rfl rfl rfl halive hlock hspill

/-- An empty ring that nobody has the lock of, or only a dead process, is hollow. -/
theorem Healthy.hollow_of_lockable (h : Healthy queue pid state) (hempty : state.shared.head = state.shared.tail)
    (hlockable : lockable pid state = true) : Hollow pid state where
  empty := hempty
  zero := by
    have hle := h.count.le fun thread halive ↦ by
      by_contra howes
      have hfree := h.inv.not_locked_of_lockable hlockable halive
      rw [Phase.locked_of_owes (by simpa using howes)] at hfree
      cases hfree
    rw [h.inv.unread_zero hempty] at hle
    omega
  still := by
    intro thread halive
    by_contra hworking
    have hfree := h.inv.not_locked_of_lockable hlockable halive
    rw [Phase.locked_of_working (by simpa using hworking)] at hfree
    cases hfree

/-- A put that has the lock of an empty ring finds a free slot. -/
theorem Healthy.hasSlot (h : Healthy queue pid state) (halive : state.dead (pid thread) = false) {put : PutCall}
    (hphase : state.phase thread = .putLocked put) (hempty : state.shared.head = state.shared.tail) :
    Ring.hasSlot queue state.shared = true := by
  have hle := h.count.le_of_locked h.inv halive (by rw [hphase]; rfl) (by rw [hphase]; rfl)
  rw [h.inv.unread_zero hempty, Nat.le_zero] at hle
  rw [Ring.hasSlot, hle, Bool.or_eq_true, beq_iff_eq, decide_eq_true_eq]
  exact Nat.eq_zero_or_pos _

/-- The count has healed: a queue that a get found empty takes the next put, and so does any queue that is
empty by its offsets, which no put that looks at it takes for a full one. -/
structure Heals (queue : Header) (pid : ℕ → UInt32) (state : State) : Prop where
  after_nothing : ∀ consumer next, ReturnsNothing queue pid state consumer next → TakesNextPut queue pid next
  empty_takes : state.shared.head = state.shared.tail → lockable pid state = true → TakesNextPut queue pid state
  empty_hasSlot : state.shared.head = state.shared.tail → ∀ thread put, state.dead (pid thread) = false →
    state.phase thread = .putLocked put → Ring.hasSlot queue state.shared = true

/-- In every ring that lies in its map and every run whose consumers count what they have popped before they
die. -/
theorem takes_next_put_of_mends (maxsize ringBytes : ℕ) (spillAt : Option ℕ) (creator : Sys.Creator)
    (hmap : hdr + align8 (max ringBytes (64 * 1024)) < 2 ^ 64) {queue : Header}
    (hqueue : queue = RingQueue.new maxsize ringBytes spillAt creator) (pid : ℕ → UInt32) (state : State)
    (h : ((machine queue pid).restrict (mends queue pid)).Reachable state) : Heals queue pid state := by
  obtain ⟨made, rfl⟩ : ∃ made : RingQueue, made.toHeader = queue :=
    ⟨.ofNew maxsize ringBytes spillAt creator hmap, hqueue.symm⟩
  have hhealthy := healthy_of_reachable h
  exact {
    after_nothing := fun _ _ hnothing ↦ (hhealthy.hollow hnothing).takesNextPut
    empty_takes := fun hempty hlockable ↦ (hhealthy.hollow_of_lockable hempty hlockable).takesNextPut
    empty_hasSlot := fun hempty _ _ halive hphase ↦ hhealthy.hasSlot halive hphase hempty }

def singleQueue : RingQueue :=
  .ofNew 1 65536 none someCreator small_lt_word

/-- Thread 0 dies before it counts the byte it has published; thread 1, of another process, takes
the lock over and gets the byte, and is about to find the queue empty. -/
def deathBeforeAdd : List Action :=
  [Action.act 0 (.putBegin [7] .forever false), .act 0 .acquire, .act 0 (.putDecide false)] ++
    List.replicate 9 (Action.act 0 .store) ++
    [Action.act 0 .storeTail, .die 0, .act 1 (.getBegin ⟨1, false, .forever⟩), .act 1 .acquire,
      .act 1 (.getCheck false), .act 1 .pop, .act 1 .storeCount, .act 1 .pop, .act 1 .finishPops,
      .act 1 .materialize, .act 1 (.getBegin ⟨1, false, .nonblocking⟩), .act 1 .acquire]

/-- A producer dies before it has counted its item, and a get that finds the ring empty resets the count. -/
theorem takes_next_put_deathBeforeAdd : ∃ state next,
    ((machine singleQueue UInt32.ofNat).restrict (mends singleQueue UInt32.ofNat)).Reachable state ∧
      ReturnsNothing singleQueue UInt32.ofNat state 1 next ∧ next.dead 0 = true ∧
        TakesNextPut singleQueue UInt32.ofNat next := by
  have hrun : (((machine singleQueue UInt32.ofNat).restrict (mends singleQueue UInt32.ofNat)).runFrom .start
      deathBeforeAdd).bind (fun state ↦ ((machine singleQueue UInt32.ofNat).step state
        (.act 1 (.getCheck true))).map fun next ↦ (next.phase 1, next.dead 0)) = some (.idle, true) := by
    decide +kernel
  obtain ⟨state, hstate, hlast⟩ := Option.bind_eq_some_iff.mp hrun
  obtain ⟨next, hnext, hends⟩ := Option.map_eq_some_iff.mp hlast
  rw [Prod.mk.injEq] at hends
  have hreachable : ((machine singleQueue UInt32.ofNat).restrict
      (mends singleQueue UInt32.ofNat)).Reachable state := ⟨deathBeforeAdd, hstate⟩
  have hnothing : ReturnsNothing singleQueue UInt32.ofNat state 1 next := ⟨hends.1, .inl ⟨true, hnext⟩⟩
  exact ⟨state, next, hreachable, hnothing, hends.2,
    (takes_next_put_of_mends 1 65536 none someCreator (by decide) rfl _ state hreachable).after_nothing 1 next
      hnothing⟩

/-- Thread 1 dies between its `head` store and its `count` store; thread 0, of another process, is
about to find the queue empty. -/
def deathBeforeCount : List Action :=
  [Action.act 0 (.putBegin [7] .forever false), .act 0 .acquire, .act 0 (.putDecide false)] ++
    List.replicate 9 (Action.act 0 .store) ++
    [Action.act 0 .storeTail, .act 0 .addCount, .act 0 .putDone, .act 1 (.getBegin ⟨1, false, .forever⟩),
      .act 1 .acquire, .act 1 (.getCheck false), .act 1 .pop, .die 1,
      .act 0 (.getBegin ⟨1, false, .nonblocking⟩), .act 0 .acquire]

/-- One item stays counted in an empty queue. -/
theorem not_takes_next_put : ¬∀ (maxsize ringBytes : ℕ) (spillAt : Option ℕ) (creator : Sys.Creator)
    (pid : ℕ → UInt32) (state : State), 1 ≤ maxsize →
    (machine (RingQueue.new maxsize ringBytes spillAt creator) pid).Reachable state →
      Heals (RingQueue.new maxsize ringBytes spillAt creator) pid state := by
  intro hall
  have hrun : ((machine singleQueue UInt32.ofNat).runFrom .start deathBeforeCount).bind
      (fun state ↦ ((machine singleQueue UInt32.ofNat).step state (.act 0 (.getCheck true))).map
        fun next ↦ (next.phase 0, next.shared.count)) = some (.idle, 1) := by
    decide +kernel
  obtain ⟨state, hstate, hlast⟩ := Option.bind_eq_some_iff.mp hrun
  obtain ⟨next, hnext, hends⟩ := Option.map_eq_some_iff.mp hlast
  rw [Prod.mk.injEq] at hends
  have htakes := (hall 1 65536 none someCreator UInt32.ofNat state le_rfl ⟨deathBeforeCount, hstate⟩).after_nothing
    0 next ⟨hends.1, .inl ⟨true, hnext⟩⟩
  have hzero := htakes.qsize
  rw [hends.2] at hzero
  cases hzero

end GpuPipe.Ring
