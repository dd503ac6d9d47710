import GpuPipe.Store.Cap

/-!
# The counters cover the segments

`alloc` counts a regular segment before it creates it and takes the count back, under the lock, when that
fails; `alloc_dedicated` never takes its number back. `Store::unlink` trusts the two counters. Below,
`shm_map_io` is taken apart: the object exists from `shm_open` on, and a failure after that removes its name
before the caller goes on, so a process may die with or without a segment behind it.
-/

namespace GpuPipe.Store

/-- The name a thread is about to create or has created and not yet published. -/
def Phase.key : Phase → Option (ℕ × Bool)
  | .creating _ id => some (id, false)
  | .dedCreate _ _ id => some (id, true)
  | _ => none

/-- On the way to a new segment. -/
def Phase.mayCreate : Phase → Bool
  | .alloc _ | .allocLocked _ | .creating _ _ | .dedReserve _ _ | .dedId _ _ | .dedCreate _ _ _ => true
  | _ => false

theorem Phase.mayCreate_of_key {phase : Phase} {key : ℕ × Bool} (h : phase.key = some key) :
    phase.mayCreate = true := by
  cases phase with
  | creating | dedCreate => rfl
  | _ => cases h

theorem Phase.locked_of_key {phase : Phase} {id : ℕ} (h : phase.key = some (id, false)) :
    phase.locked = true := by
  cases phase with
  | creating => rfl
  | _ => cases h

def Move.isCreate : Move → Bool
  | .create _ => true
  | _ => false

def Move.isAlloc : Move → Bool
  | .alloc _ => true
  | _ => false

section Naming

variable {store : PayloadStore} {pid : ℕ → UInt32} {state next : State} {thread : ℕ}

/-- What a move other than a creation does to names: it creates none, and either leaves the counters or takes
one number for the thread. -/
inductive Naming (state next : State) (thread : ℕ) (move : Move) : Prop
  | keeps (hnreg : next.ctl.nreg = state.ctl.nreg) (hnded : next.ctl.nded = state.ctl.nded)
      (hsegments : ∀ key, next.segments key ≠ none → state.segments key ≠ none)
      (hkey : (next.phase thread).key = none)
      (hcreate : (next.phase thread).mayCreate = true →
        (state.phase thread).mayCreate = true ∨ move.isAlloc = true)
  | grows (request : Request) (hphase : state.phase thread = .allocLocked request)
      (hnreg : next.ctl.nreg = state.ctl.nreg + 1) (hnded : next.ctl.nded = state.ctl.nded)
      (hsegments : next.segments = state.segments)
      (hnext : next.phase thread = .creating request state.ctl.nreg)
  | takes (nbytes size : ℕ) (hphase : state.phase thread = .dedId nbytes size)
      (hnreg : next.ctl.nreg = state.ctl.nreg) (hnded : next.ctl.nded = state.ctl.nded + 1)
      (hsegments : next.segments = state.segments)
      (hnext : next.phase thread = .dedCreate nbytes size state.ctl.nded)

/-- A move that leaves the counters and the segments alone. -/
theorem naming_keeps {move : Move} {before after : Phase} (hbefore : state.phase thread = before)
    (hphase : next.phase = Function.update state.phase thread after)
    (hnreg : next.ctl.nreg = state.ctl.nreg) (hnded : next.ctl.nded = state.ctl.nded)
    (hsegments : next.segments = state.segments) (hkey : after.key = none)
    (hcreate : after.mayCreate = true → before.mayCreate = true ∨ move.isAlloc = true) :
    Naming state next thread move := by
  have hafter : next.phase thread = after := by rw [hphase, Function.update_self]
  subst hbefore
  refine .keeps hnreg hnded (fun key h ↦ ?_) (hafter ▸ hkey) (hafter ▸ hcreate)
  rwa [hsegments] at h

theorem naming_idle {move : Move} (hidle : state.phase thread = .idle) (hphase : next.phase = state.phase)
    (hnreg : next.ctl.nreg = state.ctl.nreg) (hnded : next.ctl.nded = state.ctl.nded)
    (hsegments : next.segments = state.segments) : Naming state next thread move := by
  have hsame : next.phase = Function.update state.phase thread .idle := by
    rw [hphase, ← hidle, Function.update_eq_self]
  refine naming_keeps hidle hsame hnreg hnded hsegments rfl ?_
  intro hcreate
  cases hcreate

theorem choose_naming {request : Request} (hphase : state.phase thread = .allocLocked request)
    (attached : Bool) :
    Naming state (choose store state thread request attached) thread (.choose attached) := by
  have hgrow : Naming state (choose.grow store state thread request) thread (.choose attached) := by
    unfold choose.grow
    split
    · exact naming_keeps hphase rfl rfl rfl rfl rfl fun _ ↦ .inl rfl
    · exact .grows request hphase rfl rfl rfl (Function.update_self ..)
  unfold choose
  dsimp only
  split
  · split <;> exact naming_keeps hphase rfl rfl rfl rfl rfl fun _ ↦ .inl rfl
  · split
    · split
      · exact naming_keeps hphase rfl rfl rfl rfl rfl fun _ ↦ .inl rfl
      · exact hgrow
    · exact hgrow

theorem adopt_naming {move : Move} (hphase : state.phase thread = .idle) (place : Place) :
    Naming state (adopt pid state thread place) thread move := by
  unfold adopt
  dsimp only
  split
  · exact naming_idle hphase rfl rfl rfl rfl
  · split <;> exact naming_idle hphase rfl rfl rfl rfl

theorem dropBlock_naming {move : Move} (hphase : state.phase thread = .idle) (block : Block) :
    Naming state (dropBlock state thread block) thread move := by
  unfold dropBlock
  dsimp only
  split
  · exact naming_idle hphase rfl rfl rfl rfl
  · refine naming_keeps hphase rfl rfl rfl rfl ?_ ?_
    · split <;> rfl
    · intro hcreate
      split at hcreate <;> cases hcreate

/-- A thread that is creating a segment does nothing else. -/
theorem key_eq_none {move : Move} (hmove : move.isCreate = false)
    (hnext : moveStep store pid state thread move = some next) : (state.phase thread).key = none := by
  cases hphase : state.phase thread with
  | creating request id | dedCreate nbytes size id =>
    cases move with
    | create ok => cases hmove
    | _ => simp [moveStep, hphase] at hnext
  | _ => rfl

/-- How a move other than a creation changes counters, segments and the name its thread is about to create. -/
theorem moveStep_naming {move : Move} (hmove : move.isCreate = false)
    (hnext : moveStep store pid state thread move = some next) : Naming state next thread move := by
  cases moveStep_cases hnext with
  | alloc nbytes hphase =>
    unfold allocBegin
    dsimp only
    split <;> exact naming_keeps hphase rfl rfl rfl rfl rfl fun _ ↦ .inr rfl
  | acquireAlloc request hphase => exact naming_keeps hphase rfl rfl rfl rfl rfl fun _ ↦ .inl rfl
  | choose request attached hphase => exact choose_naming hphase attached
  | createRegular | regularFailed | createDedicated | dedicatedFailed => cases hmove
  | addUsed request id hphase | setCur request id hphase | setBump request id hphase =>
    exact naming_keeps hphase rfl rfl rfl rfl rfl fun hcreate ↦ by cases hcreate
  | unlockRefused hphase | unlockClaim claim hphase | unlockFree hphase =>
    exact naming_keeps hphase rfl rfl rfl rfl rfl fun hcreate ↦ by cases hcreate
  | attachFailed claim hphase | initRc claim hphase | initClass claim hphase | initLen claim hphase =>
    exact naming_keeps hphase rfl rfl rfl rfl rfl fun hcreate ↦ by cases hcreate
  | reserve nbytes size hphase =>
    refine naming_keeps hphase rfl rfl rfl rfl ?_ fun _ ↦ .inl rfl
    split <;> rfl
  | takeId nbytes size hphase => exact .takes nbytes size hphase rfl rfl rfl (Function.update_self ..)
  | giveBack size hphase => exact naming_keeps hphase rfl rfl rfl rfl rfl fun hcreate ↦ by cases hcreate
  | share block hphase => exact naming_idle hphase rfl rfl rfl rfl
  | adopt place hphase => exact adopt_naming hphase place
  | drop block hphase => exact dropBlock_naming hphase block
  | unlink place hphase =>
    refine .keeps rfl rfl ?_ ?_ ?_
    · intro key hkey hnone
      apply hkey
      show Function.update state.segments (place.seg, true) none key = none
      rw [Function.update_apply]
      split
      · rfl
      · exact hnone
    · show (Function.update state.phase thread _ thread).key = none
      rw [Function.update_self]
      rfl
    · show (Function.update state.phase thread _ thread).mayCreate = true → _
      rw [Function.update_self]
      intro hcreate
      cases hcreate
  | acquireFree place hphase => exact naming_keeps hphase rfl rfl rfl rfl rfl fun hcreate ↦ by cases hcreate
  | link place cls hphase | publish place cls hphase =>
    exact naming_keeps hphase rfl rfl rfl rfl rfl fun hcreate ↦ by cases hcreate

end Naming

def State.setSegment (state : State) (key : ℕ × Bool) (value : Option ℕ) : State :=
  { state with segments := Function.update state.segments key value }

namespace Teardown

/-- How far `shm_map_io` is for a thread: the object does not exist yet, exists, has failed with the object
still there, has failed. -/
inductive Making
  | fresh
  | opened
  | failing
  | failed
  deriving DecidableEq

/-- `Store::unlink`: the control segment, then the two loops up to the counters they have read. -/
inductive Sweep
  | idle
  | regular (i n : ℕ)
  | dedicated (i n : ℕ)
  | done
  deriving DecidableEq

structure State where
  store : Store.State
  making : ℕ → Making
  control : Bool
  sweep : Sweep

inductive Action
  | move (thread : ℕ) (move : Move)
  | shmOpen (thread : ℕ) (ok : Bool)
  | reserve (thread : ℕ) (ok : Bool)
  | shmUnlink (thread : ℕ)
  | fail (thread : ℕ)
  | die (process : UInt32)
  | sweep

section Steps

variable (store : PayloadStore) (pid : ℕ → UInt32) (state : State) (thread : ℕ)

/-- The name a live thread is creating, at this stage of `shm_map_io`. -/
def State.creates (stage : Making) : Option (ℕ × Bool) :=
  if state.store.dead (pid thread) = false ∧ state.making thread = stage then (state.store.phase thread).key
  else none

def State.made (stage : Making) : State := { state with making := Function.update state.making thread stage }

/-- `shm_map_io` returns the mapping. An empty object cannot be mapped. -/
def created (state : Store.State) : Option Store.State :=
  match state.phase thread with
  | .creating request id =>
    some ((state.setSegment (id, false) (some store.segBytes)).goto thread (.addUsed request id))
  | .dedCreate nbytes size id =>
    if 0 < size then
      some (((state.setSegment (id, true) (some size)).setCarved ⟨id, 0, true⟩ size (.held thread)).goto
        thread (.initRc ⟨nbytes, 2 ^ 32 - 1, ⟨id, 0, true⟩⟩))
    else none
  | _ => none

def stepSweep : Option State :=
  match state.sweep with
  | .idle => some { state with control := false, sweep := .regular 0 state.store.ctl.nreg }
  | .regular i n =>
    if i < n then
      some { state with store := state.store.setSegment (i, false) none, sweep := .regular (i + 1) n }
    else some { state with sweep := .dedicated 0 state.store.ctl.nded }
  | .dedicated i n =>
    if i < n then
      some { state with store := state.store.setSegment (i, true) none, sweep := .dedicated (i + 1) n }
    else some { state with sweep := .done }
  | .done => none

/-- `O_EXCL` refuses a name that exists. After a failed `shm_open` there is nothing to remove. -/
def step : Action → Option State
  | .move thread move =>
    if state.store.dead (pid thread) ∨ move.isCreate then none
    else (moveStep store pid state.store thread move).map fun next ↦ { state with store := next }
  | .shmOpen thread ok =>
    (state.creates pid thread .fresh).map fun key ↦
      if ok ∧ state.store.segments key = none then
        { state.made thread .opened with store := state.store.setSegment key (some 0) }
      else state.made thread .failed
  | .reserve thread ok =>
    (state.creates pid thread .opened).bind fun _ ↦
      if ok then
        (created store thread state.store).map fun next ↦ { state.made thread .fresh with store := next }
      else some (state.made thread .failing)
  | .shmUnlink thread =>
    (state.creates pid thread .failing).map fun key ↦
      { state.made thread .failed with store := state.store.setSegment key none }
  | .fail thread =>
    (state.creates pid thread .failed).bind fun _ ↦
      (moveStep store pid state.store thread (.create false)).map fun next ↦
        { state.made thread .fresh with store := next }
  | .die process =>
    some { state with store := { state.store with dead := Function.update state.store.dead process true } }
  | .sweep => stepSweep state

end Steps

def machine (store : PayloadStore) (pid : ℕ → UInt32) : Machine State Action where
  start := ⟨.start, fun _ ↦ .fresh, true, .idle⟩
  step := step store pid

section Coverage

variable {store : PayloadStore} {pid : ℕ → UInt32} {state next : State} {thread : ℕ}

theorem alive_of_not_dead {state : Store.State} (h : state.dead (pid thread) = false) :
    state.alive pid thread = true := by
  rw [Store.State.alive, h]
  rfl

/-- Whoever is alive after a death was alive before. -/
theorem alive_of_die {state : Store.State} {process : UInt32}
    (h : Store.State.alive pid { state with dead := Function.update state.dead process true } thread = true) :
    state.alive pid thread = true := by
  have hlive : (!Function.update state.dead process true (pid thread)) = true := h
  rw [Function.update_apply] at hlive
  split at hlive
  · cases hlive
  · exact hlive

/-- What a thread knows about the name it creates: the counter covers it, and it is new until `shm_open`. -/
structure ThreadOk (pid : ℕ → UInt32) (state : State) (thread : ℕ) : Prop where
  claimed : state.store.alive pid thread = true → ∀ id, (state.store.phase thread).key = some (id, false) →
    id + 1 = state.store.ctl.nreg
  taken : ∀ id, (state.store.phase thread).key = some (id, true) → id < state.store.ctl.nded
  absent : state.store.alive pid thread = true → ∀ key, (state.store.phase thread).key = some key →
    state.making thread = .fresh ∨ state.making thread = .failed → state.store.segments key = none
  idle : (state.store.phase thread).key = none → state.making thread = .fresh

/-- The counters cover every segment, whoever has died where. -/
structure Covered (pid : ℕ → UInt32) (state : State) : Prop where
  exclusive : LockHeld (state.store.alive pid) state.store.locked state.store.lock
  regular : ∀ id, state.store.segments (id, false) ≠ none → id < state.store.ctl.nreg
  dedicated : ∀ id, state.store.segments (id, true) ≠ none → id < state.store.ctl.nded
  threads : ∀ thread, ThreadOk pid state thread
  single : ∀ first second id, (state.store.phase first).key = some (id, true) →
    (state.store.phase second).key = some (id, true) → first = second

/-- No two live threads create the same name. -/
theorem Covered.alone (h : Covered pid state) {first second : ℕ} (hfirst : state.store.alive pid first = true)
    (hsecond : state.store.alive pid second = true) {key : ℕ × Bool}
    (hkey : (state.store.phase first).key = some key) (hkey' : (state.store.phase second).key = some key) :
    first = second := by
  obtain ⟨id, dedicated⟩ := key
  cases dedicated with
  | true => exact h.single first second id hkey hkey'
  | false =>
    have hlock := h.exclusive first hfirst (Phase.locked_of_key hkey)
    have hlock' := h.exclusive second hsecond (Phase.locked_of_key hkey')
    rw [hlock, Option.some.injEq] at hlock'
    exact hlock'

/-- What a live thread's step leaves to the others. -/
structure Others (pid : ℕ → UInt32) (state next : State) (thread : ℕ) : Prop where
  alive : state.store.alive pid thread = true
  dead : next.store.dead = state.store.dead
  phase : ∀ other, other ≠ thread → next.store.phase other = state.store.phase other
  making : ∀ other, other ≠ thread → next.making other = state.making other
  lock : LockStep (state.store.alive pid) state.store.locked next.store.locked state.store.lock
    next.store.lock thread
  nreg : next.store.ctl.nreg = state.store.ctl.nreg ∨ state.store.locked thread = true
  nded : state.store.ctl.nded ≤ next.store.ctl.nded
  segments : ∀ key, (state.store.phase thread).key ≠ some key → next.store.segments key ≠ none →
    state.store.segments key ≠ none

theorem Covered.others (h : Covered pid state) (hothers : Others pid state next thread) {other : ℕ}
    (hne : other ≠ thread) : ThreadOk pid next other := by
  have hold := h.threads other
  have halive' : next.store.alive pid other = state.store.alive pid other := by
    rw [Store.State.alive, Store.State.alive, hothers.dead]
  constructor
  · intro halive id hkey
    rw [halive'] at halive
    rw [hothers.phase other hne] at hkey
    obtain hnreg | hlocked := hothers.nreg
    · rw [hnreg]
      exact hold.claimed halive id hkey
    · have hunlocked := h.exclusive.alone hothers.alive hlocked hne halive
      rw [Store.State.locked, Phase.locked_of_key hkey] at hunlocked
      cases hunlocked
  · intro id hkey
    rw [hothers.phase other hne] at hkey
    exact (hold.taken id hkey).trans_le hothers.nded
  · intro halive key hkey hmaking
    rw [halive'] at halive
    rw [hothers.phase other hne] at hkey
    rw [hothers.making other hne] at hmaking
    have hnone := hold.absent halive key hkey hmaking
    by_contra hsome
    refine hothers.segments key (fun hkey' ↦ ?_) hsome hnone
    exact hne (h.alone halive hothers.alive hkey hkey')
  · intro hkey
    rw [hothers.phase other hne] at hkey
    rw [hothers.making other hne]
    exact hold.idle hkey

/-- One step of a live thread, part by part. -/
theorem Covered.act (h : Covered pid state) (hothers : Others pid state next thread)
    (hregular : ∀ id, next.store.segments (id, false) ≠ none → id < next.store.ctl.nreg)
    (hdedicated : ∀ id, next.store.segments (id, true) ≠ none → id < next.store.ctl.nded)
    (hself : ThreadOk pid next thread)
    (hsingle : ∀ id, (next.store.phase thread).key = some (id, true) → ∀ other, other ≠ thread →
      (state.store.phase other).key ≠ some (id, true)) : Covered pid next where
  exclusive := by
    have halive : next.store.alive pid = state.store.alive pid := by
      funext other
      rw [Store.State.alive, Store.State.alive, hothers.dead]
    rw [halive]
    refine h.exclusive.step hothers.alive (fun other hne ↦ ?_) hothers.lock
    rw [Store.State.locked, Store.State.locked, hothers.phase other hne]
  regular := hregular
  dedicated := hdedicated
  threads other := by
    obtain rfl | hne := eq_or_ne other thread
    · exact hself
    · exact h.others hothers hne
  single first second id hfirst hsecond := by
    by_cases hfirst' : first = thread <;> by_cases hsecond' : second = thread
    · rw [hfirst', hsecond']
    · rw [hfirst'] at hfirst
      rw [hothers.phase second hsecond'] at hsecond
      exact absurd hsecond (hsingle id hfirst second hsecond')
    · rw [hsecond'] at hsecond
      rw [hothers.phase first hfirst'] at hfirst
      exact absurd hfirst (hsingle id hsecond first hfirst')
    · rw [hothers.phase first hfirst'] at hfirst
      rw [hothers.phase second hsecond'] at hsecond
      exact h.single first second id hfirst hsecond

theorem ThreadOk.of_none (hkey : (next.store.phase thread).key = none)
    (hmaking : next.making thread = .fresh) : ThreadOk pid next thread := by
  refine ⟨fun _ id hsome ↦ ?_, fun id hsome ↦ ?_, fun _ key hsome ↦ ?_, fun _ ↦ hmaking⟩ <;>
    exact absurd (hkey.symm.trans hsome) (Option.some_ne_none _).symm

theorem ThreadOk.of_some {id : ℕ} {dedicated : Bool}
    (hkey : (next.store.phase thread).key = some (id, dedicated))
    (hcovers : if dedicated then id < next.store.ctl.nded else id + 1 = next.store.ctl.nreg)
    (habsent : next.making thread = .fresh ∨ next.making thread = .failed →
      next.store.segments (id, dedicated) = none) : ThreadOk pid next thread := by
  constructor
  · intro _ id' hsome
    cases hkey.symm.trans hsome
    exact hcovers
  · intro id' hsome
    cases hkey.symm.trans hsome
    exact hcovers
  · intro _ key hsome hmaking
    cases hkey.symm.trans hsome
    exact habsent hmaking
  · intro hnone
    rw [hkey] at hnone
    cases hnone

theorem Covered.move (h : Covered pid state) {move : Move} {after : Store.State}
    (halive : state.store.alive pid thread = true) (hmove : move.isCreate = false)
    (hnext : moveStep store pid state.store thread move = some after) :
    Covered pid { state with store := after } := by
  obtain ⟨phase, hbooked⟩ := moveStep_booked hnext
  have hidle := (h.threads thread).idle (key_eq_none hmove hnext)
  have hphase (other : ℕ) (hne : other ≠ thread) : after.phase other = state.store.phase other := by
    rw [hbooked.phase, Function.update_of_ne hne]
  cases moveStep_naming hmove hnext with
  | keeps hnreg hnded hsegments hkey hcreate =>
    refine h.act ⟨halive, hbooked.dead, hphase, fun _ _ ↦ rfl, hbooked.lock, .inl hnreg, hnded.ge,
      fun key _ ↦ hsegments key⟩ (fun id hsome ↦ ?_) (fun id hsome ↦ ?_) (.of_none hkey hidle)
      fun id hsome ↦ ?_
    · exact (h.regular id (hsegments _ hsome)).trans_eq hnreg.symm
    · exact (h.dedicated id (hsegments _ hsome)).trans_eq hnded.symm
    · exact absurd (hkey.symm.trans hsome) (Option.some_ne_none _).symm
  | grows request hphase' hnreg hnded hsegments hnext' =>
    have hkey : (after.phase thread).key = some (state.store.ctl.nreg, false) := by
      rw [hnext']
      rfl
    have hlocked : state.store.locked thread = true := by
      rw [Store.State.locked, hphase']
      rfl
    have hnone : after.segments (state.store.ctl.nreg, false) = none := by
      rw [hsegments]
      by_contra hsome
      exact lt_irrefl _ (h.regular _ hsome)
    refine h.act ⟨halive, hbooked.dead, hphase, fun _ _ ↦ rfl, hbooked.lock, .inr hlocked, hnded.ge,
      fun key _ ↦ by rw [hsegments]; exact id⟩ (fun id hsome ↦ ?_) (fun id hsome ↦ ?_)
      (.of_some hkey hnreg.symm fun _ ↦ hnone) fun id hsome ↦ ?_
    · exact (h.regular id (by rwa [← hsegments])).trans_le ((Nat.le_succ _).trans_eq hnreg.symm)
    · exact (h.dedicated id (by rwa [← hsegments])).trans_eq hnded.symm
    · cases hkey.symm.trans hsome
  | takes nbytes size hphase' hnreg hnded hsegments hnext' =>
    have hkey : (after.phase thread).key = some (state.store.ctl.nded, true) := by
      rw [hnext']
      rfl
    have hnone : after.segments (state.store.ctl.nded, true) = none := by
      rw [hsegments]
      by_contra hsome
      exact lt_irrefl _ (h.dedicated _ hsome)
    refine h.act ⟨halive, hbooked.dead, hphase, fun _ _ ↦ rfl, hbooked.lock, .inl hnreg,
      (Nat.le_succ _).trans hnded.ge, fun key _ ↦ by rw [hsegments]; exact id⟩ (fun id hsome ↦ ?_)
      (fun id hsome ↦ ?_) (.of_some hkey ((Nat.lt_succ_self _).trans_eq hnded.symm) fun _ ↦ hnone)
      fun id hsome other hne hother ↦ ?_
    · exact (h.regular id (by rwa [← hsegments])).trans_eq hnreg.symm
    · exact (h.dedicated id (by rwa [← hsegments])).trans_le ((Nat.le_succ _).trans_eq hnded.symm)
    · cases hkey.symm.trans hsome
      exact lt_irrefl _ ((h.threads other).taken _ hother)

/-- Within `shm_map_io` a thread changes its own name only. -/
theorem Covered.during (h : Covered pid state) (halive : state.store.alive pid thread = true) {key : ℕ × Bool}
    (hkey : (state.store.phase thread).key = some key) (stage : Making) (value : Option ℕ)
    (habsent : stage = .fresh ∨ stage = .failed → value = none) :
    Covered pid { state.made thread stage with store := state.store.setSegment key value } := by
  have hsegments (other : ℕ × Bool) (hne : other ≠ key) :
      (state.store.setSegment key value).segments other = state.store.segments other :=
    Function.update_of_ne hne ..
  have hmaking : (state.made thread stage).making thread = stage := Function.update_self ..
  refine h.act ⟨halive, rfl, fun _ _ ↦ rfl, fun other hne ↦ Function.update_of_ne hne .., .keeps rfl id,
    .inl rfl, le_rfl, fun other hne ↦ ?_⟩ (fun id hsome ↦ ?_) (fun id hsome ↦ ?_) ?_
    fun id hsome other hne hother ↦ ?_
  · rw [hsegments other fun hsame ↦ hne (hsame ▸ hkey)]
    exact id
  · obtain hsame | hne := eq_or_ne (id, false) key
    · exact Nat.lt_of_succ_le ((h.threads thread).claimed halive id (hsame ▸ hkey)).le
    · exact h.regular id (by rwa [← hsegments _ hne])
  · obtain hsame | hne := eq_or_ne (id, true) key
    · exact (h.threads thread).taken id (hsame ▸ hkey)
    · exact h.dedicated id (by rwa [← hsegments _ hne])
  · obtain ⟨id, dedicated⟩ := key
    refine .of_some hkey ?_ fun hstage ↦ ?_
    · cases dedicated with
      | false => exact (h.threads thread).claimed halive id hkey
      | true => exact (h.threads thread).taken id hkey
    · refine (Function.update_self ..).trans (habsent ?_)
      rwa [hmaking] at hstage
  · exact hne (h.single other thread id hother hsome)

theorem creates_some {stage : Making} {key : ℕ × Bool} (h : state.creates pid thread stage = some key) :
    state.store.alive pid thread = true ∧ state.making thread = stage ∧
      (state.store.phase thread).key = some key := by
  simp only [State.creates, Option.ite_none_right_eq_some] at h
  exact ⟨alive_of_not_dead h.1.1, h.1.2, h.2⟩

theorem setSegment_self (state : Store.State) (key : ℕ × Bool) :
    state.setSegment key (state.segments key) = state := by
  rw [Store.State.setSegment, Function.update_eq_self]

/-- A thread is through with its name, which is published or free again. -/
theorem Covered.leave (h : Covered pid state) (halive : state.store.alive pid thread = true) (phase : Phase)
    (hphase : next.store.phase = Function.update state.store.phase thread phase)
    (hmaking : next.making = Function.update state.making thread .fresh)
    (hdead : next.store.dead = state.store.dead) (hlock : next.store.lock = state.store.lock)
    (hlocked : phase.locked = true → (state.store.phase thread).locked = true)
    (hsegments : next.store.segments = state.store.segments)
    (hnded : next.store.ctl.nded = state.store.ctl.nded)
    (hnreg : next.store.ctl.nreg = state.store.ctl.nreg ∨ state.store.locked thread = true)
    (hregular : ∀ id, state.store.segments (id, false) ≠ none → id < next.store.ctl.nreg)
    (hkey : phase.key = none) : Covered pid next := by
  have hself : (next.store.phase thread).key = none := by
    rw [hphase, Function.update_self]
    exact hkey
  refine h.act ⟨halive, hdead, fun other hne ↦ ?_, fun other hne ↦ ?_, lockStep_keeps hphase hlock hlocked,
    hnreg, hnded.ge, fun key _ ↦ by rw [hsegments]; exact id⟩ ?_ (fun id hsome ↦ ?_) (.of_none hself ?_)
    fun id hsome ↦ ?_
  · rw [hphase, Function.update_of_ne hne]
  · rw [hmaking, Function.update_of_ne hne]
  · rw [hsegments]
    exact hregular
  · rw [hnded]
    exact h.dedicated id (by rwa [← hsegments])
  · rw [hmaking, Function.update_self]
  · cases hself.symm.trans hsome

/-- The end of `shm_map_io` with a mapping. -/
theorem Covered.created (h : Covered pid state) {after : Store.State}
    (halive : state.store.alive pid thread = true) (hnext : created store thread state.store = some after) :
    Covered pid { state.made thread .fresh with store := after } := by
  have hidem : Function.update state.making thread Making.fresh =
      Function.update (Function.update state.making thread .opened) thread .fresh :=
    (Function.update_idem ..).symm
  have hopened : ¬ (Making.opened = .fresh ∨ Making.opened = .failed) := by decide
  unfold Teardown.created at hnext
  split at hnext
  · rename_i request id hphase
    cases hnext
    have hkey : (state.store.phase thread).key = some (id, false) := by
      rw [hphase]
      rfl
    have hmade := h.during halive hkey .opened (some store.segBytes) fun hstage ↦ absurd hstage hopened
    refine hmade.leave halive (.addUsed request id) rfl hidem rfl rfl ?_ rfl rfl (.inl rfl) hmade.regular rfl
    intro _
    exact Phase.locked_of_key hkey
  · rename_i nbytes size id hphase
    split at hnext
    · cases hnext
      have hkey : (state.store.phase thread).key = some (id, true) := by
        rw [hphase]
        rfl
      have hmade := h.during halive hkey .opened (some size) fun hstage ↦ absurd hstage hopened
      refine hmade.leave halive (.initRc ⟨nbytes, 2 ^ 32 - 1, ⟨id, 0, true⟩⟩) rfl hidem rfl rfl ?_ rfl rfl
        (.inl rfl) hmade.regular rfl
      intro hlocked
      cases hlocked
    · cases hnext
  · cases hnext

/-- The end of `shm_map_io` with an error: only a regular number is given back, and nothing is there. -/
theorem Covered.fail (h : Covered pid state) {after : Store.State}
    (halive : state.store.alive pid thread = true) (hmaking : state.making thread = .failed)
    (hnext : moveStep store pid state.store thread (.create false) = some after) :
    Covered pid { state.made thread .fresh with store := after } := by
  have habsent := (h.threads thread).absent halive
  have hclaimed := (h.threads thread).claimed halive
  cases moveStep_cases hnext with
  | regularFailed request id hphase =>
    have hkey : (state.store.phase thread).key = some (id, false) := by
      rw [hphase]
      rfl
    refine h.leave halive (.allocUnlock none) rfl rfl rfl rfl ?_ rfl rfl (.inr ?_) (fun other hsome ↦ ?_) rfl
    · intro _
      exact Phase.locked_of_key hkey
    · exact Phase.locked_of_key hkey
    · have hlt := (h.regular other hsome).trans_eq (hclaimed id hkey).symm
      refine (Nat.lt_succ_iff.mp hlt).lt_of_ne fun hsame ↦ hsome ?_
      rw [hsame]
      exact habsent _ hkey (.inr hmaking)
  | dedicatedFailed nbytes size id hphase =>
    refine h.leave halive (.giveBack size) rfl rfl rfl rfl ?_ rfl rfl (.inl rfl) h.regular rfl
    intro hlocked
    cases hlocked

/-- Removing names keeps the counters above those that are left. -/
theorem Covered.shrink (h : Covered pid state) {segments : ℕ × Bool → Option ℕ}
    (hsegments : ∀ key, segments key ≠ none → state.store.segments key ≠ none) (control : Bool)
    (sweep : Sweep) :
    Covered pid ⟨{ state.store with segments := segments }, state.making, control, sweep⟩ where
  exclusive := h.exclusive
  regular id hsome := h.regular id (hsegments _ hsome)
  dedicated id hsome := h.dedicated id (hsegments _ hsome)
  threads thread := by
    refine ⟨(h.threads thread).claimed, (h.threads thread).taken, fun halive key hkey hmaking ↦ ?_,
      (h.threads thread).idle⟩
    have hnone := (h.threads thread).absent halive key hkey hmaking
    by_contra hsome
    exact hsegments key hsome hnone
  single := h.single

theorem setSegment_none {state : Store.State} {key other : ℕ × Bool}
    (h : (state.setSegment key none).segments other ≠ none) : state.segments other ≠ none := by
  intro hnone
  apply h
  show Function.update state.segments key none other = none
  rw [Function.update_apply]
  split
  · rfl
  · exact hnone

/-- A sweep removes names and covers what is left. -/
theorem Covered.sweep (h : Covered pid state) (hsweep : stepSweep state = some next) : Covered pid next := by
  unfold stepSweep at hsweep
  split at hsweep
  · cases hsweep
    exact h.shrink (fun _ ↦ id) false _
  · split at hsweep
    · cases hsweep
      exact h.shrink (fun _ ↦ setSegment_none) state.control _
    · cases hsweep
      exact h.shrink (fun _ ↦ id) state.control _
  · split at hsweep
    · cases hsweep
      exact h.shrink (fun _ ↦ setSegment_none) state.control _
    · cases hsweep
      exact h.shrink (fun _ ↦ id) state.control _
  · cases hsweep

theorem Covered.die (h : Covered pid state) (process : UInt32) :
    Covered pid { state with
      store := { state.store with dead := Function.update state.store.dead process true } } := by
  refine ⟨h.exclusive.die fun _ ↦ alive_of_die, h.regular, h.dedicated, fun thread ↦ ?_, h.single⟩
  have hthread := h.threads thread
  exact ⟨fun hlive ↦ hthread.claimed (alive_of_die hlive), hthread.taken,
    fun hlive ↦ hthread.absent (alive_of_die hlive), hthread.idle⟩

/-- What every step preserves, deaths included. -/
theorem Covered.step {action : Action} (h : Covered pid state)
    (hstep : step store pid state action = some next) : Covered pid next := by
  cases action with
  | move thread move =>
    simp only [Teardown.step, Option.ite_none_left_eq_some, Option.map_eq_some_iff, not_or,
      Bool.not_eq_true] at hstep
    obtain ⟨⟨halive, hmove⟩, after, hnext, rfl⟩ := hstep
    exact h.move (alive_of_not_dead halive) hmove hnext
  | shmOpen thread ok =>
    simp only [Teardown.step, Option.map_eq_some_iff] at hstep
    obtain ⟨key, hcreates, rfl⟩ := hstep
    obtain ⟨halive, hmaking, hkey⟩ := creates_some hcreates
    split
    · refine h.during halive hkey .opened (some 0) fun hstage ↦ ?_
      exact absurd hstage (by decide)
    · have hnone := (h.threads thread).absent halive key hkey (.inl hmaking)
      have hmade := h.during halive hkey .failed (state.store.segments key) fun _ ↦ hnone
      rwa [setSegment_self] at hmade
  | reserve thread ok =>
    simp only [Teardown.step, Option.bind_eq_some_iff] at hstep
    obtain ⟨key, hcreates, hstep⟩ := hstep
    obtain ⟨halive, hmaking, hkey⟩ := creates_some hcreates
    cases ok with
    | true =>
      simp only [if_true, Option.map_eq_some_iff] at hstep
      obtain ⟨after, hnext, rfl⟩ := hstep
      exact h.created halive hnext
    | false =>
      cases hstep
      have hmade := h.during halive hkey .failing (state.store.segments key) fun hstage ↦
        absurd hstage (by decide)
      rwa [setSegment_self] at hmade
  | shmUnlink thread =>
    simp only [Teardown.step, Option.map_eq_some_iff] at hstep
    obtain ⟨key, hcreates, rfl⟩ := hstep
    obtain ⟨halive, -, hkey⟩ := creates_some hcreates
    exact h.during halive hkey .failed none fun _ ↦ rfl
  | fail thread =>
    simp only [Teardown.step, Option.bind_eq_some_iff, Option.map_eq_some_iff] at hstep
    obtain ⟨key, hcreates, after, hnext, rfl⟩ := hstep
    obtain ⟨halive, hmaking, -⟩ := creates_some hcreates
    exact h.fail halive hmaking hnext
  | die process =>
    cases hstep
    exact h.die process
  | sweep => exact h.sweep hstep

theorem covered_start : Covered pid (machine store pid).start := by
  have hnone (key : ℕ × Bool) : ¬ (machine store pid).start.store.segments key ≠ none := not_not.mpr rfl
  refine ⟨fun thread _ hlocked ↦ ?_, fun id hsome ↦ absurd hsome (hnone _),
    fun id hsome ↦ absurd hsome (hnone _), fun thread ↦ .of_none rfl rfl, fun first second id hfirst ↦ ?_⟩
  · cases hlocked
  · cases hfirst

/-- In every reachable state the counters cover every segment. -/
theorem covered_of_reachable (h : (machine store pid).Reachable state) : Covered pid state :=
  h.invariant (Covered pid) covered_start fun _ _ _ hcovered hstep ↦ hcovered.step hstep

end Coverage

/-! ## The store machine, in smaller steps -/

section Simulation

variable {store : PayloadStore} {pid : ℕ → UInt32} {thread : ℕ} {model : State} {next : Store.State}

/-- Between two creations the states of both machines are the same. -/
structure Related (pid : ℕ → UInt32) (state : Store.State) (model : State) : Prop where
  covered : Covered pid model
  same : model.store = state
  fresh : ∀ thread, model.making thread = .fresh

theorem Related.run {state : Store.State} (h : Related pid state model) (actions : List Action)
    (model' : State) (hrun : (machine store pid).runFrom model actions = some model')
    (hsame : model'.store = next) (hfresh : ∀ thread, model'.making thread = .fresh) :
    ∃ actions model', (machine store pid).runFrom model actions = some model' ∧ Related pid next model' :=
  ⟨actions, model', hrun,
    Machine.run_invariant (Covered pid) (fun _ _ _ hcovered hstep ↦ hcovered.step hstep) h.covered hrun,
    hsame, hfresh⟩

theorem creates_eq (model : State) {stage : Making} (halive : model.store.dead (pid thread) = false)
    (hmaking : model.making thread = stage) :
    model.creates pid thread stage = (model.store.phase thread).key :=
  if_pos ⟨halive, hmaking⟩

theorem key_of_create {state : Store.State} {ok : Bool}
    (hnext : moveStep store pid state thread (.create ok) = some next) :
    ∃ key, (state.phase thread).key = some key := by
  cases moveStep_cases hnext with
  | createRegular request id hphase | regularFailed request id hphase =>
    refine ⟨(id, false), ?_⟩
    rw [hphase]
    rfl
  | createDedicated nbytes size id hphase | dedicatedFailed nbytes size id hphase =>
    refine ⟨(id, true), ?_⟩
    rw [hphase]
    rfl

theorem created_of_create {state : Store.State} {key : ℕ × Bool} (hkey : (state.phase thread).key = some key)
    (hnext : moveStep store pid state thread (.create true) = some next) :
    created store thread (state.setSegment key (some 0)) = some next := by
  cases moveStep_cases hnext with
  | createRegular request id hphase =>
    rw [hphase] at hkey
    cases hkey
    simp [created, Store.State.setSegment, hphase]
  | createDedicated nbytes size id hphase hpos =>
    rw [hphase] at hkey
    cases hkey
    simp [created, Store.State.setSegment, hphase, hpos]

theorem made_fresh (h : ∀ thread, model.making thread = .fresh) (stage : Making) (other : ℕ) :
    ((model.made thread stage).made thread .fresh).making other = .fresh := by
  simp only [State.made, Function.update_idem]
  rw [Function.update_apply]
  split
  · rfl
  · exact h other

/-- A creation of the store machine is `shm_open` and what follows, with nobody in between. -/
theorem create_run (ok : Bool) (h : Related pid model.store model)
    (halive : model.store.dead (pid thread) = false)
    (hnext : moveStep store pid model.store thread (.create ok) = some next) :
    ∃ actions model', (machine store pid).runFrom model actions = some model' ∧ Related pid next model' := by
  obtain ⟨key, hkey⟩ := key_of_create hnext
  have hcreates := creates_eq model halive (h.fresh thread)
  cases ok with
  | true =>
    have hnone := (h.covered.threads thread).absent (alive_of_not_dead halive) key hkey
      (.inl (h.fresh thread))
    let opened : State := { model.made thread .opened with store := model.store.setSegment key (some 0) }
    have hopen : (machine store pid).step model (.shmOpen thread true) = some opened := by
      simp [machine, Teardown.step, hcreates, hkey, hnone, opened]
    have hmaking : opened.making thread = .opened := Function.update_self ..
    have hopened : opened.creates pid thread .opened = some key :=
      (creates_eq opened halive hmaking).trans hkey
    have hreserve : (machine store pid).step opened (.reserve thread true) =
        some { opened.made thread .fresh with store := next } := by
      simp [machine, Teardown.step, hopened, opened, created_of_create hkey hnext]
    exact h.run [.shmOpen thread true, .reserve thread true] { opened.made thread .fresh with store := next }
      (Machine.runFrom_step hopen (Machine.runFrom_step hreserve rfl)) rfl (made_fresh h.fresh .opened)
  | false =>
    have hopen : (machine store pid).step model (.shmOpen thread false) =
        some (model.made thread .failed) := by
      simp [machine, Teardown.step, hcreates, hkey]
    have hmaking : (model.made thread .failed).making thread = .failed := Function.update_self ..
    have hfailed : (model.made thread .failed).creates pid thread .failed = some key :=
      (creates_eq (model.made thread .failed) halive hmaking).trans hkey
    have hfail : (machine store pid).step (model.made thread .failed) (.fail thread) =
        some { (model.made thread .failed).made thread .fresh with store := next } := by
      simp only [machine, Teardown.step, hfailed, Option.bind_some]
      rw [show (model.made thread .failed).store = model.store from rfl, hnext]
      rfl
    exact h.run [.shmOpen thread false, .fail thread]
      { (model.made thread .failed).made thread .fresh with store := next }
      (Machine.runFrom_step hopen (Machine.runFrom_step hfail rfl)) rfl (made_fresh h.fresh .failed)

/-- Every run of the store machine is a run in smaller steps, so the counters cover its segments too. -/
theorem covered_of_store {state : Store.State} (h : (Store.machine store pid).Reachable state) :
    ∃ model, (machine store pid).Reachable model ∧ Related pid state model := by
  refine h.simulation (Related pid) ⟨covered_start, rfl, fun _ ↦ rfl⟩ ?_
  intro state action next model hrelated hstep
  obtain rfl := hrelated.same
  cases action with
  | act thread move =>
    simp only [Store.machine, Store.step, Option.ite_none_left_eq_some, Bool.not_eq_true] at hstep
    obtain ⟨halive, hnext⟩ := hstep
    cases hmove : move.isCreate with
    | true =>
      cases move with
      | create ok => exact create_run ok hrelated halive hnext
      | _ => cases hmove
    | false =>
      have hmodel : (machine store pid).step model (.move thread move) =
          some { model with store := next } := by
        simp [machine, Teardown.step, halive, hmove, hnext]
      exact hrelated.run [.move thread move] { model with store := next }
        (Machine.runFrom_step hmodel rfl) rfl hrelated.fresh
  | die process =>
    cases hstep
    exact hrelated.run [.die process]
      { model with store := { model.store with dead := Function.update model.store.dead process true } }
      rfl rfl hrelated.fresh

end Simulation

end Teardown

end GpuPipe.Store
