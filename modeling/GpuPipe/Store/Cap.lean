import GpuPipe.Library.Mutex
import GpuPipe.Library.Totals
import GpuPipe.Store.NoOverlap

/-!
# The cap of the store

`alloc` tests `used` under the lock, creates its segment and adds to `used` afterwards; `alloc_dedicated`
adds first and tests then, without the lock. The account below follows the bytes of each thread between
the counter, its plans and the segments that exist, in runs in which nobody dies.
-/

namespace GpuPipe.Store

variable {store : PayloadStore} {pid : ℕ → UInt32} {state next : State} {thread : ℕ}

/-- Whichever segments exist, together they stay within the limit. -/
def WithinLimit (store : PayloadStore) (state : State) : Prop :=
  ∀ keys : Finset (ℕ × Bool), ∑ key ∈ keys, (state.segments key).getD 0 ≤ store.limit

def noDeath (_ : State) : Action → Bool
  | .die _ => false
  | .act _ _ => true

/-! ## The bytes of a thread -/

/-- Bytes a thread has added to `used` without a segment to show for them. -/
def Phase.owed : Phase → ℕ
  | .dedId _ size | .dedCreate _ size _ | .giveBack size => size
  | _ => 0

/-- Bytes of the segment a thread is about to create. -/
def Phase.planned (store : PayloadStore) : Phase → ℕ
  | .creating _ _ => store.segBytes
  | .dedId _ size | .dedCreate _ size _ => size
  | _ => 0

/-- Bytes of a segment that `used` does not count yet. -/
def Phase.uncounted (store : PayloadStore) : Phase → ℕ
  | .addUsed _ _ => store.segBytes
  | _ => 0

/-- Bytes `alloc` has tested for and not yet added. -/
def Phase.tested (store : PayloadStore) : Phase → ℕ
  | .creating _ _ | .addUsed _ _ => store.segBytes
  | _ => 0

def State.tested (store : PayloadStore) (state : State) : ℕ :=
  match state.lock with
  | some holder => (state.phase holder).tested store
  | none => 0

/-- Nobody dies, no count of references and no sum with `used` wraps, and no reservation gets through that
leaves too little for the segment which the lock holder has tested for. -/
def capped (store : PayloadStore) (state : State) : Action → Bool
  | .die _ => false
  | .act thread move =>
    match state.phase thread, move with
    | .dedReserve _ size, _ =>
      state.ctl.used + size < 2 ^ 64 &&
        (store.limit < state.ctl.used + size || state.ctl.used + size + state.tested store ≤ store.limit)
    | .allocLocked _, _ | .addUsed _ _, _ => state.ctl.used + store.segBytes < 2 ^ 64
    | .idle, .share block => refs state.blocks state.handles block.place + 1 < 2 ^ 32
    | _, _ => true

theorem Phase.planned_le (store : PayloadStore) (phase : Phase) :
    phase.planned store + phase.uncounted store ≤ phase.owed + phase.tested store := by
  cases phase <;> simp [Phase.planned, Phase.uncounted, Phase.owed, Phase.tested]

theorem Phase.locked_of_tested {phase : Phase} (h : phase.tested store ≠ 0) : phase.locked = true := by
  cases phase with
  | creating | addUsed => rfl
  | _ => exact absurd rfl h

theorem Phase.locked_of_uncounted {phase : Phase} (h : phase.uncounted store ≠ 0) : phase.locked = true := by
  cases phase with
  | addUsed => rfl
  | _ => exact absurd rfl h

/-! ## What a step books -/

def State.alive (pid : ℕ → UInt32) (state : State) (thread : ℕ) : Bool := !state.dead (pid thread)

def State.locked (state : State) (thread : ℕ) : Bool := (state.phase thread).locked

theorem lockFree_of_lockable (h : lockable pid state = true) : LockFree (state.alive pid) state.lock := by
  intro holder hlock
  simpa [lockable, hlock, State.alive] using h

/-- What a thread's step does to its bytes, to `used` and to the segments. -/
inductive Booking (store : PayloadStore) (state next : State) (thread : ℕ) : Phase → Prop
  | quiet {phase : Phase} (hsegments : next.segments = state.segments)
      (hused : next.ctl.used = state.ctl.used) (howed : phase.owed = (state.phase thread).owed)
      (hplanned : phase.planned store ≤ (state.phase thread).planned store)
      (huncounted : phase.uncounted store = 0 ∧ (state.phase thread).uncounted store = 0) :
      Booking store state next thread phase
  | tests {request : Request} (hphase : state.phase thread = .allocLocked request)
      (hroom : (state.ctl.used + store.segBytes) % 2 ^ 64 ≤ store.limit)
      (hsegments : next.segments = state.segments) (hused : next.ctl.used = state.ctl.used) (id : ℕ) :
      Booking store state next thread (.creating request id)
  | creates {request : Request} {id : ℕ} (hphase : state.phase thread = .creating request id)
      (hsegments : next.segments = Function.update state.segments (id, false) (some store.segBytes))
      (hused : next.ctl.used = state.ctl.used) : Booking store state next thread (.addUsed request id)
  | adds {request : Request} {id : ℕ} (hphase : state.phase thread = .addUsed request id)
      (hsegments : next.segments = state.segments)
      (hused : next.ctl.used = (state.ctl.used + store.segBytes) % 2 ^ 64) :
      Booking store state next thread (.setCur request id)
  | reserves {nbytes size : ℕ} (hphase : state.phase thread = .dedReserve nbytes size)
      (hsegments : next.segments = state.segments)
      (hused : next.ctl.used = (state.ctl.used + size) % 2 ^ 64) :
      Booking store state next thread
        (if store.limit < (state.ctl.used + size) % 2 ^ 64 then .giveBack size else .dedId nbytes size)
  | fills {nbytes size id : ℕ} (hphase : state.phase thread = .dedCreate nbytes size id)
      (hsegments : next.segments = Function.update state.segments (id, true) (some size))
      (hused : next.ctl.used = state.ctl.used) (claim : Claim) :
      Booking store state next thread (.initRc claim)
  | givesBack {size : ℕ} (hphase : state.phase thread = .giveBack size)
      (hsegments : next.segments = state.segments) (hused : next.ctl.used = sub64 state.ctl.used size) :
      Booking store state next thread .idle
  | unlinks {place : Place} (hphase : state.phase thread = .unlinking place)
      (hsegments : next.segments = Function.update state.segments (place.seg, true) none)
      (hused : next.ctl.used = state.ctl.used) :
      Booking store state next thread (.giveBack ((state.segments (place.seg, true)).getD 0))

structure Booked (store : PayloadStore) (pid : ℕ → UInt32) (state next : State) (thread : ℕ)
    (after : Phase) : Prop where
  phase : next.phase = Function.update state.phase thread after
  dead : next.dead = state.dead
  lock : LockStep (state.alive pid) state.locked next.locked state.lock next.lock thread
  booking : Booking store state next thread after

/-- The lock is left alone. -/
theorem lockStep_keeps {after : Phase} (hphase : next.phase = Function.update state.phase thread after)
    (hlock : next.lock = state.lock) (hlocked : after.locked = true → (state.phase thread).locked = true) :
    LockStep (state.alive pid) state.locked next.locked state.lock next.lock thread :=
  .keeps hlock fun h ↦ hlocked (by rwa [State.locked, hphase, Function.update_self] at h)

/-- A step that books nothing and leaves the lock alone. -/
theorem booked_quiet {before after : Phase} (hbefore : state.phase thread = before)
    (hphase : next.phase = Function.update state.phase thread after) (hdead : next.dead = state.dead)
    (hlock : next.lock = state.lock) (hsegments : next.segments = state.segments)
    (hused : next.ctl.used = state.ctl.used) (hlocked : after.locked = true → before.locked = true)
    (howed : after.owed = before.owed) (hplanned : after.planned store ≤ before.planned store)
    (huncounted : after.uncounted store = 0 ∧ before.uncounted store = 0) :
    ∃ after, Booked store pid state next thread after := by
  subst hbefore
  exact ⟨after, hphase, hdead, lockStep_keeps hphase hlock hlocked,
    .quiet hsegments hused howed hplanned huncounted⟩

/-- A step that books nothing and takes or frees the lock. -/
theorem booked_lock {before after : Phase} (hbefore : state.phase thread = before)
    (hphase : next.phase = Function.update state.phase thread after) (hdead : next.dead = state.dead)
    (hsegments : next.segments = state.segments) (hused : next.ctl.used = state.ctl.used)
    (hlock : lockable pid state = true ∧ next.lock = some thread ∨ before.locked = true ∧ after.locked = false)
    (howed : after.owed = before.owed) (hplanned : after.planned store ≤ before.planned store)
    (huncounted : after.uncounted store = 0 ∧ before.uncounted store = 0) :
    ∃ after, Booked store pid state next thread after := by
  subst hbefore
  refine ⟨after, hphase, hdead, ?_, .quiet hsegments hused howed hplanned huncounted⟩
  rcases hlock with ⟨hlockable, hlock⟩ | ⟨hlocked, hafter⟩
  · exact .takes (lockFree_of_lockable hlockable) hlock
  · exact .frees (.inl hlocked) (by rwa [State.locked, hphase, Function.update_self])

/-- A call that an idle thread begins and ends in one step. -/
theorem booked_idle (hidle : state.phase thread = .idle) (hphase : next.phase = state.phase)
    (hdead : next.dead = state.dead) (hlock : next.lock = state.lock) (hsegments : next.segments = state.segments)
    (hused : next.ctl.used = state.ctl.used) : ∃ after, Booked store pid state next thread after := by
  have hsame : next.phase = Function.update state.phase thread .idle := by
    rw [hphase, ← hidle, Function.update_eq_self]
  exact booked_quiet hidle hsame hdead hlock hsegments hused nofun rfl le_rfl ⟨rfl, rfl⟩

/-- The critical section of `alloc` books the bytes of the segment that it plans. -/
theorem choose_booked {request : Request} (hphase : state.phase thread = .allocLocked request) (attached : Bool) :
    ∃ after, Booked store pid state (choose store state thread request attached) thread after := by
  have hgrow : ∃ after, Booked store pid state (choose.grow store state thread request) thread after := by
    unfold choose.grow
    split
    · exact booked_quiet hphase rfl rfl rfl rfl rfl (fun _ ↦ rfl) rfl le_rfl ⟨rfl, rfl⟩
    · rename_i hroom
      refine ⟨_, rfl, rfl, lockStep_keeps rfl rfl (by simp [hphase, Phase.locked]), ?_⟩
      refine .tests hphase (not_lt.mp hroom) ?_ ?_ _ <;> rfl
  unfold choose
  dsimp only
  split
  · split <;> exact booked_quiet hphase rfl rfl rfl rfl rfl (fun _ ↦ rfl) rfl le_rfl ⟨rfl, rfl⟩
  · split
    · split
      · exact booked_quiet hphase rfl rfl rfl rfl rfl (fun _ ↦ rfl) rfl le_rfl ⟨rfl, rfl⟩
      · exact hgrow
    · exact hgrow

theorem adopt_booked (hphase : state.phase thread = .idle) (place : Place) :
    ∃ after, Booked store pid state (adopt pid state thread place) thread after := by
  unfold adopt
  dsimp only
  split
  · exact booked_idle hphase rfl rfl rfl rfl rfl
  · split <;> exact booked_idle hphase rfl rfl rfl rfl rfl

theorem dropBlock_booked (hphase : state.phase thread = .idle) (block : Block) :
    ∃ after, Booked store pid state (dropBlock state thread block) thread after := by
  unfold dropBlock
  dsimp only
  split
  · exact booked_idle hphase rfl rfl rfl rfl rfl
  · split <;> exact booked_quiet hphase rfl rfl rfl rfl rfl nofun rfl le_rfl ⟨rfl, rfl⟩

/-- Every move books the bytes it adds, creates or gives back. -/
theorem moveStep_booked {move : Move} (hnext : moveStep store pid state thread move = some next) :
    ∃ after, Booked store pid state next thread after := by
  cases moveStep_cases hnext with
  | alloc nbytes hphase =>
    unfold allocBegin
    dsimp only
    split <;> exact booked_quiet hphase rfl rfl rfl rfl rfl nofun rfl le_rfl ⟨rfl, rfl⟩
  | acquireAlloc request hphase hlockable =>
    exact booked_lock hphase rfl rfl rfl rfl (.inl ⟨hlockable, rfl⟩) rfl le_rfl ⟨rfl, rfl⟩
  | choose request attached hphase => exact choose_booked hphase attached
  | createRegular request id hphase =>
    refine ⟨_, rfl, rfl, lockStep_keeps rfl rfl (by simp [hphase, Phase.locked]), ?_⟩
    exact .creates hphase rfl rfl
  | regularFailed request id hphase =>
    exact booked_quiet hphase rfl rfl rfl rfl rfl (fun _ ↦ rfl) rfl (Nat.zero_le _) ⟨rfl, rfl⟩
  | addUsed request id hphase =>
    refine ⟨_, rfl, rfl, lockStep_keeps rfl rfl (by simp [hphase, Phase.locked]), ?_⟩
    exact .adds hphase rfl rfl
  | setCur request id hphase | setBump request id hphase =>
    exact booked_quiet hphase rfl rfl rfl rfl rfl (fun _ ↦ rfl) rfl le_rfl ⟨rfl, rfl⟩
  | unlockRefused hphase | unlockClaim claim hphase | unlockFree hphase =>
    exact booked_lock hphase rfl rfl rfl rfl (.inr ⟨rfl, rfl⟩) rfl le_rfl ⟨rfl, rfl⟩
  | attachFailed claim hphase | initRc claim hphase | initClass claim hphase | initLen claim hphase =>
    exact booked_quiet hphase rfl rfl rfl rfl rfl nofun rfl le_rfl ⟨rfl, rfl⟩
  | reserve nbytes size hphase =>
    refine ⟨_, rfl, rfl, lockStep_keeps rfl rfl ?_, ?_⟩
    · split <;> exact nofun
    · exact .reserves hphase rfl rfl
  | takeId nbytes size hphase =>
    exact booked_quiet hphase rfl rfl rfl rfl rfl nofun rfl le_rfl ⟨rfl, rfl⟩
  | createDedicated nbytes size id hphase =>
    refine ⟨_, rfl, rfl, lockStep_keeps rfl rfl nofun, ?_⟩
    refine .fills hphase ?_ ?_ _ <;> rfl
  | dedicatedFailed nbytes size id hphase =>
    exact booked_quiet hphase rfl rfl rfl rfl rfl nofun rfl (Nat.zero_le _) ⟨rfl, rfl⟩
  | giveBack size hphase =>
    refine ⟨_, rfl, rfl, lockStep_keeps rfl rfl nofun, ?_⟩
    exact .givesBack hphase rfl rfl
  | share block hphase => exact booked_idle hphase rfl rfl rfl rfl rfl
  | adopt place hphase => exact adopt_booked hphase place
  | drop block hphase => exact dropBlock_booked hphase block
  | unlink place hphase =>
    refine ⟨_, rfl, rfl, lockStep_keeps rfl rfl nofun, ?_⟩
    exact .unlinks hphase rfl rfl
  | acquireFree place hphase hlockable =>
    exact booked_lock hphase rfl rfl rfl rfl (.inl ⟨hlockable, rfl⟩) rfl le_rfl ⟨rfl, rfl⟩
  | link place cls hphase | publish place cls hphase =>
    exact booked_quiet hphase rfl rfl rfl rfl rfl (fun _ ↦ rfl) rfl le_rfl ⟨rfl, rfl⟩

/-! ## The account -/

/-- The bytes of the segments that exist. -/
noncomputable def State.existing (state : State) : ℕ := ∑ᶠ key, (state.segments key).getD 0

noncomputable def State.total (state : State) (part : Phase → ℕ) : ℕ := ∑ᶠ thread, part (state.phase thread)

structure Account (store : PayloadStore) (pid : ℕ → UInt32) (state : State) : Prop where
  alive : ∀ process, state.dead process = false
  exclusive : LockHeld (state.alive pid) state.locked state.lock
  segments : (Function.support fun key ↦ (state.segments key).getD 0).Finite
  threads : {thread | state.phase thread ≠ .idle}.Finite
  created : ∀ thread request id, state.phase thread = .addUsed request id →
    state.segments (id, false) = some store.segBytes
  word : state.ctl.used < 2 ^ 64
  used : state.existing + state.total Phase.owed ≤ state.ctl.used + state.total (Phase.uncounted store)
  cap : state.existing + state.total (Phase.planned store) ≤ store.limit

theorem Account.support (h : Account store pid state) (part : Phase → ℕ) (hidle : part .idle = 0) :
    (Function.support fun thread ↦ part (state.phase thread)).Finite := by
  refine h.threads.subset fun thread hthread hphase ↦ ?_
  rw [Function.mem_support, hphase] at hthread
  exact hthread hidle

/-- A thread's bytes enter the total as its phase changes. -/
theorem Account.total_eq (h : Account store pid state) {after : Phase}
    (hphase : next.phase = Function.update state.phase thread after) (part : Phase → ℕ) (hidle : part .idle = 0) :
    next.total part + part (state.phase thread) = state.total part + part after := by
  have hsum := finsum_update_comp part state.phase thread after (h.support part hidle)
  rwa [← hphase] at hsum

theorem Account.existing_eq (h : Account store pid state) {key : ℕ × Bool} {value : Option ℕ}
    (hsegments : next.segments = Function.update state.segments key value) :
    next.existing + (state.segments key).getD 0 = state.existing + value.getD 0 := by
  have hsum := finsum_update_comp (fun length : Option ℕ ↦ length.getD 0) state.segments key value h.segments
  rwa [← hsegments] at hsum

/-- A quantity of critical sections is the lock holder's. -/
theorem Account.total_locked (h : Account store pid state) (part : Phase → ℕ)
    (hlocked : ∀ phase, part phase ≠ 0 → phase.locked = true) :
    state.total part = state.lock.elim 0 fun holder ↦ part (state.phase holder) := by
  have hholder (thread : ℕ) (hpart : part (state.phase thread) ≠ 0) : state.lock = some thread :=
    h.exclusive thread (by simp [State.alive, h.alive]) (hlocked _ hpart)
  cases hlock : state.lock with
  | none =>
    refine finsum_eq_zero_of_forall_eq_zero fun thread ↦ ?_
    by_contra hcontra
    rw [hholder thread hcontra] at hlock
    cases hlock
  | some holder =>
    refine finsum_eq_single _ holder fun thread hne ↦ ?_
    by_contra hcontra
    rw [hholder thread hcontra, Option.some.injEq] at hlock
    exact hne hlock

theorem Account.tested_eq (h : Account store pid state) :
    state.total (Phase.tested store) = state.tested store := by
  rw [h.total_locked _ fun phase ↦ Phase.locked_of_tested, State.tested]
  cases state.lock <;> rfl

/-- The segment that `used` does not count yet exists. -/
theorem Account.uncounted_le (h : Account store pid state) :
    state.total (Phase.uncounted store) ≤ state.existing := by
  rw [h.total_locked _ fun phase ↦ Phase.locked_of_uncounted]
  cases state.lock with
  | none => exact Nat.zero_le _
  | some holder =>
    show (state.phase holder).uncounted store ≤ state.existing
    cases hphase : state.phase holder with
    | addUsed request id =>
      have hle := sum_le_finsum _ h.segments {(id, false)}
      rwa [Finset.sum_singleton, h.created holder request id hphase] at hle
    | _ => exact Nat.zero_le _

/-- What exists or is planned is in `used`, but for what the lock holder has tested for. -/
theorem Account.planned_le_used (h : Account store pid state) :
    state.existing + state.total (Phase.planned store) ≤ state.ctl.used + state.tested store := by
  have hle : state.total (Phase.planned store) + state.total (Phase.uncounted store) ≤
      state.total Phase.owed + state.total (Phase.tested store) := by
    unfold State.total
    rw [← finsum_add_distrib (h.support (Phase.planned store) rfl) (h.support (Phase.uncounted store) rfl),
      ← finsum_add_distrib (h.support Phase.owed rfl) (h.support (Phase.tested store) rfl)]
    exact finsum_le_finsum' (h.support (fun phase ↦ phase.planned store + phase.uncounted store) rfl)
      (h.support (fun phase ↦ phase.owed + phase.tested store) rfl)
      fun thread ↦ Phase.planned_le store (state.phase thread)
  have hused := h.used
  rw [h.tested_eq] at hle
  omega

/-- A balanced account is within the limit. -/
theorem Account.withinLimit (h : Account store pid state) : WithinLimit store state := by
  intro keys
  have hle := sum_le_finsum _ h.segments keys
  have hcap := h.cap
  unfold State.existing at hcap
  omega

theorem account_start : Account store pid .start where
  alive := fun _ ↦ rfl
  exclusive := fun _ _ hlocked ↦ absurd hlocked nofun
  segments := by simp [State.start]
  threads := by simp [State.start]
  created := by simp [State.start]
  word := by simp [State.start]
  used := by simp [State.existing, State.total, State.start, Phase.owed]
  cap := by simp [State.existing, State.total, State.start, Phase.planned]

/-- One thread's step, as long as what it adds to the segments and to its own bytes is in `used` and
within the limit. -/
theorem Account.move (h : Account store pid state) {after : Phase} (hbooked : Booked store pid state next thread after)
    {key : ℕ × Bool} {value : Option ℕ} (hsegments : next.segments = Function.update state.segments key value)
    (hregular : ∀ id, next.segments (id, false) = state.segments (id, false) ∨
      next.segments (id, false) = some store.segBytes)
    (hcreated : ∀ request id, after = .addUsed request id → next.segments (id, false) = some store.segBytes)
    (hword : next.ctl.used < 2 ^ 64)
    (hused : value.getD 0 + after.owed + (state.ctl.used + (state.phase thread).uncounted store) ≤
      (state.segments key).getD 0 + (state.phase thread).owed + (next.ctl.used + after.uncounted store))
    (hcap : state.existing + state.total (Phase.planned store) + (value.getD 0 + after.planned store) ≤
      store.limit + ((state.segments key).getD 0 + (state.phase thread).planned store)) :
    Account store pid next := by
  have hexisting := h.existing_eq hsegments
  have howed := h.total_eq hbooked.phase Phase.owed rfl
  have huncounted := h.total_eq hbooked.phase (Phase.uncounted store) rfl
  have hplanned := h.total_eq hbooked.phase (Phase.planned store) rfl
  have hbefore := h.used
  refine ⟨?_, ?_, ?_, ?_, ?_, hword, by omega, by omega⟩
  · rw [hbooked.dead]
    exact h.alive
  · have hsame : next.alive pid = state.alive pid := by
      funext thread
      rw [State.alive, State.alive, hbooked.dead]
    rw [hsame]
    refine h.exclusive.step (by simp [State.alive, h.alive]) (fun other hne ↦ ?_) hbooked.lock
    rw [State.locked, State.locked, hbooked.phase, Function.update_of_ne hne]
  · rw [hsegments]
    exact finite_support_update (fun length : Option ℕ ↦ length.getD 0) state.segments key value h.segments
  · refine (h.threads.insert thread).subset fun other hother ↦ ?_
    rcases eq_or_ne other thread with rfl | hne
    · exact Set.mem_insert _ _
    · rw [Set.mem_ofPred_eq, hbooked.phase, Function.update_of_ne hne] at hother
      exact Set.mem_insert_of_mem _ hother
  · intro other request id hother
    rcases eq_or_ne other thread with rfl | hne
    · rw [hbooked.phase, Function.update_self] at hother
      exact hcreated request id hother
    · rw [hbooked.phase, Function.update_of_ne hne] at hother
      rcases hregular id with hsame | hnew
      · rw [hsame]
        exact h.created other request id hother
      · exact hnew

/-- A step that leaves the segments alone. -/
theorem Account.same (h : Account store pid state) {after : Phase} (hbooked : Booked store pid state next thread after)
    (hsegments : next.segments = state.segments)
    (hcreated : ∀ request id, after ≠ .addUsed request id) (hword : next.ctl.used < 2 ^ 64)
    (hused : after.owed + (state.ctl.used + (state.phase thread).uncounted store) ≤
      (state.phase thread).owed + (next.ctl.used + after.uncounted store))
    (hcap : state.existing + state.total (Phase.planned store) + after.planned store ≤
      store.limit + (state.phase thread).planned store) : Account store pid next := by
  have hupdate : next.segments = Function.update state.segments (0, false) (state.segments (0, false)) := by
    rw [hsegments, Function.update_eq_self]
  exact h.move hbooked hupdate (fun id ↦ .inl (by rw [hsegments]))
    (fun request id hafter ↦ absurd hafter (hcreated request id)) hword (by omega) (by omega)

/-- `used` counts what the threads owe. -/
theorem Account.owed_le (h : Account store pid state) (thread : ℕ) :
    (state.phase thread).owed ≤ state.ctl.used := by
  have howed : (state.phase thread).owed ≤ state.total Phase.owed := by
    have hle := sum_le_finsum _ (h.support Phase.owed rfl) {thread}
    rwa [Finset.sum_singleton] at hle
  have huncounted := h.uncounted_le
  have hused := h.used
  omega

/-- Every move of a capped run keeps the account balanced. -/
theorem Account.step {move : Move} (h : Account store pid state)
    (hallowed : capped store state (.act thread move) = true)
    (hnext : moveStep store pid state thread move = some next) : Account store pid next := by
  obtain ⟨after, hbooked⟩ := moveStep_booked hnext
  have hcap := h.cap
  have hword := h.word
  have hused := h.planned_le_used
  cases hbooked.booking with
  | quiet hsegments hsame howed hplanned huncounted =>
    refine h.same hbooked hsegments ?_ (by omega) (by omega) (by omega)
    rintro request id rfl
    have hpos := store.min_le
    have hzero : store.segBytes = 0 := huncounted.1
    omega
  | tests hphase hroom hsegments hsame id =>
    -- the thread holds the lock, so that nobody else is between test and addition
    have hlock : state.lock = some thread :=
      h.exclusive thread (by simp [State.alive, h.alive]) (by rw [State.locked, hphase]; rfl)
    have htested : state.tested store = 0 := by simp [State.tested, hlock, hphase, Phase.tested]
    simp only [capped, hphase, decide_eq_true_eq] at hallowed
    rw [Nat.mod_eq_of_lt hallowed] at hroom
    refine h.same hbooked hsegments nofun (by omega) ?_ ?_ <;>
      simp only [hphase, hsame, Phase.owed, Phase.uncounted, Phase.planned] <;> omega
  | @creates request id hphase hsegments hsame =>
    refine h.move hbooked hsegments (fun other ↦ ?_) (fun request' id' hafter ↦ ?_) (by omega) ?_ ?_
    · rcases eq_or_ne other id with rfl | hne
      · right
        rw [hsegments, Function.update_self]
      · left
        rw [hsegments, Function.update_of_ne (by simpa using hne)]
    · cases hafter
      rw [hsegments, Function.update_self]
    · simp only [hphase, hsame, Phase.owed, Phase.uncounted, Option.getD_some]
      omega
    · simp only [hphase, Phase.planned, Option.getD_some]
      omega
  | adds hphase hsegments hsame =>
    simp only [capped, hphase, decide_eq_true_eq] at hallowed
    rw [Nat.mod_eq_of_lt hallowed] at hsame
    refine h.same hbooked hsegments nofun (by omega) ?_ ?_ <;>
      simp only [hphase, hsame, Phase.owed, Phase.uncounted, Phase.planned] <;> omega
  | reserves hphase hsegments hsame =>
    simp only [capped, hphase, Bool.and_eq_true, Bool.or_eq_true, decide_eq_true_eq] at hallowed
    obtain ⟨hfits, hroom⟩ := hallowed
    rw [Nat.mod_eq_of_lt hfits] at hsame hbooked
    split at hbooked
    all_goals
      refine h.same hbooked hsegments nofun (by omega) ?_ ?_ <;>
        simp only [hphase, hsame, Phase.owed, Phase.uncounted, Phase.planned] <;> omega
  | fills hphase hsegments hsame claim =>
    refine h.move hbooked hsegments (fun other ↦ .inl ?_) nofun (by omega) ?_ ?_
    · rw [hsegments, Function.update_of_ne (by simp)]
    · simp only [hphase, hsame, Phase.owed, Phase.uncounted, Option.getD_some]
      omega
    · simp only [hphase, Phase.planned, Option.getD_some]
      omega
  | @givesBack size hphase hsegments hsame =>
    have howed := h.owed_le thread
    simp only [hphase, Phase.owed] at howed
    have hsub : sub64 state.ctl.used size = state.ctl.used - size := by
      unfold sub64
      omega
    rw [hsub] at hsame
    refine h.same hbooked hsegments nofun (by omega) ?_ ?_ <;>
      simp only [hphase, hsame, Phase.owed, Phase.uncounted, Phase.planned] <;> omega
  | unlinks hphase hsegments hsame =>
    refine h.move hbooked hsegments (fun other ↦ .inl ?_) nofun (by omega) ?_ ?_
    · rw [hsegments, Function.update_of_ne (by simp)]
    · simp only [hphase, hsame, Phase.owed, Phase.uncounted, Option.getD_none]
      omega
    · simp only [hphase, Phase.planned, Option.getD_none]
      omega

/-- In every run without deaths in which no reservation gets in between `alloc`'s test and its addition for
bytes that are not there. -/
theorem withinLimit_of_capped (store : PayloadStore) (pid : ℕ → UInt32) (state : State)
    (h : ((machine store pid).restrict (capped store)).Reachable state) : WithinLimit store state := by
  refine (h.invariant (Account store pid) account_start ?_).withinLimit
  intro state action next hstate hstep
  obtain ⟨hallowed, hnext⟩ := Machine.restrict_step hstep
  cases action with
  | die process => cases hallowed
  | act thread move =>
    simp only [machine, step, Option.ite_none_left_eq_some] at hnext
    exact hstate.step hallowed hnext.2

/-! ## Two allocations -/

/-- An `alloc` that gets a segment of its own, up to the segment. -/
def dedicatedAlloc (thread nbytes : ℕ) : List Action :=
  [.act thread (.alloc nbytes), .act thread .reserve, .act thread .takeId, .act thread (.create true)]

/-- Two segments of 64 KiB under a limit of 1 MiB. -/
theorem withinLimit_twoSegments : ∃ state,
    ((machine smallStore UInt32.ofNat).restrict (capped smallStore)).Reachable state ∧
      state.ctl.used = 131072 ∧ WithinLimit smallStore state := by
  have hrun : (((machine smallStore UInt32.ofNat).restrict (capped smallStore)).runFrom .start
      (firstAlloc 100 ++ dedicatedAlloc 1 20000)).map (fun state ↦ state.ctl.used) = some 131072 := by
    decide +kernel
  obtain ⟨state, hstate, hused⟩ := Option.map_eq_some_iff.mp hrun
  exact ⟨state, ⟨_, hstate⟩, hused, withinLimit_of_capped smallStore _ state ⟨_, hstate⟩⟩

def tightStore : PayloadStore := { smallStore with limit := 65536 }

/-- A dedicated segment is reserved and created after `alloc` has found room for its own. -/
theorem not_withinLimit : ¬ ∀ (store : PayloadStore) (pid : ℕ → UInt32) (state : State),
    ((machine store pid).restrict noDeath).Reachable state → WithinLimit store state := by
  intro hall
  have hrun : (((machine tightStore UInt32.ofNat).restrict noDeath).runFrom .start
        ([.act 0 (.alloc 8), .act 0 .acquire, .act 0 (.choose true)] ++ dedicatedAlloc 1 20000 ++
          [.act 0 (.create true)])).map (fun state ↦ (state.segments (0, false), state.segments (0, true))) =
            some (some 65536, some 65536) := by decide +kernel
  obtain ⟨state, hstate, hsegments⟩ := Option.map_eq_some_iff.mp hrun
  rw [Prod.mk.injEq] at hsegments
  have hwithin := hall tightStore _ state ⟨_, hstate⟩ {(0, false), (0, true)}
  rw [Finset.sum_pair (by decide), hsegments.1, hsegments.2] at hwithin
  exact absurd hwithin (by decide)

end GpuPipe.Store
