import GpuPipe.Library.Mutex
import GpuPipe.Ring.Undo

/-!
# Records that cannot be read back

`get` and `get_many` pop their records and give the lock back before they read spilled payloads from
shared memory or disk. Here such a read may fail at any time. Beside the ring the machine keeps what each
call popped, and at its end whether the call returned all of it or raised at one of its records.
-/

namespace GpuPipe.Ring

/-- A call of `get` or `get_many` after its wait: `max_items`, the ring as its pops begin, and what it
popped. -/
structure GetNote where
  limit : ℕ
  start : Shared
  batch : List Popped

/-- A call that ended: returned to its caller (`failed = none`), or raised at a record. -/
structure Outcome where
  note : GetNote
  failed : Option Popped

structure Watch where
  ring : State
  notes : ℕ → GetNote
  outcomes : List Outcome

/-- A step of the ring, or a read of a spilled payload that fails. -/
inductive WatchAction
  | ring (action : Action)
  | unreadable (thread : ℕ)

section Steps

variable (queue : RingQueue) (pid : ℕ → UInt32) (watch : Watch)

def Watch.ends (ring : State) (thread : ℕ) (failed : Option Popped) : Watch :=
  { watch with ring := ring, outcomes := watch.outcomes ++ [⟨watch.notes thread, failed⟩] }

/-- What is written down of a step of the ring. -/
def Watch.record (next : State) : Action → Watch
  | .act thread (.getCheck _) =>
    match watch.ring.phase thread with
    | .getLocked get => { watch with
        ring := next
        notes := Function.update watch.notes thread ⟨get.limit, watch.ring.shared, []⟩ }
    | _ => { watch with ring := next }
  | .act thread .finishPops =>
    match watch.ring.phase thread with
    | .finishing _ got => { watch with
        ring := next
        notes := Function.update watch.notes thread { watch.notes thread with batch := got } }
    | _ => { watch with ring := next }
  | .act thread .materialize =>
    match watch.ring.phase thread with
    | .reading (popped :: rest) =>
      -- `get_many` hands its list over only when it has read all of it
      if (materialize watch.ring.objects popped.record).1.isNone then
        watch.ends next thread (some popped)
      else if rest.isEmpty then watch.ends next thread none
      else { watch with ring := next }
    | _ => { watch with ring := next }
  | _ => { watch with ring := next }

/-- A failed read leaves a shared memory object and removes a file. -/
def afterFailedRead (objects : Objects) : Medium × Bytes → Objects
  | (.shm, _) => objects
  | (.disk, name) => Function.update objects (.disk, name) none

def watchStep : WatchAction → Option Watch
  | .ring action => (step queue pid watch.ring action).map fun next ↦ watch.record next action
  | .unreadable thread =>
    if watch.ring.dead (pid thread) then none
    else
      match watch.ring.phase thread with
      | .reading (popped :: _) =>
        popped.record.place.map fun place ↦
          watch.ends (State.goto { watch.ring with
            objects := afterFailedRead watch.ring.objects place } thread .idle) thread (some popped)
      | _ => none

end Steps

def watchMachine (queue : RingQueue) (pid : ℕ → UInt32) : Machine Watch WatchAction where
  start := ⟨.start, fun _ ↦ ⟨0, .empty, []⟩, []⟩
  step := watchStep queue pid

/-- The call popped nothing beyond the record it raised at that it neither returned nor left readable: an
item is returned with its call, and readable as long as it has not been popped. -/
def CostsOnlyItself (watch : Watch) (outcome : Outcome) (failed : Popped) : Prop :=
  ∀ popped ∈ outcome.note.batch, popped.index ≠ failed.index →
    (∃ other ∈ watch.outcomes, other.failed = none ∧ popped ∈ other.note.batch) ∨
      watch.ring.pops.length ≤ popped.index

/-- One item was asked for, or the ring held one as the pops began. -/
def TakesOne (queue : RingQueue) (note : GetNote) : Prop :=
  note.limit ≤ 1 ∨ (nextRecord queue note.start).2 = note.start.tail

/-! ## Who holds the lock -/

variable {queue : RingQueue} {pid : ℕ → UInt32} {state next : State} {thread : ℕ} {move : Move}

def State.alive (pid : ℕ → UInt32) (state : State) (thread : ℕ) : Bool := !state.dead (pid thread)

def State.locked (state : State) (thread : ℕ) : Bool := (state.phase thread).locked

theorem lockFree_of_lockable (h : lockable pid state = true) : LockFree (state.alive pid) state.lock := by
  intro holder hlock
  simpa [lockable, hlock, State.alive] using h

/-- Offsets and bytes are changed under the lock only. -/
structure Footprint (pid : ℕ → UInt32) (state next : State) (thread : ℕ) : Prop where
  phase : ∀ other, other ≠ thread → next.phase other = state.phase other
  dead : next.dead = state.dead
  lock : LockStep (state.alive pid) state.locked next.locked state.lock next.lock thread
  ring : (state.phase thread).locked = true ∨
    next.shared.head = state.shared.head ∧ next.shared.tail = state.shared.tail ∧
      next.shared.bytes = state.shared.bytes

theorem goto_other (state : State) (thread : ℕ) (phase : Phase) {other : ℕ} (hne : other ≠ thread) :
    (state.goto thread phase).phase other = state.phase other :=
  Function.update_of_ne hne _ _

theorem goto_self (state : State) (thread : ℕ) (phase : Phase) :
    (state.goto thread phase).phase thread = phase :=
  Function.update_self _ _ _

/-- A move outside the critical sections that leaves lock and ring alone. -/
theorem Footprint.quiet {phase : Phase} (hphase : next.phase = Function.update state.phase thread phase)
    (hdead : next.dead = state.dead) (hlock : next.lock = state.lock) (hshared : next.shared = state.shared)
    (hlocked : phase.locked = true → (state.phase thread).locked = true) :
    Footprint pid state next thread where
  phase := fun other hne ↦ by rw [hphase, Function.update_of_ne hne]
  dead := hdead
  lock := .keeps hlock fun h ↦ hlocked (by rwa [State.locked, hphase, Function.update_self] at h)
  ring := .inr ⟨by rw [hshared], by rw [hshared], by rw [hshared]⟩

/-- A move inside a critical section. -/
theorem Footprint.inside {phase : Phase} (hlocked : (state.phase thread).locked = true)
    (hphase : next.phase = Function.update state.phase thread phase) (hdead : next.dead = state.dead)
    (hlock : next.lock = state.lock ∨ phase.locked = false) : Footprint pid state next thread where
  phase := fun other hne ↦ by rw [hphase, Function.update_of_ne hne]
  dead := hdead
  lock := by
    rcases hlock with hlock | hfree
    · exact .keeps hlock fun _ ↦ hlocked
    · exact .frees (.inl hlocked) (by rw [State.locked, hphase, Function.update_self]; exact hfree)
  ring := .inl hlocked

/-- Only the thread with the lock changes offsets and bytes. -/
theorem moveStep_footprint (h : moveStep queue pid state thread move = some next) :
    Footprint pid state next thread := by
  have htakes (hlockable : lockable pid state = true) (phase : Phase) :
      Footprint pid state (State.goto { state with lock := some thread } thread phase) thread :=
    ⟨fun other hne ↦ goto_other _ _ _ hne, rfl, .takes (lockFree_of_lockable hlockable) rfl, .inr ⟨rfl, rfl, rfl⟩⟩
  cases moveStep_cases h with
  | putBegin | getBegin => exact .quiet rfl rfl rfl rfl nofun
  | spill put result hphase _ _ hspill =>
    have hframe := spill_frame hspill
    rcases hframe.phase with hnext | ⟨put', hnext⟩
    · exact .quiet hnext hframe.dead hframe.lock hframe.shared nofun
    · exact .quiet hnext hframe.dead hframe.lock hframe.shared nofun
  | acquirePut _ _ _ hlockable | acquireGet _ _ hlockable => exact htakes hlockable _
  | putDecide put clock hphase =>
    have hlocked : (state.phase thread).locked = true := by rw [hphase]; rfl
    unfold putDecide
    dsimp only
    repeat' split
    all_goals first | exact .inside hlocked rfl rfl (.inl rfl) | exact .inside hlocked rfl rfl (.inr rfl)
  | store _ _ _ _ _ hphase | storeTail _ _ hphase | addCount _ hphase | getItems _ _ hphase
  | popEnough _ _ hphase | popEmpty _ _ hphase | pop _ _ hphase | storeCount _ _ hphase
  | resync _ _ hphase => exact .inside (by rw [hphase]; rfl) rfl rfl (.inl rfl)
  | putDone _ hphase | getExpired _ _ hphase | getAgain _ _ hphase | finishRead _ _ _ hphase
  | finishMany _ hphase | finishAgain _ hphase => exact .inside (by rw [hphase]; rfl) rfl rfl (.inr rfl)
  | interrupted | wake => exact .quiet rfl rfl rfl rfl nofun
  | putAbort put _ hlockable =>
    exact ⟨fun other hne ↦ goto_other _ _ _ hne, rfl,
      .frees (.inr (lockFree_of_lockable hlockable)) (by rw [State.locked, goto_self]; rfl),
      .inr ⟨clearPending_head _ _, clearPending_tail _ _, clearPending_bytes _ _⟩⟩
  | materialize popped rest =>
    unfold materializeNext
    split
    · exact .quiet rfl rfl rfl rfl (by cases rest <;> exact nofun)
    · exact .quiet rfl rfl rfl rfl nofun

/-- At most one live thread is in a critical section. -/
def Exclusive (pid : ℕ → UInt32) (state : State) : Prop :=
  LockHeld (state.alive pid) state.locked state.lock

theorem Exclusive.alone (h : Exclusive pid state) (halive : state.dead (pid thread) = false)
    (hlocked : (state.phase thread).locked = true) {other : ℕ} (hne : other ≠ thread)
    (hother : state.dead (pid other) = false) : (state.phase other).locked = false := by
  have hout := LockHeld.alone h (by simp [State.alive, halive]) (show state.locked thread = true from hlocked)
    hne (by simp [State.alive, hother])
  exact hout

theorem Exclusive.footprint (h : Exclusive pid state) (halive : state.dead (pid thread) = false)
    (hfoot : Footprint pid state next thread) : Exclusive pid next := by
  have hsame : next.alive pid = state.alive pid := by
    funext thread
    rw [State.alive, State.alive, hfoot.dead]
  rw [Exclusive, hsame]
  refine LockHeld.step h (by simp [State.alive, halive]) (fun other hne ↦ ?_) hfoot.lock
  rw [State.locked, State.locked, hfoot.phase other hne]

/-! ## What a step does to a call that pops -/

variable {watch after : Watch}

/-- Phases with popped records in hand. -/
def Phase.gathering : Phase → Bool
  | .popping _ _ | .popCount _ _ | .resyncing _ _ | .finishing _ _ | .reading _ => true
  | _ => false

/-- A step of a thread, as far as calls that pop are concerned. -/
inductive GetEffect (queue : RingQueue) (watch after : Watch) (thread : ℕ) : Prop
  | aside (note : GetNote) (hphase : (after.ring.phase thread).gathering = false)
      (hpops : after.ring.pops = watch.ring.pops)
      (hnotes : after.notes = Function.update watch.notes thread note)
      (houtcomes : after.outcomes = watch.outcomes)
  | begins (get : GetCall) (hold : watch.ring.phase thread = .getLocked get)
      (hphase : after.ring.phase thread = .popping get []) (hshared : after.ring.shared = watch.ring.shared)
      (hpops : after.ring.pops = watch.ring.pops)
      (hnotes : after.notes = Function.update watch.notes thread ⟨get.limit, watch.ring.shared, []⟩)
      (houtcomes : after.outcomes = watch.outcomes)
  | pops (get : GetCall) (got : List Popped) (hold : watch.ring.phase thread = .popping get got)
      (hmore : got.length < get.limit) (hne : watch.ring.shared.head ≠ watch.ring.shared.tail)
      (hphase : after.ring.phase thread = .popCount get
        (got ++ [⟨watch.ring.pops.length, (nextRecord queue watch.ring.shared).1⟩]))
      (hshared : after.ring.shared =
        { watch.ring.shared with head := (nextRecord queue watch.ring.shared).2 })
      (hpops : after.ring.pops = watch.ring.pops ++ [thread]) (hnotes : after.notes = watch.notes)
      (houtcomes : after.outcomes = watch.outcomes)
  | moves (get : GetCall) (got : List Popped)
      (hold : watch.ring.phase thread = .popping get got ∧
          (get.limit ≤ got.length ∨ watch.ring.shared.head = watch.ring.shared.tail) ∧
          (after.ring.phase thread = .finishing get got ∨ after.ring.phase thread = .resyncing get got) ∨
        watch.ring.phase thread = .popCount get got ∧ after.ring.phase thread = .popping get got ∨
        watch.ring.phase thread = .resyncing get got ∧ after.ring.phase thread = .finishing get got)
      (hshared : ∃ count, after.ring.shared = { watch.ring.shared with count := count })
      (hpops : after.ring.pops = watch.ring.pops) (hnotes : after.notes = watch.notes)
      (houtcomes : after.outcomes = watch.outcomes)
  | reads (get : GetCall) (got : List Popped) (hold : watch.ring.phase thread = .finishing get got)
      (hphase : after.ring.phase thread = .reading got) (hpops : after.ring.pops = watch.ring.pops)
      (hnotes : after.notes =
        Function.update watch.notes thread { watch.notes thread with batch := got })
      (houtcomes : after.outcomes = watch.outcomes)
  | goes (popped : Popped) (rest : List Popped) (hold : watch.ring.phase thread = .reading (popped :: rest))
      (hphase : after.ring.phase thread = .reading rest) (hpops : after.ring.pops = watch.ring.pops)
      (hnotes : after.notes = watch.notes) (houtcomes : after.outcomes = watch.outcomes)
  | ends (popped : Popped) (rest : List Popped) (failed : Option Popped)
      (hold : watch.ring.phase thread = .reading (popped :: rest))
      (hphase : (after.ring.phase thread).gathering = false) (hpops : after.ring.pops = watch.ring.pops)
      (hnotes : after.notes = watch.notes)
      (houtcomes : after.outcomes = watch.outcomes ++ [⟨watch.notes thread, failed⟩])
      (hfailed : ∀ record, failed = some record → record = popped)

/-- Moves that get a step written down do so with the phase they start from. -/
theorem GetEffect.quiet {phase : Phase} (hphase : next.phase = Function.update watch.ring.phase thread phase)
    (hgathering : phase.gathering = false) (hpops : next.pops = watch.ring.pops) :
    GetEffect queue watch { watch with ring := next } thread :=
  .aside (watch.notes thread) (by rw [hphase, Function.update_self]; exact hgathering) hpops
    (Function.update_eq_self _ _).symm rfl

/-- A pop is made only while fewer than `max_items` are in hand. -/
theorem pop_more {get : GetCall} {got got' : List Popped}
    (h : moveStep queue pid state thread move = some next) (hphase : state.phase thread = .popping get got)
    (hnext : next.phase thread = .popCount get got') : got.length < get.limit := by
  by_contra hfull
  cases move with
  | pop =>
    simp only [moveStep, hphase, popNext, if_pos (not_lt.mp hfull), Option.some.injEq] at h
    rw [← h, goto_self] at hnext
    cases hnext
  | _ => simp [moveStep, hphase] at h

/-- What a move does to what calls have popped. -/
theorem moveStep_getEffect (h : moveStep queue pid watch.ring thread move = some next) :
    GetEffect queue watch (watch.record next (.act thread move)) thread := by
  cases moveStep_cases h with
  | putBegin | acquirePut | store | storeTail | addCount | putDone | interrupted | wake | putAbort
  | acquireGet | getBegin => exact .quiet rfl rfl rfl
  | spill put result hphase _ _ hspill =>
    have hframe := spill_frame hspill
    rcases hframe.phase with hnext | ⟨put', hnext⟩
    · exact .quiet hnext rfl hframe.pops
    · exact .quiet hnext rfl hframe.pops
  | putDecide put clock =>
    have hpops : (putDecide queue watch.ring thread put clock).pops = watch.ring.pops :=
      (putDecide_history put clock).2.1
    refine .aside (watch.notes thread) ?_ hpops (Function.update_eq_self _ _).symm rfl
    show ((putDecide queue watch.ring thread put clock).phase thread).gathering = false
    unfold putDecide
    dsimp only
    repeat' split
    all_goals
      rw [goto_self]
      rfl
  | getItems get clock hphase =>
    rw [Watch.record, hphase]
    exact .begins get hphase (goto_self _ _ _) rfl rfl rfl rfl
  | getExpired get clock hphase | getAgain get clock hphase =>
    rw [Watch.record, hphase]
    exact .aside _ (by rw [goto_self]; rfl) rfl rfl rfl
  | popEnough get got hphase hfull =>
    exact .moves get got (.inl ⟨hphase, .inl hfull, .inl (goto_self _ _ _)⟩) ⟨_, rfl⟩ rfl rfl rfl
  | popEmpty get got hphase hempty =>
    exact .moves get got (.inl ⟨hphase, .inr hempty, .inr (goto_self _ _ _)⟩) ⟨_, rfl⟩ rfl rfl rfl
  | pop get got hphase hne =>
    exact .pops get got hphase (pop_more h hphase (goto_self _ _ _)) hne (goto_self _ _ _) rfl rfl rfl rfl
  | storeCount get got hphase =>
    exact .moves get got (.inr (.inl ⟨hphase, goto_self _ _ _⟩)) ⟨_, rfl⟩ rfl rfl rfl
  | resync get got hphase =>
    exact .moves get got (.inr (.inr ⟨hphase, goto_self _ _ _⟩)) ⟨_, rfl⟩ rfl rfl rfl
  | finishRead get popped rest hphase =>
    rw [Watch.record, hphase]
    exact .reads get _ hphase (goto_self _ _ _) rfl rfl rfl
  | finishMany get hphase | finishAgain get hphase =>
    rw [Watch.record, hphase]
    exact .aside _ (by rw [goto_self]; rfl) rfl rfl rfl
  | materialize popped rest hphase =>
    rw [Watch.record, hphase]
    cases hresult : materialize watch.ring.objects popped.record with
    | mk payload objects =>
      simp only [materializeNext, hresult]
      have hidle (ring : State) : ((ring.goto thread .idle).phase thread).gathering = false := by
        rw [goto_self]
        rfl
      cases payload with
      | none =>
        refine .ends popped rest (some popped) hphase (hidle _) rfl rfl rfl ?_
        exact fun record hrecord ↦ (Option.some.inj hrecord).symm
      | some bytes =>
        cases rest with
        | nil =>
          refine .ends popped [] none hphase (hidle _) rfl rfl rfl ?_
          exact fun record hrecord ↦ by cases hrecord
        | cons other rest => exact .goes popped (other :: rest) hphase (goto_self _ _ _) rfl rfl rfl

/-! ## Every pop belongs to one call -/

/-- What the call of a thread has popped so far. -/
def Phase.popped (note : GetNote) : Phase → List Popped
  | .popping _ got | .popCount _ got | .resyncing _ got | .finishing _ got => got
  | .reading _ => note.batch
  | _ => []

def Watch.hand (watch : Watch) (thread : ℕ) : List Popped :=
  (watch.ring.phase thread).popped (watch.notes thread)

/-- The pops of the calls that have ended. -/
def Watch.spent (watch : Watch) : List ℕ :=
  watch.outcomes.flatMap fun outcome ↦ outcome.note.batch.map Popped.index

/-- Every pop is in the hand of the thread that made it, or in one outcome. -/
structure Taken (watch : Watch) : Prop where
  owner : ∀ thread, ∀ popped ∈ watch.hand thread, watch.ring.pops[popped.index]? = some thread
  nodup : ∀ thread, ((watch.hand thread).map Popped.index).Nodup
  fresh : ∀ thread, ∀ popped ∈ watch.hand thread, popped.index ∉ watch.spent
  spent_lt : ∀ index ∈ watch.spent, index < watch.ring.pops.length
  spent_nodup : watch.spent.Nodup

theorem Phase.popped_of_not_gathering {phase : Phase} (h : phase.gathering = false) (note : GetNote) :
    phase.popped note = [] := by
  cases phase <;> first | rfl | cases h

theorem Taken.lt (h : Taken watch) {popped : Popped} (hmem : popped ∈ watch.hand thread) :
    popped.index < watch.ring.pops.length :=
  (List.getElem?_eq_some_iff.mp (h.owner thread popped hmem)).1

/-- A step that gives the thread another hand and ends no call. -/
theorem Taken.keep (h : Taken watch) (hpops : after.ring.pops = watch.ring.pops)
    (houtcomes : after.outcomes = watch.outcomes)
    (hothers : ∀ other, other ≠ thread → after.hand other = watch.hand other)
    (hhand : after.hand thread = watch.hand thread ∨ after.hand thread = []) : Taken after := by
  have hall : ∀ other, after.hand other = watch.hand other ∨ after.hand other = [] := by
    intro other
    rcases eq_or_ne other thread with rfl | hne
    · exact hhand
    · exact .inl (hothers other hne)
  have hspent : after.spent = watch.spent := by rw [Watch.spent, houtcomes]; rfl
  constructor
  · intro other popped hmem
    rw [hpops]
    rcases hall other with heq | heq <;> rw [heq] at hmem
    · exact h.owner other popped hmem
    · cases hmem
  · intro other
    rcases hall other with heq | heq <;> rw [heq]
    · exact h.nodup other
    · exact List.nodup_nil
  · intro other popped hmem
    rw [hspent]
    rcases hall other with heq | heq <;> rw [heq] at hmem
    · exact h.fresh other popped hmem
    · cases hmem
  · rw [hspent, hpops]
    exact h.spent_lt
  · rw [hspent]
    exact h.spent_nodup

/-- The thread pops one more. -/
theorem Taken.pop (h : Taken watch) (hpops : after.ring.pops = watch.ring.pops ++ [thread])
    (houtcomes : after.outcomes = watch.outcomes)
    (hothers : ∀ other, other ≠ thread → after.hand other = watch.hand other) {record : Record}
    (hhand : after.hand thread = watch.hand thread ++ [⟨watch.ring.pops.length, record⟩]) :
    Taken after := by
  have hspent : after.spent = watch.spent := by rw [Watch.spent, houtcomes]; rfl
  have hold : ∀ other, ∀ popped ∈ watch.hand other, after.ring.pops[popped.index]? = some other := by
    intro other popped hmem
    rw [hpops, List.getElem?_append_left (h.lt hmem)]
    exact h.owner other popped hmem
  constructor
  · intro other popped hmem
    rcases eq_or_ne other thread with rfl | hne
    · rw [hhand, List.mem_append, List.mem_singleton] at hmem
      rcases hmem with hmem | rfl
      · exact hold other popped hmem
      · rw [hpops, List.getElem?_append_right le_rfl]
        simp
    · rw [hothers other hne] at hmem
      exact hold other popped hmem
  · intro other
    rcases eq_or_ne other thread with rfl | hne
    · rw [hhand, List.map_append]
      refine (h.nodup other).append (List.nodup_singleton _) ?_
      intro index hindex hnew
      obtain ⟨popped, hmem, rfl⟩ := List.mem_map.mp hindex
      have hlt := h.lt hmem
      simp only [List.map_cons, List.map_nil, List.mem_singleton] at hnew
      omega
    · rw [hothers other hne]
      exact h.nodup other
  · intro other popped hmem
    rw [hspent]
    rcases eq_or_ne other thread with rfl | hne
    · rw [hhand, List.mem_append, List.mem_singleton] at hmem
      rcases hmem with hmem | rfl
      · exact h.fresh other popped hmem
      · intro hindex
        exact (h.spent_lt _ hindex).ne rfl
    · rw [hothers other hne] at hmem
      exact h.fresh other popped hmem
  · rw [hspent, hpops, List.length_append]
    exact fun index hindex ↦ (h.spent_lt index hindex).trans_le (Nat.le_add_right _ _)
  · rw [hspent]
    exact h.spent_nodup

/-- The call of the thread ends with all it popped. -/
theorem Taken.finish (h : Taken watch) (hpops : after.ring.pops = watch.ring.pops) {failed : Option Popped}
    (houtcomes : after.outcomes = watch.outcomes ++ [⟨watch.notes thread, failed⟩])
    (hothers : ∀ other, other ≠ thread → after.hand other = watch.hand other)
    (hbatch : watch.hand thread = (watch.notes thread).batch) (hhand : after.hand thread = []) :
    Taken after := by
  have hspent : after.spent = watch.spent ++ (watch.hand thread).map Popped.index := by
    rw [Watch.spent, houtcomes, List.flatMap_append, List.flatMap_singleton, hbatch]
    rfl
  constructor
  · intro other popped hmem
    rw [hpops]
    rcases eq_or_ne other thread with rfl | hne
    · rw [hhand] at hmem
      cases hmem
    · rw [hothers other hne] at hmem
      exact h.owner other popped hmem
  · intro other
    rcases eq_or_ne other thread with rfl | hne
    · rw [hhand]
      exact List.nodup_nil
    · rw [hothers other hne]
      exact h.nodup other
  · intro other popped hmem
    rcases eq_or_ne other thread with rfl | hne
    · rw [hhand] at hmem
      cases hmem
    · rw [hothers other hne] at hmem
      rw [hspent, List.mem_append, not_or]
      refine ⟨h.fresh other popped hmem, fun hindex ↦ ?_⟩
      obtain ⟨mine, hmine, heq⟩ := List.mem_map.mp hindex
      have howner := h.owner thread mine hmine
      rw [heq, h.owner other popped hmem, Option.some.injEq] at howner
      exact hne howner
  · intro index hindex
    rw [hpops]
    rw [hspent, List.mem_append] at hindex
    rcases hindex with hindex | hindex
    · exact h.spent_lt index hindex
    · obtain ⟨mine, hmine, rfl⟩ := List.mem_map.mp hindex
      exact h.lt hmine
  · rw [hspent]
    refine h.spent_nodup.append (h.nodup thread) ?_
    intro index hold hindex
    obtain ⟨mine, hmine, rfl⟩ := List.mem_map.mp hindex
    exact h.fresh thread mine hmine hold

theorem record_ring (watch : Watch) (next : State) (action : Action) :
    (watch.record next action).ring = next := by
  unfold Watch.record
  repeat' split
  all_goals rfl

/-- Other threads' notes stay. -/
theorem GetEffect.notes_other (h : GetEffect queue watch after thread) {other : ℕ} (hne : other ≠ thread) :
    after.notes other = watch.notes other := by
  cases h with
  | aside _ _ _ hnotes | begins _ _ _ _ _ hnotes | reads _ _ _ _ _ hnotes =>
    rw [hnotes, Function.update_of_ne hne]
  | pops _ _ _ _ _ _ _ _ hnotes | moves _ _ _ _ _ hnotes | goes _ _ _ _ _ hnotes | ends _ _ _ _ _ _ hnotes =>
    rw [hnotes]

/-- Every pop stays in one hand or in one outcome. -/
theorem Taken.effect (h : Taken watch) (hfoot : Footprint pid watch.ring after.ring thread)
    (heffect : GetEffect queue watch after thread) : Taken after := by
  have hothers : ∀ other, other ≠ thread → after.hand other = watch.hand other := by
    intro other hne
    rw [Watch.hand, Watch.hand, hfoot.phase other hne, heffect.notes_other hne]
  cases heffect with
  | aside note hphase hpops hnotes houtcomes =>
    exact h.keep hpops houtcomes hothers (.inr (Phase.popped_of_not_gathering hphase _))
  | begins get hold hphase hshared hpops hnotes houtcomes =>
    exact h.keep hpops houtcomes hothers (.inr (by rw [Watch.hand, hphase]; rfl))
  | pops get got hold hmore hne hphase hshared hpops hnotes houtcomes =>
    have hhand : after.hand thread = watch.hand thread ++
        [⟨watch.ring.pops.length, (nextRecord queue watch.ring.shared).1⟩] := by
      rw [Watch.hand, Watch.hand, hphase, hold]
      rfl
    exact h.pop hpops houtcomes hothers hhand
  | moves get got hold hshared hpops hnotes houtcomes =>
    refine h.keep hpops houtcomes hothers (.inl ?_)
    rw [Watch.hand, Watch.hand]
    rcases hold with ⟨hold, -, hphase | hphase⟩ | ⟨hold, hphase⟩ | ⟨hold, hphase⟩ <;>
      rw [hold, hphase] <;> rfl
  | reads get got hold hphase hpops hnotes houtcomes =>
    refine h.keep hpops houtcomes hothers (.inl ?_)
    rw [Watch.hand, Watch.hand, hold, hphase, hnotes, Function.update_self]
    rfl
  | goes popped rest hold hphase hpops hnotes houtcomes =>
    refine h.keep hpops houtcomes hothers (.inl ?_)
    rw [Watch.hand, Watch.hand, hold, hphase, hnotes]
    rfl
  | ends popped rest failed hold hphase hpops hnotes houtcomes =>
    refine h.finish hpops houtcomes hothers ?_ (Phase.popped_of_not_gathering hphase _)
    rw [Watch.hand, hold]
    rfl

/-! ## How many a call pops -/

/-- What the pops so far say about the ring they began with. -/
structure Progress (queue : RingQueue) (shared : Shared) (note : GetNote) (got : List Popped) : Prop where
  tail : shared.tail = note.start.tail
  first : got = [] → nextRecord queue shared = nextRecord queue note.start
  second : got.length = 1 → shared.head = (nextRecord queue note.start).2
  more : 2 ≤ got.length → ¬ TakesOne queue note

/-- What a live thread that pops knows. -/
def Gathers (queue : RingQueue) (shared : Shared) (note : GetNote) : Phase → Prop
  | .popping get got | .popCount get got => get.limit = note.limit ∧ Progress queue shared note got
  | .resyncing _ got | .finishing _ got =>
    Progress queue shared note got ∧ (got.length = 1 → TakesOne queue note)
  | _ => True

theorem Progress.congr {shared shared' : Shared} {note : GetNote} {got : List Popped}
    (h : Progress queue shared note got) (hhead : shared'.head = shared.head)
    (htail : shared'.tail = shared.tail) (hbytes : shared'.bytes = shared.bytes) :
    Progress queue shared' note got := by
  have hnext : nextRecord queue shared' = nextRecord queue shared := by
    simp only [nextRecord, hhead, hbytes]
  exact ⟨htail.trans h.tail, fun hnil ↦ hnext.trans (h.first hnil), fun hone ↦ hhead.trans (h.second hone),
    h.more⟩

theorem Gathers.congr {shared shared' : Shared} {note : GetNote} {phase : Phase}
    (h : Gathers queue shared note phase) (hhead : shared'.head = shared.head)
    (htail : shared'.tail = shared.tail) (hbytes : shared'.bytes = shared.bytes) :
    Gathers queue shared' note phase := by
  cases phase with
  | popping | popCount => exact ⟨h.1, h.2.congr hhead htail hbytes⟩
  | resyncing | finishing => exact ⟨h.1.congr hhead htail hbytes, h.2⟩
  | _ => trivial

theorem Gathers.of_not_gathering {shared : Shared} {note : GetNote} {phase : Phase}
    (h : phase.gathering = false) : Gathers queue shared note phase := by
  cases phase <;> trivial

theorem Gathers.of_not_locked {shared : Shared} {note : GetNote} {phase : Phase}
    (h : phase.locked = false) : Gathers queue shared note phase := by
  cases phase <;> trivial

/-- One pop more, while `max_items` is not reached and the ring is not empty. -/
theorem Progress.pop {shared : Shared} {note : GetNote} {got : List Popped} (h : Progress queue shared note got)
    (hmore : got.length < note.limit) (hne : shared.head ≠ shared.tail) (popped : Popped) :
    Progress queue { shared with head := (nextRecord queue shared).2 } note (got ++ [popped]) where
  tail := h.tail
  first := by simp
  second := by
    intro hone
    rw [List.length_append, List.length_singleton] at hone
    have hnil : got = [] := List.length_eq_zero_iff.mp (by omega)
    rw [h.first hnil]
  more := by
    intro htwo
    rw [List.length_append, List.length_singleton] at htwo
    rcases Nat.lt_or_ge got.length 2 with hlt | hge
    · have hone : got.length = 1 := by omega
      rintro (hlimit | hempty)
      · omega
      · rw [← h.second hone, ← h.tail] at hempty
        exact hne hempty
    · exact h.more hge

theorem Gathers.own (h : Gathers queue watch.ring.shared (watch.notes thread) (watch.ring.phase thread))
    (heffect : GetEffect queue watch after thread) :
    Gathers queue after.ring.shared (after.notes thread) (after.ring.phase thread) := by
  cases heffect with
  | aside note hphase => exact .of_not_gathering hphase
  | begins get hold hphase hshared _ hnotes =>
    rw [hphase, hnotes, Function.update_self, hshared]
    exact ⟨rfl, rfl, fun _ ↦ rfl, nofun, nofun⟩
  | pops get got hold hmore hne hphase hshared _ hnotes =>
    rw [hold] at h
    rw [hphase, hnotes, hshared]
    exact ⟨h.1, h.2.pop (h.1 ▸ hmore) hne _⟩
  | moves get got hold hshared _ hnotes =>
    obtain ⟨count, hshared⟩ := hshared
    rw [hnotes, hshared]
    rcases hold with ⟨hold, hlast, hphase⟩ | ⟨hold, hphase⟩ | ⟨hold, hphase⟩ <;> rw [hold] at h
    · have htakes : got.length = 1 → TakesOne queue (watch.notes thread) := by
        intro hone
        rcases hlast with hfull | hempty
        · left
          rw [← h.1]
          omega
        · right
          rw [← h.2.second hone, ← h.2.tail]
          exact hempty
      have hprogress : Progress queue { watch.ring.shared with count := count } (watch.notes thread) got :=
        h.2.congr rfl rfl rfl
      rcases hphase with hphase | hphase <;> rw [hphase] <;> exact ⟨hprogress, htakes⟩
    · rw [hphase]
      exact ⟨h.1, h.2.congr rfl rfl rfl⟩
    · rw [hphase]
      exact ⟨h.1.congr rfl rfl rfl, h.2⟩
  | reads get got hold hphase => rw [hphase]; trivial
  | goes popped rest hold hphase => rw [hphase]; trivial
  | ends popped rest failed hold hphase => exact .of_not_gathering hphase

/-- A call that reads its records back, or has raised: it popped what is in its note, and one record exactly
when it takes one. -/
structure Popping (queue : RingQueue) (note : GetNote) (got : List Popped) : Prop where
  subset : ∀ popped ∈ got, popped ∈ note.batch
  one : note.batch.length = 1 ↔ TakesOne queue note

def ReadsOk (queue : RingQueue) (watch : Watch) : Prop :=
  ∀ thread got, watch.ring.phase thread = .reading got → got ≠ [] → Popping queue (watch.notes thread) got

def RaisesOk (queue : RingQueue) (watch : Watch) : Prop :=
  ∀ outcome ∈ watch.outcomes, ∀ failed, outcome.failed = some failed →
    Popping queue outcome.note [failed]

theorem ReadsOk.effect (h : ReadsOk queue watch) (hfoot : Footprint pid watch.ring after.ring thread)
    (hgathers : Gathers queue watch.ring.shared (watch.notes thread) (watch.ring.phase thread))
    (heffect : GetEffect queue watch after thread) : ReadsOk queue after := by
  intro other got hreading hne
  rcases eq_or_ne other thread with rfl | hother
  · have hgathering : (after.ring.phase other).gathering = true := by rw [hreading]; rfl
    cases heffect with
    | aside note hphase | ends _ _ _ _ hphase =>
      rw [hphase] at hgathering
      cases hgathering
    | begins _ _ hphase | pops _ _ _ _ _ hphase =>
      rw [hphase] at hreading
      cases hreading
    | moves get got' hold =>
      rcases hold with ⟨-, -, hphase | hphase⟩ | ⟨-, hphase⟩ | ⟨-, hphase⟩ <;>
        rw [hphase] at hreading <;> cases hreading
    | reads get got' hold hphase _ hnotes =>
      rw [hphase] at hreading
      cases hreading
      rw [hold] at hgathers
      rw [hnotes, Function.update_self]
      refine ⟨fun _ hmem ↦ hmem, hgathers.2, fun htakes ↦ ?_⟩
      have hpos := List.length_pos_of_ne_nil hne
      have hfew : ¬ 2 ≤ got.length := fun hmany ↦ hgathers.1.more hmany htakes
      show got.length = 1
      omega
    | goes popped rest hold hphase _ hnotes =>
      rw [hphase] at hreading
      cases hreading
      have hpopping := h other (popped :: got) hold nofun
      rw [hnotes]
      exact ⟨fun _ hmem ↦ hpopping.subset _ (List.mem_cons_of_mem _ hmem), hpopping.one⟩
  · rw [hfoot.phase other hother] at hreading
    rw [heffect.notes_other hother]
    exact h other got hreading hne

theorem RaisesOk.effect (h : RaisesOk queue watch) (hreads : ReadsOk queue watch)
    (heffect : GetEffect queue watch after thread) : RaisesOk queue after := by
  cases heffect with
  | aside _ _ _ _ houtcomes | begins _ _ _ _ _ _ houtcomes | pops _ _ _ _ _ _ _ _ _ houtcomes
  | moves _ _ _ _ _ _ houtcomes | reads _ _ _ _ _ _ houtcomes | goes _ _ _ _ _ _ houtcomes =>
    rw [RaisesOk, houtcomes]
    exact h
  | ends popped rest failed hold hphase hpops hnotes houtcomes hfailed =>
    intro outcome hmem record hrecord
    rw [houtcomes, List.mem_append, List.mem_singleton] at hmem
    rcases hmem with hmem | rfl
    · exact h outcome hmem record hrecord
    · have hpopping := hreads thread (popped :: rest) hold nofun
      have hsame := hfailed record hrecord
      subst hsame
      exact ⟨fun _ hmem ↦ hpopping.subset _ (by rw [List.mem_singleton.mp hmem]; exact List.mem_cons_self),
        hpopping.one⟩

structure WatchOk (queue : RingQueue) (pid : ℕ → UInt32) (watch : Watch) : Prop where
  lock : Exclusive pid watch.ring
  gathers : ∀ thread, watch.ring.dead (pid thread) = false →
    Gathers queue watch.ring.shared (watch.notes thread) (watch.ring.phase thread)
  taken : Taken watch
  reads : ReadsOk queue watch
  raises : RaisesOk queue watch

/-- A step of a live thread. -/
theorem WatchOk.effect (h : WatchOk queue pid watch) (halive : watch.ring.dead (pid thread) = false)
    (hfoot : Footprint pid watch.ring after.ring thread) (heffect : GetEffect queue watch after thread) :
    WatchOk queue pid after where
  lock := h.lock.footprint halive hfoot
  gathers := by
    intro other hother
    rw [hfoot.dead] at hother
    rcases eq_or_ne other thread with rfl | hne
    · exact (h.gathers other hother).own heffect
    · rw [hfoot.phase other hne, heffect.notes_other hne]
      cases hlocked : (watch.ring.phase other).locked with
      | false => exact .of_not_locked hlocked
      | true =>
        rcases hfoot.ring with hmine | ⟨hhead, htail, hbytes⟩
        · rw [h.lock.alone halive hmine hne hother] at hlocked
          cases hlocked
        · exact (h.gathers other hother).congr hhead htail hbytes
  taken := h.taken.effect hfoot heffect
  reads := h.reads.effect hfoot (h.gathers thread halive) heffect
  raises := h.raises.effect h.reads heffect

/-- What a step preserves, a read that fails included. -/
theorem WatchOk.step {action : WatchAction} (h : WatchOk queue pid watch)
    (hstep : watchStep queue pid watch action = some after) : WatchOk queue pid after := by
  cases action with
  | ring action =>
    simp only [watchStep, Option.map_eq_some_iff] at hstep
    obtain ⟨next, hnext, rfl⟩ := hstep
    cases action with
    | die process =>
      cases hnext
      have hbefore : ∀ thread, Function.update watch.ring.dead process true (pid thread) = false →
          watch.ring.dead (pid thread) = false := by
        intro thread halive
        rcases eq_or_ne (pid thread) process with heq | hne
        · rw [heq, Function.update_self] at halive
          cases halive
        · rwa [Function.update_of_ne hne] at halive
      exact ⟨h.lock.die fun thread halive ↦ by
          simpa [State.alive] using hbefore thread (by simpa [State.alive, watchStep, Watch.record] using halive),
        fun thread halive ↦ h.gathers thread (hbefore thread halive),
        ⟨h.taken.owner, h.taken.nodup, h.taken.fresh, h.taken.spent_lt, h.taken.spent_nodup⟩, h.reads,
        h.raises⟩
    | act thread move =>
      simp only [Ring.step, Option.ite_none_left_eq_some, Bool.not_eq_true] at hnext
      refine h.effect hnext.1 ?_ (moveStep_getEffect hnext.2)
      rw [record_ring]
      exact moveStep_footprint hnext.2
  | unreadable thread =>
    simp only [watchStep, Option.ite_none_left_eq_some, Bool.not_eq_true] at hstep
    obtain ⟨halive, hstep⟩ := hstep
    split at hstep
    · rename_i popped rest hphase
      obtain ⟨place, -, rfl⟩ := Option.map_eq_some_iff.mp hstep
      refine h.effect halive (.quiet rfl rfl rfl rfl ?_)
        (.ends popped rest (some popped) hphase ?_ rfl rfl rfl ?_)
      · intro hlocked
        cases hlocked
      · exact congrArg Phase.gathering (goto_self _ _ _)
      · exact fun record hrecord ↦ (Option.some.inj hrecord).symm
    · cases hstep

theorem watchOk_start : WatchOk queue pid (watchMachine queue pid).start where
  lock := fun _ _ hlocked ↦ absurd hlocked nofun
  gathers := fun _ _ ↦ trivial
  taken := by
    constructor <;> simp [watchMachine, Watch.hand, Watch.spent, State.start, Phase.popped]
  reads := fun _ _ hreading ↦ absurd hreading nofun
  raises := by simp [RaisesOk, watchMachine]

/-- In every reachable state each pop is in one hand or one outcome. -/
theorem watchOk_of_reachable (h : (watchMachine queue pid).Reachable watch) : WatchOk queue pid watch :=
  h.invariant (WatchOk queue pid) watchOk_start fun _ _ _ hwatch hstep ↦ hwatch.step hstep

/-! ## What a call that raises costs -/

/-- A record of a call that raised is in no call that returned. -/
theorem Taken.not_returned (h : Taken watch) {outcome other : Outcome} {failed popped : Popped}
    (hmem : outcome ∈ watch.outcomes) (hfailed : outcome.failed = some failed)
    (hother : other ∈ watch.outcomes) (hreturned : other.failed = none)
    (hpopped : popped ∈ outcome.note.batch) : popped ∉ other.note.batch := by
  intro hpopped'
  have hnodup := h.spent_nodup
  rw [Watch.spent, List.nodup_flatMap] at hnodup
  have hne : outcome ≠ other := by
    rintro rfl
    rw [hfailed] at hreturned
    cases hreturned
  have hsymm : Std.Symm (Function.onFun List.Disjoint fun outcome : Outcome ↦
      outcome.note.batch.map Popped.index) := ⟨fun _ _ hdisjoint ↦ hdisjoint.symm⟩
  exact hnodup.2.forall hmem hother hne (List.mem_map_of_mem hpopped) (List.mem_map_of_mem hpopped')

/-- The records of a call that ended are popped for good, each once. -/
theorem Taken.batch (h : Taken watch) {outcome : Outcome} (hmem : outcome ∈ watch.outcomes) :
    (outcome.note.batch.map Popped.index).Nodup ∧
      ∀ popped ∈ outcome.note.batch, popped.index < watch.ring.pops.length := by
  have hnodup := h.spent_nodup
  rw [Watch.spent, List.nodup_flatMap] at hnodup
  refine ⟨hnodup.1 outcome hmem, fun popped hpopped ↦ h.spent_lt _ ?_⟩
  exact List.mem_flatMap.mpr ⟨outcome, hmem, List.mem_map_of_mem hpopped⟩

/-- A call that raises costs only the record it raises at exactly when it takes one. -/
theorem costsOnlyItself_iff_takesOne (h : (watchMachine queue pid).Reachable watch) {outcome : Outcome}
    {failed : Popped} (hmem : outcome ∈ watch.outcomes) (hfailed : outcome.failed = some failed) :
    CostsOnlyItself watch outcome failed ↔ TakesOne queue outcome.note := by
  have hok := watchOk_of_reachable h
  have hpopping := hok.raises outcome hmem failed hfailed
  have hfailedMem := hpopping.subset failed (List.mem_singleton_self _)
  rw [← hpopping.one]
  constructor
  · intro hcosts
    obtain ⟨hnodup, hlt⟩ := hok.taken.batch hmem
    have hall : ∀ popped ∈ outcome.note.batch, popped = failed := by
      intro popped hpopped
      by_contra hne
      have hindex : popped.index ≠ failed.index := fun heq ↦
        hne (List.inj_on_of_nodup_map hnodup hpopped hfailedMem heq)
      rcases hcosts popped hpopped hindex with ⟨other, hother, hreturned, hmem'⟩ | hunread
      · exact hok.taken.not_returned hmem hfailed hother hreturned hpopped hmem'
      · exact (hlt popped hpopped).not_ge hunread
    have hreplicate := List.eq_replicate_iff.mpr ⟨rfl, hall⟩
    have hpos := List.length_pos_of_mem hfailedMem
    rw [hreplicate, List.map_replicate, List.nodup_replicate] at hnodup
    omega
  · intro hone popped hpopped hne
    obtain ⟨only, honly⟩ := List.length_eq_one_iff.mp hone
    rw [honly, List.mem_singleton] at hpopped hfailedMem
    exact absurd (by rw [hpopped, hfailedMem]) hne

/-! ## Two calls that raise -/

def spillOne : List WatchAction :=
  List.map .ring <| [Action.act 0 (.putBegin [7] .forever false), .act 0 (.spill .shm), .act 0 .acquire,
    .act 0 (.putDecide false)] ++ List.replicate 31 (Action.act 0 .store) ++
    [Action.act 0 .storeTail, .act 0 .addCount, .act 0 .putDone]

/-- Thread 1 asks for at most `limit` records and pops what it gets; the first cannot be read back. -/
def raisingGet (limit pops : ℕ) : List WatchAction :=
  List.map .ring ([Action.act 1 (.getBegin ⟨limit, true, .forever⟩), .act 1 .acquire, .act 1 (.getCheck false)] ++
    (List.replicate pops [Action.act 1 .pop, .act 1 .storeCount]).flatten ++
    [Action.act 1 .pop, .act 1 .finishPops]) ++ [.unreadable 1]

def Outcome.summary (outcome : Outcome) : ℕ × List ℕ × Option ℕ :=
  (outcome.note.limit, outcome.note.batch.map Popped.index, outcome.failed.map Popped.index)

theorem exists_raising (actions : List WatchAction) (limit : ℕ) (batch : List ℕ) (pops : ℕ)
    (hrun : ((watchMachine spillQueue fun _ ↦ 0).runFrom (watchMachine spillQueue fun _ ↦ 0).start actions).map
      (fun watch ↦ (watch.outcomes.map Outcome.summary, watch.ring.pops.length)) =
        some ([(limit, batch, some 0)], pops)) :
    ∃ watch outcome failed, (watchMachine spillQueue fun _ ↦ 0).Reachable watch ∧
      watch.outcomes = [outcome] ∧ outcome.failed = some failed ∧ failed.index = 0 ∧
        outcome.note.limit = limit ∧ outcome.note.batch.map Popped.index = batch ∧
          watch.ring.pops.length = pops := by
  obtain ⟨watch, hwatch, hsummary⟩ := Option.map_eq_some_iff.mp hrun
  rw [Prod.mk.injEq] at hsummary
  obtain ⟨outcome, houtcomes, hnote⟩ := List.map_eq_singleton_iff.mp hsummary.1
  simp only [Outcome.summary, Prod.mk.injEq] at hnote
  obtain ⟨failed, hfailed, hindex⟩ := Option.map_eq_some_iff.mp hnote.2.2
  exact ⟨watch, outcome, failed, ⟨actions, hwatch⟩, houtcomes, hfailed, hindex, hnote.1, hnote.2.1,
    hsummary.2⟩

/-- One record is asked for and cannot be read: it is the only one that is lost. -/
theorem costsOnlyItself_single : ∃ watch outcome failed,
    (watchMachine spillQueue fun _ ↦ 0).Reachable watch ∧ outcome ∈ watch.outcomes ∧
      outcome.failed = some failed ∧ CostsOnlyItself watch outcome failed := by
  obtain ⟨watch, outcome, failed, hreachable, houtcomes, hfailed, -, hlimit, -, -⟩ :=
    exists_raising (spillOne ++ raisingGet 1 1) 1 [0] 1 (by decide +kernel)
  have hmem : outcome ∈ watch.outcomes := by rw [houtcomes]; exact List.mem_singleton_self _
  exact ⟨watch, outcome, failed, hreachable, hmem, hfailed,
    (costsOnlyItself_iff_takesOne hreachable hmem hfailed).mpr (.inl hlimit.le)⟩

/-- `get_many` pops two records, raises at the first, and the second is gone. -/
theorem not_costsOnlyItself_getMany : ¬ ∀ (queue : RingQueue) (pid : ℕ → UInt32) (watch : Watch),
    (watchMachine queue pid).Reachable watch → ∀ outcome ∈ watch.outcomes, ∀ failed,
      outcome.failed = some failed → CostsOnlyItself watch outcome failed := by
  intro hall
  obtain ⟨watch, outcome, failed, hreachable, houtcomes, hfailed, hindex, -, hbatch, hpops⟩ :=
    exists_raising (spillOne ++ spillOne ++ raisingGet 2 2) 2 [0, 1] 2 (by decide +kernel)
  have hmem : outcome ∈ watch.outcomes := by rw [houtcomes]; exact List.mem_singleton_self _
  have hcosts := hall spillQueue _ watch hreachable outcome hmem failed hfailed
  obtain ⟨popped, hpopped, hone⟩ := List.mem_map.mp (hbatch ▸ (by simp : 1 ∈ [0, 1]))
  rcases hcosts popped hpopped (by omega) with ⟨other, hother, hreturned, -⟩ | hunread
  · rw [houtcomes, List.mem_singleton] at hother
    rw [hother, hfailed] at hreturned
    cases hreturned
  · omega

end GpuPipe.Ring
