import GpuPipe.Library.Machine
import GpuPipe.Ring.Record

/-!
# Processes on one ring

`put`, `get` and `get_many` as threads run them, with every store of a critical
section a step of its own and with processes that may die between any two steps.
A lock whose holder's process is dead may be taken over. Threads of one process
share a pid, which names its spill objects and files.

The item counters for sleeping and waking are left out: a sleeping call may wake at
any time, as futex waits may, and looks at the ring again. The fields `call`, `calls`,
`puts`, `pops` and `index` are history that no branch reads.
-/

namespace GpuPipe.Ring

/-- `deadline_of`: non-blocking, no timeout, or a point in time. -/
inductive Deadline
  | nonblocking
  | forever
  | until
  deriving DecidableEq

def Deadline.expired : Deadline → Bool → Bool
  | .nonblocking, _ => true
  | .forever, _ => false
  | .until, clock => clock

/-- Where a spilled payload lives: its own shm object, or a file of the spill directory. -/
inductive Medium
  | shm
  | disk
  deriving DecidableEq

def Medium.kind : Medium → ℕ
  | .shm => kindSpill
  | .disk => kindFile

/-- The record `spill_write` and `file_spill_write` return: 64-bit length, then the name. -/
def spillRecord (medium : Medium) (name : Bytes) (length : ℕ) : Record :=
  ⟨medium.kind, leBytes 8 length ++ name⟩

/-- The object a spill record names, if the record is one. -/
def Record.place (record : Record) : Option (Medium × Bytes) :=
  if record.kind = kindSpill then some (.shm, record.payload.drop 8)
  else if record.kind = kindFile then some (.disk, record.payload.drop 8)
  else none

/-- Contents of a spill object or file, and the put call that wrote it. -/
structure Object where
  call : ℕ
  bytes : Bytes
  deriving DecidableEq

abbrev Objects := Medium × Bytes → Option Object

/-- The local variables of `put`. -/
structure PutCall where
  call : ℕ
  data : Bytes
  deadline : Deadline
  disk : Bool
  mustSpill : Bool
  spilled : Option Record
  pending : Option ℕ
  deriving DecidableEq

/-- The record the next attempt tries to place. -/
def PutCall.record (put : PutCall) : Record := put.spilled.getD ⟨kindData, put.data⟩

/-- The arguments of `get` (`many = false`) and `get_many`; `limit` is `max_items`. -/
structure GetCall where
  limit : ℕ
  many : Bool
  deadline : Deadline
  deriving DecidableEq

/-- A record a consumer has popped; `index` counts the pops before it. -/
structure Popped where
  index : ℕ
  record : Record
  deriving DecidableEq

/-- Where a thread stands in `put`, `get` or `get_many`. -/
inductive Phase
  | idle
  | put (put : PutCall)
  | putLocked (put : PutCall)
  | storing (put : PutCall) (record : Record) (todo : List (ℕ × UInt8))
  | counting (put : PutCall)
  | putRelease (put : PutCall)
  | waiting (put : PutCall)
  | aborting (put : PutCall)
  | get (get : GetCall)
  | getLocked (get : GetCall)
  | popping (get : GetCall) (got : List Popped)
  | popCount (get : GetCall) (got : List Popped)
  | resyncing (get : GetCall) (got : List Popped)
  | finishing (get : GetCall) (got : List Popped)
  | reading (got : List Popped)
  deriving DecidableEq

/-- One payload handed to a caller of `get` or `get_many`. -/
structure Delivery where
  index : ℕ
  consumer : ℕ
  payload : Bytes
  deriving DecidableEq

/-- One published payload: the put call and its data. -/
structure PutEntry where
  call : ℕ
  payload : Bytes
  deriving DecidableEq

structure State where
  shared : Shared
  lock : Option ℕ
  phase : ℕ → Phase
  dead : UInt32 → Bool
  objects : Objects
  spills : UInt32 → ℕ
  fileSpills : UInt32 → ℕ
  calls : ℕ
  puts : List PutEntry
  pops : List ℕ
  returned : List Delivery
  putReturns : List (ℕ × Bool)

def State.start : State where
  shared := .empty
  lock := none
  phase := fun _ ↦ .idle
  dead := fun _ ↦ false
  objects := fun _ ↦ none
  spills := fun _ ↦ 0
  fileSpills := fun _ ↦ 0
  calls := 0
  puts := []
  pops := []
  returned := []
  putReturns := []

def State.goto (state : State) (thread : ℕ) (phase : Phase) : State :=
  { state with phase := Function.update state.phase thread phase }

/-- How the operating system answers an attempt to spill. A file whose write fails for
want of space or another error stays behind with what was written of it. -/
inductive SpillResult
  | shm
  | file
  | noSpace (left : Option Bytes) (clock : Bool)
  | failed (left : Option Bytes)
  deriving DecidableEq

/-- What a thread does next, with the answers of the clock and the system. -/
inductive Move
  | putBegin (data : Bytes) (deadline : Deadline) (disk : Bool)
  | spill (result : SpillResult)
  | acquire
  | putDecide (clock : Bool)
  | store
  | storeTail
  | addCount
  | putDone
  | wake (signalled : Bool)
  | putAbort
  | getBegin (get : GetCall)
  | getCheck (clock : Bool)
  | pop
  | storeCount
  | resync
  | finishPops
  | materialize

inductive Action
  | act (thread : ℕ) (move : Move)
  | die (process : UInt32)

def clearPending (shared : Shared) (slot : Option ℕ) : Shared :=
  match slot with
  | some i => { shared with pending := Function.update shared.pending i none }
  | none => shared

def notePending (shared : Shared) (name : Bytes) : Option ℕ × Shared :=
  if 32 ≤ name.length then (none, shared)
  else
    match (List.range 48).find? fun i ↦ (shared.pending i).isNone with
    | some i => (some i, { shared with pending := Function.update shared.pending i (some name) })
    | none => (none, shared)

/-- `discard`: remove the object or file a record would have owned. -/
def discard (objects : Objects) (spilled : Option Record) : Objects :=
  match spilled.bind Record.place with
  | some place => Function.update objects place none
  | none => objects

/-- `materialize`: a spilled payload is read and its object removed; `none` raises. -/
def materialize (objects : Objects) (record : Record) : Option Bytes × Objects :=
  match record.place with
  | none => (some record.payload, objects)
  | some place =>
    let length := leValue (record.payload.take 8)
    match objects place with
    | none => (none, objects)
    | some object =>
      (if length ≤ object.bytes.length then some (object.bytes.take length) else none,
        Function.update objects place none)

section Moves

variable (queue : Header) (pid : ℕ → UInt32) (state : State) (thread : ℕ)

/-- A partly written file stays where `std::fs::write` created it. -/
def leaveFile (put : PutCall) (left : Option Bytes) : State :=
  match left with
  | none => state
  | some bytes =>
    { state with
      objects := Function.update state.objects
        (.disk, Sys.fileSpillName (pid thread).toNat (state.fileSpills (pid thread))) (some ⟨put.call, bytes⟩)
      fileSpills := Function.update state.fileSpills (pid thread) (state.fileSpills (pid thread) + 1) }

/-- The top of `put`'s loop, when the payload has to spill and has not yet. -/
def spill (put : PutCall) (result : SpillResult) : Option State :=
  match result with
  | .shm =>
    let name := Sys.spillObjectName queue.name (pid thread).toNat (state.spills (pid thread))
    -- `O_EXCL`: an existing name is an error, not an overwrite.
    if put.disk || (state.objects (.shm, name)).isSome || 2 ^ 64 ≤ state.spills (pid thread) then none
    else
      some (State.goto { state with
        objects := Function.update state.objects (.shm, name) (some ⟨put.call, put.data⟩)
        spills := Function.update state.spills (pid thread) (state.spills (pid thread) + 1) } thread
          (.put { put with spilled := some (spillRecord .shm name put.data.length) }))
  | .file =>
    let name := Sys.fileSpillName (pid thread).toNat (state.fileSpills (pid thread))
    if 2 ^ 64 ≤ state.fileSpills (pid thread) then none
    else
      some (State.goto { state with
        objects := Function.update state.objects (.disk, name) (some ⟨put.call, put.data⟩)
        fileSpills := Function.update state.fileSpills (pid thread)
          (state.fileSpills (pid thread) + 1) } thread
          (.put { put with spilled := some (spillRecord .disk name put.data.length) }))
  | .noSpace left clock =>
    let state := leaveFile pid state thread put left
    if put.deadline.expired clock then
      some (State.goto { state with putReturns := state.putReturns ++ [(put.call, false)] } thread .idle)
    else some (state.goto thread (.put put))
  | .failed left => some ((leaveFile pid state thread put left).goto thread .idle)

/-- The lock is free, or its holder's process has died. -/
def lockable : Bool :=
  match state.lock with
  | none => true
  | some holder => state.dead (pid holder)

/-- The critical section of `put` up to its first store. -/
def putDecide (put : PutCall) (clock : Bool) : State :=
  let shared := state.shared
  if hasSlot queue shared && hasRoom queue shared put.record then
    state.goto thread (.storing put put.record (publishStores queue shared put.record))
  else if hasSlot queue shared && put.record.kind == kindData then
    State.goto { state with lock := none } thread (.put { put with mustSpill := true })
  else if put.deadline.expired clock then
    State.goto { state with
      shared := clearPending shared put.pending
      lock := none
      objects := discard state.objects put.spilled
      putReturns := state.putReturns ++ [(put.call, false)] } thread .idle
  else
    match put.pending, put.spilled with
    | none, some record =>
      if record.kind = kindSpill then
        State.goto { state with shared := (notePending shared (record.payload.drop 8)).2, lock := none } thread
          (.waiting { put with pending := (notePending shared (record.payload.drop 8)).1 })
      else State.goto { state with lock := none } thread (.waiting put)
    | _, _ => State.goto { state with lock := none } thread (.waiting put)

/-- The loop test of `get_many`, then `pop_locked` up to its `head` store. -/
def popNext (get : GetCall) (got : List Popped) : State :=
  if get.limit ≤ got.length then state.goto thread (.finishing get got)
  else if state.shared.head = state.shared.tail then state.goto thread (.resyncing get got)
  else
    State.goto { state with
      shared := { state.shared with head := (nextRecord queue state.shared).2 }
      pops := state.pops ++ [thread] } thread
        (.popCount get (got ++ [⟨state.pops.length, (nextRecord queue state.shared).1⟩]))

/-- Read the oldest popped record outside the lock and hand its payload to the caller. -/
def materializeNext (popped : Popped) (rest : List Popped) : State :=
  match materialize state.objects popped.record with
  | (some payload, objects) =>
    State.goto { state with
      objects := objects
      returned := state.returned ++ [⟨popped.index, thread, payload⟩] } thread
        (if rest.isEmpty then .idle else .reading rest)
  | (none, objects) => State.goto { state with objects := objects } thread .idle

/-- One move of a thread whose process is alive. -/
def moveStep (move : Move) : Option State :=
  match move, state.phase thread with
  | .putBegin data deadline disk, .idle =>
    -- A Rust slice is shorter than 2^63 bytes.
    if data.length < 2 ^ 63 then
      some (State.goto { state with calls := state.calls + 1 } thread
        (.put ⟨state.calls, data, deadline, disk, queue.spillAt < data.length, none, none⟩))
    else none
  | .spill result, .put put =>
    if put.mustSpill && put.spilled.isNone then spill queue pid state thread put result else none
  | .acquire, .put put =>
    if !(put.mustSpill && put.spilled.isNone) && lockable pid state then
      some (State.goto { state with lock := some thread } thread (.putLocked put))
    else none
  | .acquire, .get get =>
    if lockable pid state then
      some (State.goto { state with lock := some thread } thread (.getLocked get))
    else none
  | .putDecide clock, .putLocked put =>
    -- `tail % cap` panics, with the lock held.
    if queue.cap = 0 then some (state.goto thread .idle) else some (putDecide queue state thread put clock)
  | .store, .storing put record ((address, byte) :: todo) =>
    -- A store behind the map does not reach the ring.
    if queue.mapped then
      some (State.goto { state with shared := { state.shared with
        bytes := Function.update state.shared.bytes address byte } } thread (.storing put record todo))
    else some (state.goto thread (.storing put record todo))
  | .storeTail, .storing put record [] =>
    some (State.goto { state with
      shared := { state.shared with tail := nextTail queue state.shared record }
      puts := state.puts ++ [⟨put.call, put.data⟩] } thread (.counting put))
  | .addCount, .counting put =>
    some (State.goto { state with shared := { state.shared with count := state.shared.count + 1 } } thread
      (.putRelease put))
  | .putDone, .putRelease put =>
    some (State.goto { state with
      shared := clearPending state.shared put.pending
      lock := none
      putReturns := state.putReturns ++ [(put.call, true)] } thread .idle)
  | .wake signalled, .waiting put =>
    some (state.goto thread (if signalled then .aborting put else .put put))
  | .putAbort, .aborting put =>
    if lockable pid state then
      some (State.goto { state with
        shared := clearPending state.shared put.pending
        lock := none
        objects := discard state.objects put.spilled } thread .idle)
    else none
  | .getBegin get, .idle =>
    some (state.goto thread (.get { get with limit := if get.many then max get.limit 1 else 1 }))
  | .getCheck clock, .getLocked get =>
    if state.shared.head ≠ state.shared.tail then some (state.goto thread (.popping get []))
    else if get.deadline.expired clock then some (State.goto { state with lock := none } thread .idle)
    else some (State.goto { state with lock := none } thread (.get get))
  | .pop, .popping get got => some (popNext queue state thread get got)
  | .storeCount, .popCount get got =>
    some (State.goto { state with shared := { state.shared with count := state.shared.count - 1 } } thread
      (.popping get got))
  | .resync, .resyncing get got =>
    some (State.goto { state with shared := { state.shared with count := 0 } } thread (.finishing get got))
  | .finishPops, .finishing get got =>
    some (State.goto { state with lock := none } thread
      (if !got.isEmpty then .reading got else if get.many then .idle else .get get))
  | .materialize, .reading (popped :: rest) => some (materializeNext state thread popped rest)
  | _, _ => none

end Moves

def step (queue : Header) (pid : ℕ → UInt32) (state : State) : Action → Option State
  | .act thread move => if state.dead (pid thread) then none else moveStep queue pid state thread move
  | .die process => some { state with dead := Function.update state.dead process true }

/-- All processes on one ring; `pid` gives each thread its process. -/
def machine (queue : Header) (pid : ℕ → UInt32) : Machine State Action where
  start := .start
  step := step queue pid

/-! ## What a move can do -/

/-- The moves of a thread, by what they find. -/
inductive MoveStep (queue : RingQueue) (pid : ℕ → UInt32) (state : State) (thread : ℕ) : Move → State → Prop
  | putBegin (data : Bytes) (deadline : Deadline) (disk : Bool) (hphase : state.phase thread = .idle)
      (hlength : data.length < 2 ^ 63) :
      MoveStep queue pid state thread (.putBegin data deadline disk)
        (State.goto { state with calls := state.calls + 1 } thread
          (.put ⟨state.calls, data, deadline, disk, queue.spillAt < data.length, none, none⟩))
  | spill (put : PutCall) (result : SpillResult) {next : State} (hphase : state.phase thread = .put put)
      (hmust : put.mustSpill = true) (hunspilled : put.spilled = none)
      (hspill : spill queue pid state thread put result = some next) :
      MoveStep queue pid state thread (.spill result) next
  | acquirePut (put : PutCall) (hphase : state.phase thread = .put put)
      (hready : (put.mustSpill && put.spilled.isNone) = false) (hlockable : lockable pid state = true) :
      MoveStep queue pid state thread .acquire
        (State.goto { state with lock := some thread } thread (.putLocked put))
  | acquireGet (get : GetCall) (hphase : state.phase thread = .get get) (hlockable : lockable pid state = true) :
      MoveStep queue pid state thread .acquire
        (State.goto { state with lock := some thread } thread (.getLocked get))
  | putDecide (put : PutCall) (clock : Bool) (hphase : state.phase thread = .putLocked put) :
      MoveStep queue pid state thread (.putDecide clock) (putDecide queue state thread put clock)
  | store (put : PutCall) (record : Record) (address : ℕ) (byte : UInt8) (todo : List (ℕ × UInt8))
      (hphase : state.phase thread = .storing put record ((address, byte) :: todo)) :
      MoveStep queue pid state thread .store
        (State.goto { state with shared := { state.shared with
          bytes := Function.update state.shared.bytes address byte } } thread (.storing put record todo))
  | storeTail (put : PutCall) (record : Record) (hphase : state.phase thread = .storing put record []) :
      MoveStep queue pid state thread .storeTail
        (State.goto { state with
          shared := { state.shared with tail := nextTail queue state.shared record }
          puts := state.puts ++ [⟨put.call, put.data⟩] } thread (.counting put))
  | addCount (put : PutCall) (hphase : state.phase thread = .counting put) :
      MoveStep queue pid state thread .addCount
        (State.goto { state with shared := { state.shared with count := state.shared.count + 1 } } thread
          (.putRelease put))
  | putDone (put : PutCall) (hphase : state.phase thread = .putRelease put) :
      MoveStep queue pid state thread .putDone
        (State.goto { state with
          shared := clearPending state.shared put.pending
          lock := none
          putReturns := state.putReturns ++ [(put.call, true)] } thread .idle)
  | interrupted (put : PutCall) (hphase : state.phase thread = .waiting put) :
      MoveStep queue pid state thread (.wake true) (state.goto thread (.aborting put))
  | wake (put : PutCall) (hphase : state.phase thread = .waiting put) :
      MoveStep queue pid state thread (.wake false) (state.goto thread (.put put))
  | putAbort (put : PutCall) (hphase : state.phase thread = .aborting put) (hlockable : lockable pid state = true) :
      MoveStep queue pid state thread .putAbort
        (State.goto { state with
          shared := clearPending state.shared put.pending
          lock := none
          objects := discard state.objects put.spilled } thread .idle)
  | getBegin (get : GetCall) (hphase : state.phase thread = .idle) :
      MoveStep queue pid state thread (.getBegin get)
        (state.goto thread (.get { get with limit := if get.many then max get.limit 1 else 1 }))
  | getItems (get : GetCall) (clock : Bool) (hphase : state.phase thread = .getLocked get)
      (hne : state.shared.head ≠ state.shared.tail) :
      MoveStep queue pid state thread (.getCheck clock) (state.goto thread (.popping get []))
  | getExpired (get : GetCall) (clock : Bool) (hphase : state.phase thread = .getLocked get)
      (hempty : state.shared.head = state.shared.tail) (hexpired : get.deadline.expired clock = true) :
      MoveStep queue pid state thread (.getCheck clock) (State.goto { state with lock := none } thread .idle)
  | getAgain (get : GetCall) (clock : Bool) (hphase : state.phase thread = .getLocked get)
      (hempty : state.shared.head = state.shared.tail) (hwaits : get.deadline.expired clock = false) :
      MoveStep queue pid state thread (.getCheck clock) (State.goto { state with lock := none } thread (.get get))
  | popEnough (get : GetCall) (got : List Popped) (hphase : state.phase thread = .popping get got)
      (hfull : get.limit ≤ got.length) :
      MoveStep queue pid state thread .pop (state.goto thread (.finishing get got))
  | popEmpty (get : GetCall) (got : List Popped) (hphase : state.phase thread = .popping get got)
      (hempty : state.shared.head = state.shared.tail) :
      MoveStep queue pid state thread .pop (state.goto thread (.resyncing get got))
  | pop (get : GetCall) (got : List Popped) (hphase : state.phase thread = .popping get got)
      (hne : state.shared.head ≠ state.shared.tail) :
      MoveStep queue pid state thread .pop
        (State.goto { state with
          shared := { state.shared with head := (nextRecord queue state.shared).2 }
          pops := state.pops ++ [thread] } thread
            (.popCount get (got ++ [⟨state.pops.length, (nextRecord queue state.shared).1⟩])))
  | storeCount (get : GetCall) (got : List Popped) (hphase : state.phase thread = .popCount get got) :
      MoveStep queue pid state thread .storeCount
        (State.goto { state with shared := { state.shared with count := state.shared.count - 1 } } thread
          (.popping get got))
  | resync (get : GetCall) (got : List Popped) (hphase : state.phase thread = .resyncing get got) :
      MoveStep queue pid state thread .resync
        (State.goto { state with shared := { state.shared with count := 0 } } thread (.finishing get got))
  | finishRead (get : GetCall) (popped : Popped) (rest : List Popped)
      (hphase : state.phase thread = .finishing get (popped :: rest)) :
      MoveStep queue pid state thread .finishPops
        (State.goto { state with lock := none } thread (.reading (popped :: rest)))
  | finishMany (get : GetCall) (hphase : state.phase thread = .finishing get []) (hmany : get.many = true) :
      MoveStep queue pid state thread .finishPops (State.goto { state with lock := none } thread .idle)
  | finishAgain (get : GetCall) (hphase : state.phase thread = .finishing get []) (hmany : get.many = false) :
      MoveStep queue pid state thread .finishPops (State.goto { state with lock := none } thread (.get get))
  | materialize (popped : Popped) (rest : List Popped) (hphase : state.phase thread = .reading (popped :: rest)) :
      MoveStep queue pid state thread .materialize (materializeNext state thread popped rest)

/-! In a ring that lies in its map, no put panics and every store arrives. -/

theorem RingQueue.cap_ne_zero (queue : RingQueue) : queue.cap ≠ 0 := by
  have hmin := queue.min_le_cap
  omega

theorem RingQueue.mapped_eq_true (queue : RingQueue) : queue.mapped = true := decide_eq_true queue.map_holds

@[simp]
theorem moveStep_putDecide {queue : RingQueue} {pid : ℕ → UInt32} {state : State} {thread : ℕ} {put : PutCall}
    (hphase : state.phase thread = .putLocked put) (clock : Bool) :
    moveStep queue pid state thread (.putDecide clock) = some (putDecide queue state thread put clock) := by
  unfold moveStep
  rw [hphase]
  exact if_neg queue.cap_ne_zero

@[simp]
theorem moveStep_store {queue : RingQueue} {pid : ℕ → UInt32} {state : State} {thread : ℕ} {put : PutCall}
    {record : Record} {address : ℕ} {byte : UInt8} {todo : List (ℕ × UInt8)}
    (hphase : state.phase thread = .storing put record ((address, byte) :: todo)) :
    moveStep queue pid state thread .store =
      some (State.goto { state with shared := { state.shared with
        bytes := Function.update state.shared.bytes address byte } } thread (.storing put record todo)) := by
  unfold moveStep
  rw [hphase]
  exact if_pos queue.mapped_eq_true

theorem moveStep_cases {queue : RingQueue} {pid : ℕ → UInt32} {state next : State} {thread : ℕ} {move : Move}
    (h : moveStep queue pid state thread move = some next) : MoveStep queue pid state thread move next := by
  unfold moveStep at h
  split at h
  case h_1 data deadline disk hphase =>
    simp only [Option.ite_none_right_eq_some, Option.some.injEq] at h
    obtain ⟨hlength, rfl⟩ := h
    exact .putBegin data deadline disk hphase hlength
  case h_2 result put hphase =>
    simp only [Option.ite_none_right_eq_some, Bool.and_eq_true, Option.isNone_iff_eq_none] at h
    exact .spill put result hphase h.1.1 h.1.2 h.2
  case h_3 put hphase =>
    simp only [Option.ite_none_right_eq_some, Bool.and_eq_true, Bool.not_eq_true', Option.some.injEq] at h
    obtain ⟨⟨hready, hlockable⟩, rfl⟩ := h
    exact .acquirePut put hphase hready hlockable
  case h_4 get hphase =>
    simp only [Option.ite_none_right_eq_some, Option.some.injEq] at h
    obtain ⟨hlockable, rfl⟩ := h
    exact .acquireGet get hphase hlockable
  case h_5 clock put hphase =>
    rw [if_neg queue.cap_ne_zero] at h
    cases h
    exact .putDecide put clock hphase
  case h_6 put record address byte todo hphase =>
    rw [if_pos queue.mapped_eq_true] at h
    cases h
    exact .store put record address byte todo hphase
  case h_7 put record hphase =>
    cases h
    exact .storeTail put record hphase
  case h_8 put hphase =>
    cases h
    exact .addCount put hphase
  case h_9 put hphase =>
    cases h
    exact .putDone put hphase
  case h_10 signalled put hphase =>
    cases h
    cases signalled
    · exact .wake put hphase
    · exact .interrupted put hphase
  case h_11 put hphase =>
    simp only [Option.ite_none_right_eq_some, Option.some.injEq] at h
    obtain ⟨hlockable, rfl⟩ := h
    exact .putAbort put hphase hlockable
  case h_12 get hphase =>
    cases h
    exact .getBegin get hphase
  case h_13 clock get hphase =>
    split at h
    · cases h
      exact .getItems get clock hphase ‹_›
    · rename_i hempty
      rw [ne_eq, not_not] at hempty
      split at h <;> cases h
      · exact .getExpired get clock hphase hempty ‹_›
      · exact .getAgain get clock hphase hempty (Bool.eq_false_iff.mpr ‹_›)
  case h_14 get got hphase =>
    cases h
    unfold popNext
    split
    · exact .popEnough get got hphase ‹_›
    · split
      · exact .popEmpty get got hphase ‹_›
      · exact .pop get got hphase ‹_›
  case h_15 get got hphase =>
    cases h
    exact .storeCount get got hphase
  case h_16 get got hphase =>
    cases h
    exact .resync get got hphase
  case h_17 get got hphase =>
    cases h
    cases got with
    | nil =>
      cases hmany : get.many
      · exact .finishAgain get hphase hmany
      · exact .finishMany get hphase hmany
    | cons popped rest => exact .finishRead get popped rest hphase
  case h_18 popped rest hphase =>
    cases h
    exact .materialize popped rest hphase
  case h_19 => cases h

end GpuPipe.Ring
