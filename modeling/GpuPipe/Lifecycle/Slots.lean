import GpuPipe.Lifecycle.Spawn

/-!
# The slots of the workers

What `start`, `_stop` and the health monitor do with `processes`, `worker_info`, `worker_configs` and
`hang_watch`. A monitor that has seen a worker dead spawns it again by the slot and the id it has noted,
possibly after the pipe has been stopped and started: it reads the slot, joins the old process, spawns, and
writes the slot and the list of processes, and a stop or a start may come between any two of these. There is
one monitor, the calls of `start` and `stop` do not overlap, and the last assignments of `_stop` are one
step. `launched` records what every process was spawned with, and no branch reads it. Joins and the profiler
are left out.
-/

namespace GpuPipe.Slots

open Spawn (Worker startWorkers twoWorkers)

structure Info where
  process : ℕ
  workerId : Bytes
  stageName : String
  deriving DecidableEq

/-- What `_restart_worker` has done: it has read its slot, it has its process, it has written `worker_info`. -/
inductive Phase
  | read
  | spawned (process : ℕ)
  | written (process : ℕ)
  deriving DecidableEq

/-- A call of `_restart_worker` that is under way; `old` is the process it has read. -/
structure Respawn where
  workerIdx : ℕ
  workerId : Bytes
  config : Worker
  old : ℕ
  phase : Phase

structure Pipe where
  /-- What the loop of `start` has still to spawn. -/
  pending : List Worker
  processes : List ℕ
  workerInfo : List Info
  workerConfigs : Bytes → Option Worker
  hangWatch : Bytes → Option ℚ
  launched : List Worker
  /-- `crashed_workers` of the monitor. -/
  crashed : List (ℕ × Bytes)
  respawn : Option Respawn

def Pipe.new : Pipe where
  pending := []
  processes := []
  workerInfo := []
  workerConfigs _ := none
  hangWatch _ := none
  launched := []
  crashed := []
  respawn := none

inductive Raised
  /-- No configuration found for worker. -/
  | noConfiguration (workerId : Bytes)
  | noSlot (workerIdx : ℕ)
  deriving DecidableEq

section Steps

variable (pipe : Pipe)

/-- `_spawn`: the new process is number `launched.length`. -/
def spawn (worker : Worker) : Pipe := { pipe with launched := pipe.launched ++ [worker] }

def register (worker : Worker) : Pipe :=
  { pipe with workerConfigs := Function.update pipe.workerConfigs worker.workerId (some worker) }

def spawnAndRegister (worker : Worker) : Pipe :=
  { spawn (register pipe worker) worker with
    processes := pipe.processes ++ [pipe.launched.length]
    workerInfo := pipe.workerInfo ++ [⟨pipe.launched.length, worker.workerId, worker.stageName⟩] }

/-- The watch of a worker, if its stage has a timeout. -/
def watch (worker : Worker) : Pipe :=
  { pipe with
    hangWatch :=
      if worker.hangTimeout.isSome then Function.update pipe.hangWatch worker.workerId worker.hangTimeout
      else pipe.hangWatch }

/-- One turn of the loop of `start`; if the spawn raises, it is the last. -/
def startNext (worker : Worker) (rest : List Worker) (spawns : Bool) : Pipe :=
  if spawns then spawnAndRegister { watch pipe worker with pending := rest } worker
  else register { watch pipe worker with pending := [] } worker

/-- `start` up to its loop. -/
def begin (jobs : List Config.Job) : Pipe :=
  { pipe with pending := startWorkers jobs, hangWatch := fun _ ↦ none }

def stop : Pipe := { pipe with processes := [], workerInfo := [], workerConfigs := fun _ ↦ none }

def scan (dead : List ℕ) : Pipe :=
  { pipe with
    crashed := dead.filterMap fun workerIdx ↦
      pipe.workerInfo[workerIdx]?.map fun info ↦ (workerIdx, info.workerId) }

/-- `_restart_worker` up to its join. -/
def readSlot (workerIdx : ℕ) (workerId : Bytes) : Except Raised Respawn :=
  match pipe.workerConfigs workerId, pipe.workerInfo[workerIdx]? with
  | none, _ => .error (.noConfiguration workerId)
  | some _, none => .error (.noSlot workerIdx)
  | some config, some old => .ok ⟨workerIdx, workerId, config, old.process, .read⟩

def spawnAgain (respawn : Respawn) : Pipe :=
  { spawn pipe respawn.config with respawn := some { respawn with phase := .spawned pipe.launched.length } }

/-- `self.worker_info[worker_idx] = …`, which raises without the slot. -/
def writeInfo (respawn : Respawn) (process : ℕ) : Pipe :=
  if respawn.workerIdx < pipe.workerInfo.length then
    { pipe with
      workerInfo := pipe.workerInfo.set respawn.workerIdx ⟨process, respawn.workerId, respawn.config.stageName⟩
      respawn := some { respawn with phase := .written process } }
  else { pipe with respawn := none }

/-- The loop of `_restart_worker` over `processes`. -/
def writeProcesses (respawn : Respawn) (process : ℕ) : Pipe :=
  { pipe with processes := pipe.processes.replace respawn.old process, respawn := none }

/-- The monitor goes on with a respawn; `spawns` if its spawn does not raise. -/
def restartWorker (respawn : Respawn) (spawns : Bool) : Pipe :=
  match respawn.phase with
  | .read => if spawns then spawnAgain pipe respawn else { pipe with respawn := none }
  | .spawned process => writeInfo pipe respawn process
  | .written process => writeProcesses pipe respawn process

end Steps

inductive Action
  | begin
  | startNext (spawns : Bool)
  | stop
  | scan (dead : List ℕ)
  | respawn (spawns : Bool)

/-- The monitor respawns what it has noted, whatever has happened since; a respawn that raises is dropped. -/
def step (jobs : List Config.Job) (pipe : Pipe) : Action → Option Pipe
  | .begin => if pipe.pending = [] then some (begin pipe jobs) else none
  | .startNext spawns =>
    match pipe.pending with
    | [] => none
    | worker :: rest => some (startNext pipe worker rest spawns)
  | .stop => if pipe.pending = [] then some (stop pipe) else none
  | .scan dead => if pipe.respawn.isNone then some (scan pipe dead) else none
  | .respawn spawns =>
    match pipe.respawn with
    | some respawn => some (restartWorker pipe respawn spawns)
    | none =>
      match pipe.crashed with
      | [] => none
      | (workerIdx, workerId) :: rest =>
        match readSlot pipe workerIdx workerId with
        | .ok respawn => some { pipe with crashed := rest, respawn := some respawn }
        | .error _ => some { pipe with crashed := rest }

def machine (jobs : List Config.Job) : Machine Pipe Action where
  start := .new
  step := step jobs

def Phase.isWritten : Phase → Bool
  | .written _ => true
  | _ => false

/-- A pipe that is up is not started, and no worker is started while a respawn that has read its slot has
still to write it. -/
def orderly (pipe : Pipe) : Action → Bool
  | .begin => pipe.workerInfo.isEmpty
  | .startNext _ => pipe.respawn.all fun respawn ↦ respawn.phase.isWritten
  | _ => true

/-! ## The invariant -/

/-- The processes, once a respawn that has written `worker_info` has written them too. -/
def Pipe.landed (pipe : Pipe) : List ℕ :=
  match pipe.respawn with
  | some ⟨_, _, _, old, .written process⟩ => pipe.processes.replace old process
  | _ => pipe.processes

/-- A slot belongs to a worker: its process was spawned with this worker's arguments, which are registered
under its id, and its calls are watched with its stage's timeout. -/
structure Slot (pipe : Pipe) (worker : Worker) (info : Info) : Prop where
  launched : pipe.launched[info.process]? = some worker
  workerId : info.workerId = worker.workerId
  stageName : info.stageName = worker.stageName
  registered : pipe.workerConfigs worker.workerId = some worker
  watched : pipe.hangWatch worker.workerId = worker.hangTimeout

/-- A respawn runs the worker of its slot, and until it writes, the slot is gone or as it was read. -/
structure Carried (jobs : List Config.Job) (pipe : Pipe) (respawn : Respawn) : Prop where
  own : (startWorkers jobs)[respawn.workerIdx]? = some respawn.config
  workerId : respawn.workerId = respawn.config.workerId
  old : respawn.old < pipe.launched.length
  waits : respawn.phase.isWritten = false → respawn.workerIdx < pipe.workerInfo.length →
    pipe.processes[respawn.workerIdx]? = some respawn.old
  spawned : ∀ process, respawn.phase = .spawned process →
    pipe.launched[process]? = some respawn.config ∧ process ∉ pipe.processes

structure Aligned (jobs : List Config.Job) (pipe : Pipe) : Prop where
  processes : pipe.workerInfo.map Info.process = pipe.landed
  nodup : pipe.landed.Nodup
  pending : pipe.pending = [] ∨ pipe.pending = (startWorkers jobs).drop pipe.workerInfo.length
  slots : ∀ (workerIdx : ℕ) (info : Info), pipe.workerInfo[workerIdx]? = some info →
    ∃ worker, (startWorkers jobs)[workerIdx]? = some worker ∧ Slot pipe worker info
  unwatched : ∀ worker ∈ pipe.pending, pipe.hangWatch worker.workerId = none
  crashed : ∀ crash ∈ pipe.crashed,
    ∃ worker, (startWorkers jobs)[crash.1]? = some worker ∧ worker.workerId = crash.2
  respawn : ∀ respawn, pipe.respawn = some respawn → Carried jobs pipe respawn

section Steps

variable {jobs : List Config.Job} {pipe next : Pipe} {respawn : Respawn}

theorem landed_none (h : pipe.respawn = none) : pipe.landed = pipe.processes := by
  unfold Pipe.landed
  rw [h]

theorem landed_unwritten (h : pipe.respawn = some respawn) (hphase : respawn.phase.isWritten = false) :
    pipe.landed = pipe.processes := by
  unfold Pipe.landed
  rw [h]
  split
  · rename_i heq
    cases heq
    cases hphase
  · rfl

theorem landed_written {process : ℕ} (h : pipe.respawn = some respawn) (hphase : respawn.phase = .written process) :
    pipe.landed = pipe.processes.replace respawn.old process := by
  obtain ⟨_, _, _, _, phase⟩ := respawn
  cases hphase
  unfold Pipe.landed
  rw [h]

/-- A slot stays what it is while its worker stays registered and watched. -/
theorem Slot.frame {worker : Worker} {info : Info} (h : Slot pipe worker info)
    (hlaunched : pipe.launched <+: next.launched)
    (hregistered : next.workerConfigs worker.workerId = pipe.workerConfigs worker.workerId)
    (hwatched : next.hangWatch worker.workerId = pipe.hangWatch worker.workerId) : Slot next worker info where
  launched := by
    obtain ⟨more, hmore⟩ := hlaunched
    rw [← hmore, List.getElem?_append_left (List.getElem?_eq_some_iff.mp h.launched).1]
    exact h.launched
  workerId := h.workerId
  stageName := h.stageName
  registered := hregistered.trans h.registered
  watched := hwatched.trans h.watched

theorem aligned_new (jobs : List Config.Job) : Aligned jobs .new where
  processes := rfl
  nodup := List.nodup_nil
  pending := .inl rfl
  slots workerIdx info h := by
    cases h
  unwatched worker h := by
    cases h
  crashed crash h := by
    cases h
  respawn respawn h := by
    cases h

/-- A start begins with empty lists and all workers of the jobs ahead of it. -/
theorem begin_aligned (h : Aligned jobs pipe) (hinfo : pipe.workerInfo = []) : Aligned jobs (begin pipe jobs) where
  processes := h.processes
  nodup := h.nodup
  pending := by
    right
    show startWorkers jobs = (startWorkers jobs).drop pipe.workerInfo.length
    rw [hinfo]
    rfl
  slots workerIdx info hslot := by
    have hslot : pipe.workerInfo[workerIdx]? = some info := hslot
    rw [hinfo] at hslot
    cases hslot
  unwatched worker _ := rfl
  crashed := h.crashed
  respawn respawn hrespawn := by
    have hcarried := h.respawn respawn hrespawn
    exact ⟨hcarried.own, hcarried.workerId, hcarried.old, hcarried.waits, hcarried.spawned⟩

/-- A stop leaves nothing that a respawn could find. -/
theorem stop_aligned (h : Aligned jobs pipe) (hpending : pipe.pending = []) : Aligned jobs (stop pipe) := by
  have hlanded : (stop pipe).landed = [] := by
    unfold Pipe.landed stop
    dsimp only
    split <;> rfl
  constructor
  · rw [hlanded]
    rfl
  · rw [hlanded]
    exact List.nodup_nil
  · exact .inl hpending
  · intro workerIdx info hslot
    cases hslot
  · intro worker hworker
    have hworker : worker ∈ pipe.pending := hworker
    rw [hpending] at hworker
    cases hworker
  · exact h.crashed
  · intro respawn hrespawn
    have hcarried := h.respawn respawn hrespawn
    refine ⟨hcarried.own, hcarried.workerId, hcarried.old, ?_, ?_⟩
    · intro _ hlt
      cases hlt
    · intro process hphase
      exact ⟨(hcarried.spawned process hphase).1, List.not_mem_nil⟩

/-- The monitor notes the ids of the slots. -/
theorem scan_aligned (h : Aligned jobs pipe) (dead : List ℕ) : Aligned jobs (scan pipe dead) where
  processes := h.processes
  nodup := h.nodup
  pending := h.pending
  slots workerIdx info hslot := by
    obtain ⟨worker, hworker, hown⟩ := h.slots workerIdx info hslot
    exact ⟨worker, hworker, hown.frame List.prefix_rfl rfl rfl⟩
  unwatched := h.unwatched
  crashed crash hcrash := by
    obtain ⟨workerIdx, _, hnoted⟩ := List.mem_filterMap.mp hcrash
    obtain ⟨info, hinfo, rfl⟩ := Option.map_eq_some_iff.mp hnoted
    obtain ⟨worker, hworker, hown⟩ := h.slots workerIdx info hinfo
    exact ⟨worker, hworker, hown.workerId.symm⟩
  respawn respawn hrespawn := by
    have hcarried := h.respawn respawn hrespawn
    exact ⟨hcarried.own, hcarried.workerId, hcarried.old, hcarried.waits, hcarried.spawned⟩

/-- Two slots of a start have different ids. -/
theorem workerId_inj {first second : ℕ} {worker other : Worker} (hworker : (startWorkers jobs)[first]? = some worker)
    (hother : (startWorkers jobs)[second]? = some other) (h : worker.workerId = other.workerId) :
    first = second := by
  have hfirst : first < ((startWorkers jobs).map Worker.workerId).length := by
    rw [List.length_map]
    exact (List.getElem?_eq_some_iff.mp hworker).1
  apply (List.getElem?_inj hfirst (Spawn.startWorkers_nodup jobs)).mp
  rw [List.getElem?_map, List.getElem?_map, hworker, hother, Option.map_some, Option.map_some, h]

/-- Every process of a slot has been launched. -/
theorem process_lt (h : Aligned jobs pipe) {process : ℕ} (hprocess : process ∈ pipe.landed) :
    process < pipe.launched.length := by
  rw [← h.processes] at hprocess
  obtain ⟨info, hinfo, rfl⟩ := List.mem_map.mp hprocess
  obtain ⟨workerIdx, hslot⟩ := List.mem_iff_getElem?.mp hinfo
  obtain ⟨worker, _, hown⟩ := h.slots workerIdx info hslot
  exact (List.getElem?_eq_some_iff.mp hown.launched).1

/-- A number that is not launched yet is new to the slots. -/
theorem launched_notMem (h : Aligned jobs pipe) : pipe.launched.length ∉ pipe.landed :=
  fun hmem ↦ Nat.lt_irrefl _ (process_lt h hmem)

/-! ### A worker is started -/

section Start

variable {worker : Worker} {rest : List Worker}

theorem watch_self (hfree : pipe.hangWatch worker.workerId = none) :
    (watch pipe worker).hangWatch worker.workerId = worker.hangTimeout := by
  simp only [watch]
  split
  · exact Function.update_self _ _ _
  · rw [hfree]
    exact (Option.not_isSome_iff_eq_none.mp ‹_›).symm

theorem watch_of_ne {id : Bytes} (hne : id ≠ worker.workerId) :
    (watch pipe worker).hangWatch id = pipe.hangWatch id := by
  simp only [watch]
  split
  · exact Function.update_of_ne hne _ _
  · rfl

/-- What the loop of `start` has still to spawn begins where the slots end. -/
theorem drop_of_pending (h : Aligned jobs pipe) (hpending : pipe.pending = worker :: rest) :
    (startWorkers jobs).drop pipe.workerInfo.length = worker :: rest := by
  rcases h.pending with hnil | hdrop
  · rw [hnil] at hpending
    cases hpending
  · rw [← hdrop, hpending]

theorem planned_of_pending (h : Aligned jobs pipe) (hpending : pipe.pending = worker :: rest) :
    (startWorkers jobs)[pipe.workerInfo.length]? = some worker := by
  rw [← List.head?_drop, drop_of_pending h hpending, List.head?_cons]

/-- The slots that are there are of other workers. -/
theorem slot_ne (h : Aligned jobs pipe) (hpending : pipe.pending = worker :: rest) {workerIdx : ℕ} {info : Info}
    (hslot : pipe.workerInfo[workerIdx]? = some info) {old : Worker}
    (hold : (startWorkers jobs)[workerIdx]? = some old) : old.workerId ≠ worker.workerId := fun heq ↦
  (List.getElem?_eq_some_iff.mp hslot).1.ne (workerId_inj hold (planned_of_pending h hpending) heq)

/-- A spawn that raises leaves the slots. -/
theorem startFails_aligned (h : Aligned jobs pipe) (hpending : pipe.pending = worker :: rest) :
    Aligned jobs (startNext pipe worker rest false) where
  processes := h.processes
  nodup := h.nodup
  pending := .inl rfl
  slots workerIdx info hslot := by
    obtain ⟨old, hold, hown⟩ := h.slots workerIdx info hslot
    have hne := slot_ne h hpending hslot hold
    exact ⟨old, hold, hown.frame List.prefix_rfl (Function.update_of_ne hne _ _) (watch_of_ne hne)⟩
  unwatched later hlater := by
    cases hlater
  crashed := h.crashed
  respawn respawn hrespawn := by
    have hcarried := h.respawn respawn hrespawn
    exact ⟨hcarried.own, hcarried.workerId, hcarried.old, hcarried.waits, hcarried.spawned⟩

/-- A new process is the last of the processes, also for a respawn that has still to write them. -/
theorem startNext_landed (h : Aligned jobs pipe)
    (hwritten : ∀ respawn, pipe.respawn = some respawn → respawn.phase.isWritten = true) :
    (startNext pipe worker rest true).landed = pipe.landed ++ [pipe.launched.length] := by
  cases hrespawn : pipe.respawn with
  | none =>
    rw [landed_none hrespawn]
    exact landed_none hrespawn
  | some respawn =>
    have hphase := hwritten respawn hrespawn
    cases hwrites : respawn.phase with
    | read =>
      rw [hwrites] at hphase
      cases hphase
    | spawned process =>
      rw [hwrites] at hphase
      cases hphase
    | written process =>
      have hnext : (startNext pipe worker rest true).respawn = some respawn := hrespawn
      rw [landed_written hrespawn hwrites, landed_written hnext hwrites]
      show (pipe.processes ++ [pipe.launched.length]).replace respawn.old process = _
      have hother : respawn.old ∉ [pipe.launched.length] := by
        have hold := (h.respawn respawn hrespawn).old
        rw [List.mem_singleton]
        omega
      rw [List.replace_append]
      split
      · rfl
      · rw [List.replace_of_not_mem hother, List.replace_of_not_mem ‹_›]

/-- One more worker of the start: it is the next of the jobs' workers, and its slot is the next slot. -/
theorem startNext_aligned (h : Aligned jobs pipe) (hpending : pipe.pending = worker :: rest)
    (hwritten : ∀ respawn, pipe.respawn = some respawn → respawn.phase.isWritten = true) :
    Aligned jobs (startNext pipe worker rest true) := by
  have hdrop := drop_of_pending h hpending
  have hplanned := planned_of_pending h hpending
  have hfree := h.unwatched worker (hpending ▸ List.mem_cons_self)
  constructor
  · rw [startNext_landed h hwritten, ← h.processes]
    exact List.map_append
  · rw [startNext_landed h hwritten, ← List.concat_eq_append]
    exact h.nodup.concat (launched_notMem h)
  · right
    show rest = (startWorkers jobs).drop (pipe.workerInfo ++ [_]).length
    rw [List.length_append, List.length_singleton, ← List.tail_drop, hdrop, List.tail_cons]
  · intro workerIdx info hslot
    have hslot : (pipe.workerInfo ++ [_])[workerIdx]? = some info := hslot
    rcases Nat.lt_or_ge workerIdx pipe.workerInfo.length with hlt | hnew
    · rw [List.getElem?_append_left hlt] at hslot
      obtain ⟨old, hold, hown⟩ := h.slots workerIdx info hslot
      have hne := slot_ne h hpending hslot hold
      exact ⟨old, hold, hown.frame (List.prefix_append _ _) (Function.update_of_ne hne _ _) (watch_of_ne hne)⟩
    · -- the slot that this turn has appended
      rw [List.getElem?_append_right hnew, List.getElem?_singleton] at hslot
      split at hslot
      · cases hslot
        have hidx : workerIdx = pipe.workerInfo.length := by omega
        rw [hidx]
        exact ⟨worker, hplanned, List.getElem?_concat_length, rfl, rfl, Function.update_self _ _ _,
          watch_self hfree⟩
      · cases hslot
  · intro later hlater
    have hlater : later ∈ rest := hlater
    obtain ⟨position, hposition⟩ := List.mem_iff_getElem?.mp hlater
    have hlast : (startWorkers jobs)[pipe.workerInfo.length + (position + 1)]? = some later := by
      rw [← List.getElem?_drop, hdrop, List.getElem?_cons_succ, hposition]
    have hne : later.workerId ≠ worker.workerId := by
      intro heq
      have hsame := workerId_inj hlast hplanned heq
      omega
    have hsame : (startNext pipe worker rest true).hangWatch later.workerId = pipe.hangWatch later.workerId :=
      watch_of_ne hne
    rw [hsame]
    exact h.unwatched later (hpending ▸ List.mem_cons_of_mem _ hlater)
  · exact h.crashed
  · intro respawn hrespawn
    have hcarried := h.respawn respawn hrespawn
    have hphase := hwritten respawn hrespawn
    refine ⟨hcarried.own, hcarried.workerId, ?_, ?_, ?_⟩
    · show respawn.old < (pipe.launched ++ [worker]).length
      rw [List.length_append]
      exact Nat.lt_add_right _ hcarried.old
    · intro hunwritten
      rw [hphase] at hunwritten
      cases hunwritten
    · intro process hspawned
      rw [hspawned] at hphase
      cases hphase

end Start

/-! ### A worker is respawned -/

/-- Where all differ, replacing an entry is setting its position. -/
theorem replace_eq_set {entries : List ℕ} {position old new : ℕ} (hnodup : entries.Nodup)
    (hold : entries[position]? = some old) : entries.replace old new = entries.set position new := by
  induction entries generalizing position with
  | nil => cases hold
  | cons entry rest ih =>
    cases position with
    | zero =>
      cases hold
      rw [List.replace_cons_self, List.set_cons_zero]
    | succ position =>
      have hrest : rest[position]? = some old := hold
      have hne : entry ≠ old := by
        intro heq
        apply (List.nodup_cons.mp hnodup).1
        rw [heq]
        exact List.mem_of_getElem? hrest
      have hbeq : (old == entry) = false := beq_false_of_ne (Ne.symm hne)
      rw [List.replace_cons, List.set_cons_succ, ← ih (List.nodup_cons.mp hnodup).2 hrest, hbeq]

/-- A slot that is there is read, with the arguments of its own worker. -/
theorem readSlot_of_slot {workerIdx : ℕ} {noted : Worker} (h : Aligned jobs pipe)
    (hnoted : (startWorkers jobs)[workerIdx]? = some noted) (hlt : workerIdx < pipe.workerInfo.length) :
    ∃ old, pipe.workerInfo[workerIdx]? = some old ∧
      readSlot pipe workerIdx noted.workerId = .ok ⟨workerIdx, noted.workerId, noted, old.process, .read⟩ := by
  obtain ⟨old, hold⟩ : ∃ old, pipe.workerInfo[workerIdx]? = some old := ⟨_, List.getElem?_eq_getElem hlt⟩
  obtain ⟨worker, hworker, hown⟩ := h.slots workerIdx old hold
  rw [hnoted] at hworker
  cases hworker
  refine ⟨old, hold, ?_⟩
  rw [readSlot, hown.registered, hold]

/-- What is read belongs to the worker that was noted. -/
theorem readSlot_carried {workerIdx : ℕ} {noted : Worker} (h : Aligned jobs pipe) (hidle : pipe.respawn = none)
    (hnoted : (startWorkers jobs)[workerIdx]? = some noted)
    (hread : readSlot pipe workerIdx noted.workerId = .ok respawn) :
    respawn.phase.isWritten = false ∧ Carried jobs pipe respawn := by
  have hlt : workerIdx < pipe.workerInfo.length := by
    unfold readSlot at hread
    split at hread
    · cases hread
    · cases hread
    · exact (List.getElem?_eq_some_iff.mp ‹_›).1
  obtain ⟨old, hold, hok⟩ := readSlot_of_slot h hnoted hlt
  rw [hok] at hread
  cases hread
  have hprocess : pipe.processes[workerIdx]? = some old.process := by
    rw [← landed_none hidle, ← h.processes, List.getElem?_map, hold, Option.map_some]
  refine ⟨rfl, hnoted, rfl, ?_, ?_, ?_⟩
  · apply process_lt h
    rw [landed_none hidle]
    exact List.mem_of_getElem? hprocess
  · intro _ _
    exact hprocess
  · intro process hphase
    cases hphase

/-- A step that keeps what the slots are seen by keeps them aligned. -/
theorem Aligned.frame {more : List Worker} (h : Aligned jobs pipe) (hlanded : next.landed = pipe.landed)
    (hpending : next.pending = pipe.pending) (hinfo : next.workerInfo = pipe.workerInfo)
    (hconfigs : next.workerConfigs = pipe.workerConfigs) (hwatch : next.hangWatch = pipe.hangWatch)
    (hlaunched : next.launched = pipe.launched ++ more) (hcrashed : next.crashed ⊆ pipe.crashed)
    (hrespawn : ∀ respawn, next.respawn = some respawn → Carried jobs next respawn) : Aligned jobs next where
  processes := by
    rw [hinfo, hlanded]
    exact h.processes
  nodup := by
    rw [hlanded]
    exact h.nodup
  pending := by
    rw [hpending, hinfo]
    exact h.pending
  slots workerIdx info hslot := by
    rw [hinfo] at hslot
    obtain ⟨worker, hworker, hown⟩ := h.slots workerIdx info hslot
    refine ⟨worker, hworker, hown.frame ⟨more, hlaunched.symm⟩ ?_ ?_⟩
    · rw [hconfigs]
    · rw [hwatch]
  unwatched worker hworker := by
    rw [hpending] at hworker
    rw [hwatch]
    exact h.unwatched worker hworker
  crashed crash hcrash := h.crashed crash (hcrashed hcrash)
  respawn := hrespawn

/-- The monitor takes what it respawns, or drops it. -/
theorem take_aligned (h : Aligned jobs pipe) (hlanded : pipe.landed = pipe.processes) {crashed : List (ℕ × Bytes)}
    (hcrashed : crashed ⊆ pipe.crashed) {taken : Option Respawn}
    (htaken : ∀ respawn, taken = some respawn → respawn.phase.isWritten = false ∧ Carried jobs pipe respawn) :
    Aligned jobs { pipe with crashed := crashed, respawn := taken } := by
  have hnext : Pipe.landed { pipe with crashed := crashed, respawn := taken } = pipe.landed := by
    rw [hlanded]
    cases taken with
    | none => rfl
    | some respawn => exact landed_unwritten rfl (htaken respawn rfl).1
  apply h.frame hnext rfl rfl rfl rfl (List.append_nil _).symm hcrashed
  intro respawn hrespawn
  have hcarried := (htaken respawn hrespawn).2
  exact ⟨hcarried.own, hcarried.workerId, hcarried.old, hcarried.waits, hcarried.spawned⟩

theorem drop_aligned (h : Aligned jobs pipe) (hlanded : pipe.landed = pipe.processes) :
    Aligned jobs { pipe with respawn := none } := by
  apply take_aligned h hlanded (List.Subset.refl _)
  intro respawn hrespawn
  cases hrespawn

/-- A respawn that has read its slot spawns the worker of the slot. -/
theorem spawnAgain_aligned (h : Aligned jobs pipe) (hrespawn : pipe.respawn = some respawn)
    (hphase : respawn.phase = .read) : Aligned jobs (spawnAgain pipe respawn) := by
  have hcarried := h.respawn respawn hrespawn
  have hunwritten : respawn.phase.isWritten = false := by
    rw [hphase]
    rfl
  have hlanded := landed_unwritten hrespawn hunwritten
  have hnext : (spawnAgain pipe respawn).landed = pipe.landed := hlanded.symm
  apply h.frame hnext rfl rfl rfl rfl rfl (List.Subset.refl _)
  intro other hother
  cases hother
  refine ⟨hcarried.own, hcarried.workerId, ?_, ?_, ?_⟩
  · show respawn.old < (pipe.launched ++ [respawn.config]).length
    rw [List.length_append]
    exact Nat.lt_add_right _ hcarried.old
  · intro _ hlt
    exact hcarried.waits hunwritten hlt
  · intro process hspawned
    cases hspawned
    constructor
    · exact List.getElem?_concat_length
    · have hnew := launched_notMem h
      rwa [hlanded] at hnew

/-- A respawn that has its process puts it where the old one was. -/
theorem writeInfo_aligned {process : ℕ} (h : Aligned jobs pipe) (hrespawn : pipe.respawn = some respawn)
    (hphase : respawn.phase = .spawned process) : Aligned jobs (writeInfo pipe respawn process) := by
  have hcarried := h.respawn respawn hrespawn
  have hunwritten : respawn.phase.isWritten = false := by
    rw [hphase]
    rfl
  have hlanded := landed_unwritten hrespawn hunwritten
  obtain ⟨hlaunched, hnew⟩ := hcarried.spawned process hphase
  unfold writeInfo
  split
  · rename_i hlt
    have hold := hcarried.waits hunwritten hlt
    have hnodup : pipe.processes.Nodup := hlanded ▸ h.nodup
    have hset := @replace_eq_set _ _ _ process hnodup hold
    obtain ⟨info, hinfo⟩ : ∃ info, pipe.workerInfo[respawn.workerIdx]? = some info :=
      ⟨_, List.getElem?_eq_getElem hlt⟩
    obtain ⟨worker, hworker, hown⟩ := h.slots respawn.workerIdx info hinfo
    rw [hcarried.own] at hworker
    cases hworker
    constructor
    · show (pipe.workerInfo.set respawn.workerIdx _).map Info.process = pipe.processes.replace respawn.old process
      rw [hset, List.map_set, h.processes, hlanded]
    · show (pipe.processes.replace respawn.old process).Nodup
      rw [hset]
      exact hnodup.set hnew
    · show pipe.pending = [] ∨ pipe.pending = (startWorkers jobs).drop (pipe.workerInfo.set _ _).length
      rw [List.length_set]
      exact h.pending
    · intro slot info hslot
      have hslot : (pipe.workerInfo.set respawn.workerIdx _)[slot]? = some info := hslot
      rw [List.getElem?_set] at hslot
      split at hslot
      · rename_i hidx
        cases hslot
        rw [← hidx]
        exact ⟨respawn.config, hcarried.own, hlaunched, hcarried.workerId, rfl, hown.registered, hown.watched⟩
      · obtain ⟨other, hother, hotherOwn⟩ := h.slots slot info hslot
        exact ⟨other, hother, hotherOwn.frame List.prefix_rfl rfl rfl⟩
    · exact h.unwatched
    · exact h.crashed
    · intro other hother
      cases hother
      refine ⟨hcarried.own, hcarried.workerId, hcarried.old, ?_, ?_⟩
      · intro hwritten
        cases hwritten
      · intro _ hspawned
        cases hspawned
  · exact drop_aligned h hlanded

/-- Each part of a respawn keeps the lists in step, once what it has still to write is counted in. -/
theorem restartWorker_aligned {spawns : Bool} (h : Aligned jobs pipe) (hrespawn : pipe.respawn = some respawn) :
    Aligned jobs (restartWorker pipe respawn spawns) := by
  unfold restartWorker
  split
  · rename_i hphase
    split
    · exact spawnAgain_aligned h hrespawn hphase
    · apply drop_aligned h
      apply landed_unwritten hrespawn
      rw [hphase]
      rfl
  · exact writeInfo_aligned h hrespawn ‹_›
  · rename_i process hphase
    have hlanded : (writeProcesses pipe respawn process).landed = pipe.landed := by
      rw [landed_written hrespawn hphase]
      rfl
    apply h.frame hlanded rfl rfl rfl rfl (List.append_nil _).symm (List.Subset.refl _)
    intro other hother
    cases hother

/-- What every step of an orderly run preserves. -/
theorem step_aligned {action : Action} (h : Aligned jobs pipe) (horderly : orderly pipe action = true)
    (hstep : step jobs pipe action = some next) : Aligned jobs next := by
  cases action with
  | begin =>
    rw [step, Option.ite_none_right_eq_some] at hstep
    cases hstep.2
    exact begin_aligned h (List.isEmpty_iff.mp horderly)
  | startNext spawns =>
    rw [step] at hstep
    split at hstep
    · cases hstep
    · rename_i worker rest hpending
      cases hstep
      cases spawns with
      | false => exact startFails_aligned h hpending
      | true =>
        apply startNext_aligned h hpending
        intro respawn hrespawn
        rw [orderly, hrespawn] at horderly
        exact horderly
  | stop =>
    rw [step, Option.ite_none_right_eq_some] at hstep
    cases hstep.2
    exact stop_aligned h hstep.1
  | scan dead =>
    rw [step, Option.ite_none_right_eq_some] at hstep
    cases hstep.2
    exact scan_aligned h dead
  | respawn spawns =>
    rw [step] at hstep
    split at hstep
    · cases hstep
      exact restartWorker_aligned h ‹_›
    · rename_i hidle
      split at hstep
      · cases hstep
      · rename_i workerIdx workerId rest hcrashed
        obtain ⟨noted, hnoted, hid⟩ := h.crashed (workerIdx, workerId) (hcrashed ▸ List.mem_cons_self)
        have hid : noted.workerId = workerId := hid
        subst hid
        have hrest : rest ⊆ pipe.crashed := by
          rw [hcrashed]
          exact List.subset_cons_self _ _
        split at hstep
        · rename_i hread
          cases hstep
          apply take_aligned h (landed_none hidle) hrest
          intro respawn hrespawn
          cases hrespawn
          exact readSlot_carried h hidle hnoted hread
        · cases hstep
          apply take_aligned h (landed_none hidle) hrest
          intro respawn hrespawn
          rw [hidle] at hrespawn
          cases hrespawn

/-- A respawn of a slot that is there, with nothing between its steps. -/
theorem respawn_runs {workerIdx : ℕ} {workerId : Bytes} {rest : List (ℕ × Bytes)} (h : Aligned jobs pipe)
    (hidle : pipe.respawn = none) (hcrashed : pipe.crashed = (workerIdx, workerId) :: rest)
    (hlt : workerIdx < pipe.workerInfo.length) :
    ∃ worker next, (startWorkers jobs)[workerIdx]? = some worker ∧
      ((machine jobs).restrict orderly).runFrom pipe (List.replicate 4 (.respawn true)) = some next ∧
      next.respawn = none ∧ next.launched = pipe.launched ++ [worker] ∧
      next.processes = pipe.processes.set workerIdx pipe.launched.length := by
  obtain ⟨worker, hworker, hid⟩ := h.crashed (workerIdx, workerId) (hcrashed ▸ List.mem_cons_self)
  have hid : worker.workerId = workerId := hid
  subst hid
  obtain ⟨old, hold, hread⟩ := readSlot_of_slot h hworker hlt
  have hlanded := landed_none hidle
  have hprocess : pipe.processes[workerIdx]? = some old.process := by
    rw [← hlanded, ← h.processes, List.getElem?_map, hold, Option.map_some]
  have hset := @replace_eq_set _ _ _ pipe.launched.length (hlanded ▸ h.nodup) hprocess
  let taken : Respawn := ⟨workerIdx, worker.workerId, worker, old.process, .read⟩
  let first : Pipe := { pipe with crashed := rest, respawn := some taken }
  have htake : ((machine jobs).restrict orderly).step pipe (.respawn true) = some first := by
    show step jobs pipe (.respawn true) = _
    rw [step, hidle]
    dsimp only
    rw [hcrashed]
    dsimp only
    rw [hread]
  let second : Pipe := { spawnAgain first taken with
    workerInfo := pipe.workerInfo.set workerIdx ⟨pipe.launched.length, worker.workerId, worker.stageName⟩
    respawn := some { taken with phase := .written pipe.launched.length } }
  have hwrite : ((machine jobs).restrict orderly).step (spawnAgain first taken) (.respawn true) = some second := by
    show some (if workerIdx < pipe.workerInfo.length then _ else _) = _
    rw [if_pos hlt]
    rfl
  refine ⟨worker, writeProcesses second taken pipe.launched.length, hworker, ?_, rfl, rfl, hset⟩
  exact Machine.runFrom_step htake (Machine.runFrom_step rfl (Machine.runFrom_step hwrite rfl))

end Steps

/-- Every run of starts, stops, scans and respawns in which no pipe that is up is started and no worker is
started while a respawn has read its slot and not written it. The processes are those of the slots, all
different, as soon as a respawn that has written its slot has written them; slot `i` runs the `i`-th worker
of the start with this worker's own arguments, watched with its own stage's timeout; and a respawn that the
monitor has noted for a slot that is there succeeds and runs the same worker again. -/
theorem slot_runs_own_worker {jobs : List Config.Job} {pipe : Pipe}
    (h : ((machine jobs).restrict orderly).Reachable pipe) :
    pipe.workerInfo.map Info.process = pipe.landed ∧ pipe.landed.Nodup ∧
      (∀ (workerIdx : ℕ) (info : Info), pipe.workerInfo[workerIdx]? = some info →
        ∃ worker, (startWorkers jobs)[workerIdx]? = some worker ∧ Slot pipe worker info) ∧
      (∀ respawn, pipe.respawn = some respawn → (startWorkers jobs)[respawn.workerIdx]? = some respawn.config) ∧
      ∀ workerIdx workerId rest, pipe.respawn = none → pipe.crashed = (workerIdx, workerId) :: rest →
        workerIdx < pipe.workerInfo.length →
        ∃ worker next, (startWorkers jobs)[workerIdx]? = some worker ∧
          ((machine jobs).restrict orderly).runFrom pipe (List.replicate 4 (.respawn true)) = some next ∧
          next.respawn = none ∧ next.launched = pipe.launched ++ [worker] ∧
          next.processes = pipe.processes.set workerIdx pipe.launched.length := by
  have haligned : Aligned jobs pipe := by
    apply h.invariant (Aligned jobs) (aligned_new jobs)
    intro state action next hstate hstep
    obtain ⟨horderly, hstep⟩ := (machine jobs).restrict_step hstep
    exact step_aligned hstate horderly hstep
  refine ⟨haligned.processes, haligned.nodup, haligned.slots, ?_, ?_⟩
  · intro respawn hrespawn
    exact (haligned.respawn respawn hrespawn).own
  · intro workerIdx workerId rest hidle hcrashed hlt
    exact respawn_runs haligned hidle hcrashed hlt

/-- A worker is found dead in a pipe that is stopped and started before the monitor gets to respawn it. -/
def restarted : List Action :=
  [.begin, .startNext true, .startNext true, .startNext true, .scan [2], .stop, .begin, .startNext true,
    .startNext true, .startNext true, .respawn true, .respawn true, .respawn true, .respawn true]

/-- A worker found dead before a stop and a start is respawned after them, in its slot and as itself. -/
theorem slot_runs_own_worker_restarted :
    ∃ pipe, (machine twoWorkers).runFrom .new restarted = some pipe ∧ pipe.processes = [3, 4, 6] ∧
      ∃ info worker, pipe.workerInfo[2]? = some info ∧ (startWorkers twoWorkers)[2]? = some worker ∧
        Slot pipe worker info := by
  refine ⟨_, rfl, rfl, ?_⟩
  have hslots := (@slot_runs_own_worker twoWorkers _ ⟨restarted, rfl⟩).2.2.1
  obtain ⟨worker, hworker, hslot⟩ := hslots 2 _ rfl
  exact ⟨_, worker, rfl, hworker, hslot⟩

/-- The respawn that has read its slot before the stop puts a process of the old run into the new slots. -/
example : ((machine twoWorkers).runFrom .new
      [.begin, .startNext true, .startNext true, .startNext true, .scan [2], .respawn true, .stop, .begin,
        .startNext true, .startNext true, .startNext true, .respawn true, .respawn true, .respawn true]).map
      (fun pipe ↦ (pipe.workerInfo.map Info.process, pipe.processes)) = some ([3, 4, 6], [3, 4, 5]) := by
  rfl

end GpuPipe.Slots
