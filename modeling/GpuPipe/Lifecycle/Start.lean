import Mathlib.Data.Int.Notation
import Mathlib.Data.List.Basic
import GpuPipe.Library.Machine

/-!
# What a start that fails leaves behind

`start` marks the pipe as started, checks the stages, makes the payload store, and then makes the queue
and the sync objects of one edge after the other: the sync lists are reset first, the queues are appended
to. Queues and sync objects are numbered as they are made. Processes, monitors, the statistics manager and
profiling are left out.
-/

namespace GpuPipe.Start

structure Job where
  drain : Bool
  outqn : Option ℕ
  chunk : Option ℤ
  batch : ℕ
  thread : Bool
  gpus : Bool
  numWorkers : ℕ
  deriving DecidableEq

structure Queue where
  id : ℕ
  maxsize : ℕ
  deriving DecidableEq

structure Stage where
  stage : ℕ
  inQueue : Option Queue
  outQueue : Option Queue
  endCounter : Option ℕ
  workerCount : Option (ℕ × ℕ)
  upstreamDone : Option ℕ
  stageDone : Option ℕ
  deriving DecidableEq

structure Pipe where
  jobs : List Job
  sequential : Bool
  started : Bool
  queues : List Queue
  endCounters : List ℕ
  workerCounts : List (ℕ × ℕ)
  doneEvents : List ℕ
  /-- The stages of the processes that run. -/
  running : List Stage
  /-- How many objects have been made. -/
  made : ℕ
  deriving DecidableEq

def Pipe.new (jobs : List Job) (sequential : Bool) : Pipe where
  jobs := jobs
  sequential := sequential
  started := false
  queues := []
  endCounters := []
  workerCounts := []
  doneEvents := []
  running := []
  made := 0

inductive Error
  | noWorkers
  /-- Stage `stage` has drain=False but an earlier stage has drain=True. -/
  | drainGap (stage : ℕ)
  | store
  | ring (edge : ℕ)
  deriving DecidableEq

/-- What fails outside: the store, or the ring of an edge. -/
inductive Failure
  | store
  | ring (edge : ℕ)
  deriving DecidableEq

/-- `chunk_eff`: `chunk=` if given, else the batch size of the next stage if it has one. -/
def chunkEff (jobs : List Job) (i : ℕ) : ℕ :=
  match jobs[i]? with
  | none => 0
  | some job =>
    match job.chunk, jobs[i + 1]? with
    | some chunk, _ => chunk.toNat
    | none, some next => if 1 < next.batch then next.batch else 0
    | none, none => 0

/-- `outq_size`: items, or chunks of items. -/
def capacity (jobs : List Job) (i : ℕ) : ℕ :=
  let size := (jobs[i]?.bind Job.outqn).getD 0
  if size ≠ 0 ∧ 1 < chunkEff jobs i then max 1 (size / chunkEff jobs i) else size

/-- A threaded stage without GPUs is one process. -/
def workerCount (jobs : List Job) (i : ℕ) : ℕ :=
  match jobs[i]? with
  | none => 0
  | some job => if job.thread && !job.gpus then 1 else job.numWorkers

/-- `self.jobs[0]["drain"] = False` -/
def rootStops : List Job → List Job
  | [] => []
  | job :: rest => { job with drain := false } :: rest

/-- The first stage with drain=False after one with drain=True. -/
def drainGap (seenDrain : Bool) (i : ℕ) : List Job → Option ℕ
  | [] => none
  | job :: rest =>
    if job.drain then drainGap true (i + 1) rest
    else if seenDrain then some i
    else drainGap seenDrain (i + 1) rest

section Steps

variable (pipe : Pipe)

/-- The queue and the sync objects of one edge. -/
def makeEdge (i : ℕ) : Pipe :=
  { pipe with
    queues := pipe.queues ++ [⟨pipe.made, capacity pipe.jobs i⟩]
    endCounters := pipe.endCounters ++ [pipe.made + 1]
    doneEvents := pipe.doneEvents ++ [pipe.made + 2]
    workerCounts := pipe.workerCounts ++ [(pipe.made + 3, workerCount pipe.jobs i)]
    made := pipe.made + 4 }

def makeEdges : ℕ → Pipe
  | 0 => pipe
  | count + 1 => makeEdge (makeEdges count) count

def stageOf (i : ℕ) : Stage where
  stage := i
  inQueue := if 0 < i then pipe.queues[i - 1]? else none
  outQueue := pipe.queues[i]?
  endCounter := pipe.endCounters[i]?
  workerCount := pipe.workerCounts[i]?
  upstreamDone := if 0 < i then pipe.doneEvents[i - 1]? else none
  stageDone := pipe.doneEvents[i]?

def spawn : Pipe :=
  { pipe with running := pipe.running ++ (List.range pipe.jobs.length).map (stageOf pipe) }

/-- `start` up to the sync lists: the pipe so far, and the error it raises. -/
def prepare (failure : Option Failure) : Option Error × Pipe :=
  let pipe := { pipe with started := true }
  if pipe.jobs = [] then (some .noWorkers, pipe)
  else
    let pipe := { pipe with jobs := rootStops pipe.jobs }
    match drainGap false 0 pipe.jobs with
    | some i => (some (.drainGap i), pipe)
    | none => if pipe.sequential = false ∧ failure = some .store then (some .store, pipe) else (none, pipe)

/-- The edges and the workers. -/
def build (failure : Option Failure) : Option Error × Pipe :=
  let pipe := { pipe with endCounters := [], workerCounts := [], doneEvents := [] }
  match failure with
  | some (.ring edge) =>
    if edge < pipe.jobs.length then (some (.ring edge), makeEdges pipe edge)
    else (none, spawn (makeEdges pipe pipe.jobs.length))
  | _ => (none, spawn (makeEdges pipe pipe.jobs.length))

def start (failure : Option Failure) : Option Error × Pipe :=
  match prepare pipe failure with
  | (some error, pipe) => (some error, pipe)
  | (none, pipe) => if pipe.sequential then (none, pipe) else build pipe failure

def stop : Pipe := { pipe with running := [], queues := [] }

def restart (failure : Option Failure) : Option Error × Pipe := start (stop pipe) failure

/-- `__iter__` up to its loop. -/
def iter (failure : Option Failure) : Option Error × Pipe :=
  if pipe.started then (none, pipe) else start pipe failure

end Steps

/-- The calls on a pipe; `iter` is the call that a loop over it begins with. -/
inductive Action
  | start (failure : Option Failure)
  | stop
  | restart (failure : Option Failure)
  | iter (failure : Option Failure)

def step (pipe : Pipe) : Action → Option Pipe
  | .start failure => some (start pipe failure).2
  | .stop => some (stop pipe)
  | .restart failure => some (restart pipe failure).2
  | .iter failure => some (iter pipe failure).2

def machine (jobs : List Job) (sequential : Bool) : Machine Pipe Action where
  start := .new jobs sequential
  step := step

/-- Queues, sync lists and the started flag are the same. -/
structure LeavesAsWas (pipe next : Pipe) : Prop where
  queues : next.queues = pipe.queues
  endCounters : next.endCounters = pipe.endCounters
  workerCounts : next.workerCounts = pipe.workerCounts
  doneEvents : next.doneEvents = pipe.doneEvents
  started : next.started = pipe.started

/-- Every stage writes the queue the next one reads, of its own capacity, and the iterator's queue is the
last stage's. -/
structure Aligned (pipe : Pipe) : Prop where
  edges : ∀ stage ∈ pipe.running, ∀ after ∈ pipe.running, after.stage = stage.stage + 1 →
    stage.outQueue.isSome = true ∧ after.inQueue = stage.outQueue
  capacities : ∀ stage ∈ pipe.running, ∀ queue, stage.outQueue = some queue →
    queue.maxsize = capacity pipe.jobs stage.stage
  last : ∀ stage ∈ pipe.running, stage.stage + 1 = pipe.jobs.length →
    stage.outQueue.isSome = true ∧ pipe.queues.getLast? = stage.outQueue

/-- The checks or the store fail. -/
def failsEarly (pipe : Pipe) (failure : Option Failure) : Bool :=
  pipe.jobs.isEmpty || (drainGap false 0 (rootStops pipe.jobs)).isSome ||
    (!pipe.sequential && failure = some .store)

/-- The pipe was marked as started before, and there is nothing yet in what the start has changed. -/
def LeavesNothing (pipe : Pipe) (failure : Option Failure) : Prop :=
  pipe.started = true ∧ (failsEarly pipe failure = true ∨
    failure = some (.ring 0) ∧ pipe.endCounters = [] ∧ pipe.workerCounts = [] ∧ pipe.doneEvents = [])

/-- A start that comes to making queues begins without any. -/
def startsFresh (pipe : Pipe) : Action → Bool
  | .start failure => pipe.queues.isEmpty || pipe.sequential || failsEarly pipe failure
  | _ => true

/-! ## The steps of a start -/

variable {pipe next : Pipe} {failure : Option Failure}

section Capacity

variable {jobs : List Job} {i outqn : ℕ} {job : Job}

theorem capacity_eq (hjob : jobs[i]? = some job) (houtqn : job.outqn = some outqn) :
    capacity jobs i =
      if outqn ≠ 0 ∧ 1 < chunkEff jobs i then max 1 (outqn / chunkEff jobs i) else outqn := by
  simp [capacity, hjob, houtqn]

/-- The slots, at one item each, are no more than was asked for. -/
theorem capacity_le (hjob : jobs[i]? = some job) (houtqn : job.outqn = some outqn) (hpos : 1 ≤ outqn) :
    1 ≤ capacity jobs i ∧ capacity jobs i ≤ outqn := by
  have hdiv : outqn / chunkEff jobs i ≤ outqn := Nat.div_le_self _ _
  rw [capacity_eq hjob houtqn]
  split <;> omega

/-- The slots, at a full chunk each, are no more than was asked for, if that is a full chunk. -/
theorem capacity_mul_le (hjob : jobs[i]? = some job) (houtqn : job.outqn = some outqn) (hpos : 1 ≤ outqn)
    (hchunk : chunkEff jobs i ≤ outqn) : capacity jobs i * max 1 (chunkEff jobs i) ≤ outqn := by
  rw [capacity_eq hjob houtqn]
  split
  · rename_i hsize
    have hslots : 1 ≤ outqn / chunkEff jobs i := Nat.div_pos hchunk (Nat.zero_lt_of_lt hsize.2)
    rw [Nat.max_eq_right hslots, Nat.max_eq_right (Nat.le_of_lt hsize.2)]
    exact Nat.div_mul_le_self _ _
  · have hone : max 1 (chunkEff jobs i) = 1 := by omega
    have hsame : outqn * max 1 (chunkEff jobs i) = outqn := by rw [hone, Nat.mul_one]
    exact Nat.le_of_eq hsame

end Capacity

theorem capacity_rootStops (jobs : List Job) (i : ℕ) : capacity (rootStops jobs) i = capacity jobs i := by
  cases jobs with
  | nil => rfl
  | cons job rest => cases i <;> rfl

theorem length_rootStops (jobs : List Job) : (rootStops jobs).length = jobs.length := by
  cases jobs <;> rfl

/-- The checks change the flag and the root's `drain` only. -/
structure Prepared (pipe next : Pipe) : Prop where
  started : next.started = true
  sequential : next.sequential = pipe.sequential
  queues : next.queues = pipe.queues
  endCounters : next.endCounters = pipe.endCounters
  workerCounts : next.workerCounts = pipe.workerCounts
  doneEvents : next.doneEvents = pipe.doneEvents
  running : next.running = pipe.running
  made : next.made = pipe.made
  length : next.jobs.length = pipe.jobs.length
  capacity : ∀ i, capacity next.jobs i = capacity pipe.jobs i

theorem prepare_prepared (pipe : Pipe) (failure : Option Failure) : Prepared pipe (prepare pipe failure).2 := by
  have hstops : Prepared pipe { pipe with started := true, jobs := rootStops pipe.jobs } :=
    ⟨rfl, rfl, rfl, rfl, rfl, rfl, rfl, rfl, length_rootStops pipe.jobs, capacity_rootStops pipe.jobs⟩
  unfold prepare
  dsimp only
  split
  · exact ⟨rfl, rfl, rfl, rfl, rfl, rfl, rfl, rfl, rfl, fun _ ↦ rfl⟩
  · split
    · exact hstops
    · split <;> exact hstops

/-- The checks and the store fail in the cases of `failsEarly` and in no other. -/
theorem prepare_fails (pipe : Pipe) (failure : Option Failure) :
    (prepare pipe failure).1.isSome = failsEarly pipe failure := by
  unfold prepare failsEarly
  dsimp only
  split
  · rename_i hjobs
    simp [hjobs]
  · rename_i hjobs
    split
    · rename_i stage hgap
      simp [hgap]
    · rename_i hgap
      cases hsequential : pipe.sequential <;> by_cases hstore : failure = some .store <;>
        simp [hjobs, hgap, hstore]

/-- The queues that `count` edges of these jobs get. -/
def newQueues (jobs : List Job) (made count : ℕ) : List Queue :=
  (List.range count).map fun i ↦ ⟨made + 4 * i, capacity jobs i⟩

/-- What making edges does. -/
structure Made (pipe next : Pipe) (count : ℕ) : Prop where
  jobs : next.jobs = pipe.jobs
  sequential : next.sequential = pipe.sequential
  started : next.started = pipe.started
  running : next.running = pipe.running
  made : next.made = pipe.made + 4 * count
  queues : next.queues = pipe.queues ++ newQueues pipe.jobs pipe.made count
  none : count = 0 → next = pipe

/-- Edges are made in order, each with a queue of its own and four new objects. -/
theorem makeEdges_made (pipe : Pipe) (count : ℕ) : Made pipe (makeEdges pipe count) count := by
  induction count with
  | zero => exact ⟨rfl, rfl, rfl, rfl, rfl, by simp [makeEdges, newQueues], fun _ ↦ rfl⟩
  | succ count ih =>
    refine ⟨ih.jobs, ih.sequential, ih.started, ih.running, ?_, ?_, nofun⟩
    · show (makeEdges pipe count).made + 4 = _
      rw [ih.made]
      omega
    · show (makeEdges pipe count).queues ++
        [⟨(makeEdges pipe count).made, capacity (makeEdges pipe count).jobs count⟩] = _
      rw [ih.queues, ih.made, ih.jobs, newQueues, newQueues, List.range_succ, List.map_append, List.append_assoc]
      rfl

/-- The sync lists are reset before the first edge. -/
def resetSync (pipe : Pipe) : Pipe := { pipe with endCounters := [], workerCounts := [], doneEvents := [] }

/-- How a start ends: in its checks, at an edge, or with all its edges and workers. -/
inductive Started (pipe : Pipe) (failure : Option Failure) : Option Error × Pipe → Prop
  | early {error : Error} (hfails : failsEarly pipe failure = true) {next : Pipe} (hprepared : Prepared pipe next) :
      Started pipe failure (some error, next)
  | sequential (hfails : failsEarly pipe failure = false) (hsequential : pipe.sequential = true) {next : Pipe}
      (hprepared : Prepared pipe next) : Started pipe failure (none, next)
  | edge (hfails : failsEarly pipe failure = false) (hparallel : pipe.sequential = false) {edge : ℕ}
      (hfailure : failure = some (.ring edge)) {middle : Pipe} (hprepared : Prepared pipe middle) :
      Started pipe failure (some (.ring edge), makeEdges (resetSync middle) edge)
  | built (hfails : failsEarly pipe failure = false) (hparallel : pipe.sequential = false) {middle : Pipe}
      (hprepared : Prepared pipe middle) :
      Started pipe failure (none, spawn (makeEdges (resetSync middle) middle.jobs.length))

/-- How a start can end. -/
theorem start_cases (pipe : Pipe) (failure : Option Failure) : Started pipe failure (start pipe failure) := by
  have hprepared := prepare_prepared pipe failure
  have hfails := prepare_fails pipe failure
  unfold start
  split
  · rename_i error middle hprepare
    rw [hprepare] at hprepared hfails
    exact .early hfails.symm hprepared
  · rename_i middle hprepare
    rw [hprepare] at hprepared hfails
    cases hsequential : middle.sequential with
    | true =>
      rw [if_pos rfl]
      exact .sequential hfails.symm (hprepared.sequential ▸ hsequential) hprepared
    | false =>
      rw [if_neg Bool.false_ne_true]
      have hparallel := hprepared.sequential ▸ hsequential
      unfold build
      dsimp only
      split
      · split
        · exact .edge hfails.symm hparallel rfl hprepared
        · exact .built hfails.symm hparallel hprepared
      · exact .built hfails.symm hparallel hprepared

/-! ## A start that fails -/

theorem newQueues_eq_nil {jobs : List Job} {made count : ℕ} : newQueues jobs made count = [] ↔ count = 0 := by
  simp [newQueues]

/-- A start that fails leaves the pipe as it was exactly if the pipe was marked before and had nothing in what the
start has changed. -/
theorem leavesAsWas_iff {error : Error} (hstart : start pipe failure = (some error, next)) :
    LeavesAsWas pipe next ↔ LeavesNothing pipe failure := by
  have hcases := start_cases pipe failure
  rw [hstart] at hcases
  cases hcases with
  | early hfails hprepared =>
    constructor
    · exact fun hleaves ↦ ⟨hleaves.started ▸ hprepared.started, .inl hfails⟩
    · rintro ⟨hstarted, -⟩
      exact ⟨hprepared.queues, hprepared.endCounters, hprepared.workerCounts, hprepared.doneEvents,
        hprepared.started.trans hstarted.symm⟩
  | @edge hfails hparallel edge hfailure middle hprepared =>
    have hmade := makeEdges_made (resetSync middle) edge
    constructor
    · intro hleaves
      have hqueues := hleaves.queues
      rw [hmade.queues, ← hprepared.queues] at hqueues
      have hnil : newQueues middle.jobs middle.made edge = [] := by simpa [resetSync] using hqueues
      have hzero : edge = 0 := newQueues_eq_nil.mp hnil
      subst hzero
      refine ⟨?_, .inr ⟨hfailure, hleaves.endCounters.symm, hleaves.workerCounts.symm, hleaves.doneEvents.symm⟩⟩
      rw [← hleaves.started]
      exact hprepared.started
    · rintro ⟨hstarted, hearly | ⟨hzero, hcounters, hcounts, hevents⟩⟩
      · rw [hfails] at hearly
        cases hearly
      · rw [hfailure, Option.some.injEq, Failure.ring.injEq] at hzero
        subst hzero
        exact ⟨hprepared.queues, hcounters.symm, hcounts.symm, hevents.symm,
          hprepared.started.trans hstarted.symm⟩

/-! ## Alignment -/

/-- Running workers have the pipe's queues, and these are one for each stage. -/
structure Built (pipe : Pipe) : Prop where
  stages : ∀ stage ∈ pipe.running, stage.stage < pipe.jobs.length ∧ stage.outQueue = pipe.queues[stage.stage]? ∧
    stage.inQueue = if 0 < stage.stage then pipe.queues[stage.stage - 1]? else none
  queues : pipe.running ≠ [] → ∃ made, pipe.queues = newQueues pipe.jobs made pipe.jobs.length

theorem getElem?_newQueues {jobs : List Job} {made count i : ℕ} (hlt : i < count) :
    (newQueues jobs made count)[i]? = some ⟨made + 4 * i, capacity jobs i⟩ := by
  simp [newQueues, hlt]

/-- Workers that have the pipe's queues, one for each stage, write and read in a line. -/
theorem Built.aligned (h : Built pipe) : Aligned pipe := by
  have hqueue : ∀ stage ∈ pipe.running, ∃ made, pipe.queues = newQueues pipe.jobs made pipe.jobs.length ∧
      stage.outQueue = some ⟨made + 4 * stage.stage, capacity pipe.jobs stage.stage⟩ := by
    intro stage hstage
    obtain ⟨made, hqueues⟩ := h.queues (List.ne_nil_of_mem hstage)
    obtain ⟨hlt, hout, -⟩ := h.stages stage hstage
    exact ⟨made, hqueues, by rw [hout, hqueues, getElem?_newQueues hlt]⟩
  constructor
  · intro stage hstage after hafter hnext
    obtain ⟨made, -, hsome⟩ := hqueue stage hstage
    obtain ⟨-, hout, -⟩ := h.stages stage hstage
    obtain ⟨-, -, hin⟩ := h.stages after hafter
    refine ⟨by rw [hsome]; rfl, ?_⟩
    rw [hin, hnext, if_pos (Nat.succ_pos _), hout, Nat.add_sub_cancel]
  · intro stage hstage queue hout
    obtain ⟨made, -, hsome⟩ := hqueue stage hstage
    rw [hsome, Option.some.injEq] at hout
    rw [← hout]
  · intro stage hstage hlast
    obtain ⟨made, hqueues, hsome⟩ := hqueue stage hstage
    obtain ⟨-, hout, -⟩ := h.stages stage hstage
    refine ⟨by rw [hsome]; rfl, ?_⟩
    have hlength : pipe.queues.length = stage.stage + 1 := by rw [hqueues, hlast]; simp [newQueues]
    rw [hout, List.getLast?_eq_getElem?, hlength, Nat.add_sub_cancel]

theorem built_idle (hrunning : pipe.running = []) : Built pipe := by
  constructor <;> simp [hrunning]

theorem newQueues_congr {jobs jobs' : List Job} (h : ∀ i, capacity jobs' i = capacity jobs i) (made count : ℕ) :
    newQueues jobs' made count = newQueues jobs made count := by
  simp only [newQueues, h]

/-- There are no queues before the first start, nothing runs without queues, and queues are numbered below
the next number. -/
structure Numbered (pipe : Pipe) : Prop where
  unstarted : pipe.started = false → pipe.queues = []
  idle : pipe.queues = [] → pipe.running = []
  ids : ∀ queue ∈ pipe.queues, queue.id < pipe.made

theorem Prepared.built (h : Prepared pipe next) (hbuilt : Built pipe) : Built next := by
  constructor
  · rw [h.running, h.queues, h.length]
    exact hbuilt.stages
  · rw [h.running, h.queues, h.length]
    intro hrunning
    obtain ⟨made, hqueues⟩ := hbuilt.queues hrunning
    exact ⟨made, hqueues.trans (newQueues_congr h.capacity _ _).symm⟩

theorem Prepared.numbered (h : Prepared pipe next) (hnumbered : Numbered pipe) : Numbered next := by
  constructor
  · rw [h.started]
    exact nofun
  · rw [h.running, h.queues]
    exact hnumbered.idle
  · rw [h.queues, h.made]
    exact hnumbered.ids

/-- The jobs are not empty where a start gets past its checks. -/
theorem jobs_ne_nil (hfails : failsEarly pipe failure = false) : pipe.jobs.length ≠ 0 := by
  intro hzero
  rw [List.length_eq_zero_iff] at hzero
  simp [failsEarly, hzero] at hfails

theorem Numbered.makeEdges (h : Numbered pipe) (hstarted : pipe.started = true) (count : ℕ) :
    Numbered (makeEdges pipe count) := by
  have hmade := makeEdges_made pipe count
  constructor
  · rw [hmade.started, hstarted]
    exact nofun
  · intro hnil
    rw [hmade.queues, List.append_eq_nil_iff] at hnil
    rw [hmade.running]
    exact h.idle hnil.1
  · intro queue hqueue
    rw [hmade.queues, List.mem_append] at hqueue
    rw [hmade.made]
    rcases hqueue with hqueue | hqueue
    · have hlt := h.ids queue hqueue
      omega
    · simp only [newQueues, List.mem_map, List.mem_range] at hqueue
      obtain ⟨i, hlt, rfl⟩ := hqueue
      show pipe.made + 4 * i < _
      omega

theorem Numbered.start (h : Numbered pipe) (failure : Option Failure) : Numbered (start pipe failure).2 := by
  have hcases := start_cases pipe failure
  generalize Start.start pipe failure = result at hcases
  have hedges {middle : Pipe} (hprepared : Prepared pipe middle) (count : ℕ) :
      Numbered (Start.makeEdges (resetSync middle) count) := by
    obtain ⟨hunstarted, hidle, hids⟩ := hprepared.numbered h
    have hreset : Numbered (resetSync middle) := ⟨hunstarted, hidle, hids⟩
    exact hreset.makeEdges hprepared.started count
  cases hcases with
  | early _ hprepared | sequential _ _ hprepared => exact hprepared.numbered h
  | edge _ _ _ hprepared => exact hedges hprepared _
  | @built hfails _ middle hprepared =>
    have hnumbered := hedges hprepared middle.jobs.length
    refine ⟨hnumbered.unstarted, fun hnil ↦ ?_, hnumbered.ids⟩
    have hqueues : (Start.makeEdges (resetSync middle) middle.jobs.length).queues = [] := hnil
    rw [(makeEdges_made _ _).queues, List.append_eq_nil_iff, newQueues_eq_nil, hprepared.length] at hqueues
    exact absurd hqueues.2 (jobs_ne_nil hfails)

theorem Numbered.stop (pipe : Pipe) : Numbered (stop pipe) := ⟨fun _ ↦ rfl, fun _ ↦ rfl, by simp [Start.stop]⟩

theorem numbered_new (jobs : List Job) (sequential : Bool) : Numbered (.new jobs sequential) :=
  ⟨fun _ ↦ rfl, fun _ ↦ rfl, by simp [Pipe.new]⟩

/-- No call gives a queue the number of an earlier one. -/
theorem Numbered.step {action : Action} (h : Numbered pipe) (hstep : step pipe action = some next) :
    Numbered next := by
  cases action <;> cases hstep
  · exact h.start _
  · exact .stop pipe
  · exact (Numbered.stop pipe).start _
  · unfold iter
    split
    · exact h
    · exact h.start _

theorem numbered_of_reachable {jobs : List Job} {sequential : Bool}
    (h : (machine jobs sequential).Reachable pipe) : Numbered pipe :=
  h.invariant Numbered (numbered_new jobs sequential) fun _ _ _ hpipe hstep ↦ hpipe.step hstep

/-- The workers of a start that began without queues. -/
theorem built_spawn (hqueues : pipe.queues = []) (hrunning : pipe.running = []) :
    Built (spawn (makeEdges pipe pipe.jobs.length)) := by
  have hmade := makeEdges_made pipe pipe.jobs.length
  constructor
  · intro stage hstage
    have hstage : stage ∈ (makeEdges pipe pipe.jobs.length).running ++
        (List.range (makeEdges pipe pipe.jobs.length).jobs.length).map
          (stageOf (makeEdges pipe pipe.jobs.length)) := hstage
    rw [hmade.running, hrunning, List.nil_append, List.mem_map] at hstage
    obtain ⟨i, hi, rfl⟩ := hstage
    exact ⟨List.mem_range.mp hi, rfl, rfl⟩
  · intro _
    refine ⟨pipe.made, ?_⟩
    show (makeEdges pipe pipe.jobs.length).queues =
      newQueues (makeEdges pipe pipe.jobs.length).jobs pipe.made (makeEdges pipe pipe.jobs.length).jobs.length
    rw [hmade.queues, hmade.jobs, hqueues, List.nil_append]

/-- A start that begins without queues, or fails before it makes any. -/
theorem Built.start (h : Built pipe) (hnumbered : Numbered pipe) (failure : Option Failure)
    (hfresh : pipe.queues = [] ∨ pipe.sequential = true ∨ failsEarly pipe failure = true) :
    Built (start pipe failure).2 := by
  have hcases := start_cases pipe failure
  generalize Start.start pipe failure = result at hcases
  have hqueues (hfails : failsEarly pipe failure = false) (hparallel : pipe.sequential = false) :
      pipe.queues = [] := by
    rcases hfresh with hqueues | hsequential | hearly
    · exact hqueues
    · rw [hparallel] at hsequential
      cases hsequential
    · rw [hfails] at hearly
      cases hearly
  cases hcases with
  | early _ hprepared | sequential _ _ hprepared => exact hprepared.built h
  | @edge hfails hparallel edge _ middle hprepared =>
    have hrunning : (makeEdges (resetSync middle) edge).running = [] := by
      rw [(makeEdges_made _ _).running]
      exact hprepared.running.trans (hnumbered.idle (hqueues hfails hparallel))
    exact built_idle hrunning
  | built hfails hparallel hprepared =>
    have hnil := hqueues hfails hparallel
    exact built_spawn (hprepared.queues.trans hnil) (hprepared.running.trans (hnumbered.idle hnil))

/-- With queues left over, the iterator's queue is not the last stage's. -/
theorem not_aligned_spawn (hnumbered : Numbered pipe) (hjobs : pipe.jobs.length ≠ 0) (hqueues : pipe.queues ≠ []) :
    ¬ Aligned (spawn (makeEdges pipe pipe.jobs.length)) := by
  intro haligned
  have hmade := makeEdges_made pipe pipe.jobs.length
  have hpos := List.length_pos_of_ne_nil hqueues
  set after := makeEdges pipe pipe.jobs.length
  have hmem : stageOf after (pipe.jobs.length - 1) ∈ (spawn after).running := by
    refine List.mem_append_right _ (List.mem_map_of_mem (List.mem_range.mpr ?_))
    rw [hmade.jobs]
    omega
  have hlast := (haligned.last _ hmem (by show _ - 1 + 1 = after.jobs.length; rw [hmade.jobs]; omega)).2
  have hlast : after.queues.getLast? = after.queues[pipe.jobs.length - 1]? := hlast
  rw [List.getLast?_eq_getElem?, hmade.queues, List.getElem?_append_right (by simp [newQueues]; omega),
    getElem?_newQueues (by simp [newQueues]; omega)] at hlast
  -- the last stage's queue was made before the last one
  rcases Nat.lt_or_ge (pipe.jobs.length - 1) pipe.queues.length with hold | hnew
  · rw [List.getElem?_append_left hold] at hlast
    have hid := hnumbered.ids _ (List.mem_of_getElem? hlast.symm)
    simp only at hid
    omega
  · rw [List.getElem?_append_right hnew, getElem?_newQueues (by omega), Option.some.injEq, Queue.mk.injEq] at hlast
    have hlength : (newQueues pipe.jobs pipe.made pipe.jobs.length).length = pipe.jobs.length := by
      simp [newQueues]
    rw [List.length_append, hlength] at hlast
    omega

/-- A start that has come to its end leaves the stages aligned exactly if it began without queues. -/
theorem aligned_iff (hnumbered : Numbered pipe) (hparallel : pipe.sequential = false)
    (hstart : start pipe failure = (none, next)) :
    Aligned next ↔ pipe.queues = [] := by
  have hcases := start_cases pipe failure
  rw [hstart] at hcases
  cases hcases with
  | sequential _ hsequential =>
    rw [hparallel] at hsequential
    cases hsequential
  | @built hfails _ middle hprepared =>
    constructor
    · intro haligned
      by_contra hqueues
      refine not_aligned_spawn ⟨?_, ?_, ?_⟩ ?_ ?_ haligned
      · exact (hprepared.numbered hnumbered).unstarted
      · exact (hprepared.numbered hnumbered).idle
      · exact (hprepared.numbered hnumbered).ids
      · exact hprepared.length ▸ jobs_ne_nil hfails
      · exact fun hnil ↦ hqueues (hprepared.queues.symm.trans hnil)
    · intro hqueues
      have hnext := (built_idle (hnumbered.idle hqueues)).start hnumbered failure (.inl hqueues)
      rw [hstart] at hnext
      exact hnext.aligned

/-- A start without left-over queues gives its workers the queues it has made. -/
theorem Built.step {action : Action} (h : Built pipe) (hnumbered : Numbered pipe)
    (hfresh : startsFresh pipe action = true) (hstep : step pipe action = some next) : Built next := by
  have hstopped : Built (stop pipe) := built_idle rfl
  cases action with
  | start failure =>
    cases hstep
    refine h.start hnumbered failure ?_
    simpa [startsFresh, or_assoc] using hfresh
  | stop =>
    cases hstep
    exact hstopped
  | restart failure =>
    cases hstep
    exact hstopped.start (.stop pipe) failure (.inl rfl)
  | iter failure =>
    cases hstep
    unfold iter
    split
    · exact h
    · rename_i hstarted
      exact h.start hnumbered failure (.inl (hnumbered.unstarted (by simpa using hstarted)))

/-- When a start that fails leaves the pipe as it was; when a start that does not fail leaves the stages
aligned; and runs in which they are aligned all along. -/
theorem start_leaves_iff (jobs : List Job) (sequential : Bool) :
    (∀ pipe failure error next, start pipe failure = (some error, next) →
      (LeavesAsWas pipe next ↔ LeavesNothing pipe failure)) ∧
    (∀ pipe failure next, (machine jobs sequential).Reachable pipe → pipe.sequential = false →
      start pipe failure = (none, next) → (Aligned next ↔ pipe.queues = [])) ∧
    ∀ pipe, ((machine jobs sequential).restrict startsFresh).Reachable pipe → Aligned pipe := by
  refine ⟨fun pipe failure error next hstart ↦ leavesAsWas_iff hstart,
    fun pipe failure next h hparallel hstart ↦ aligned_iff (numbered_of_reachable h) hparallel hstart, ?_⟩
  intro pipe h
  refine (h.invariant (fun pipe ↦ Built pipe ∧ Numbered pipe)
    ⟨built_idle rfl, numbered_new jobs sequential⟩ ?_).1.aligned
  intro pipe action next hpipe hstep
  obtain ⟨hfresh, hnext⟩ := Machine.restrict_step hstep
  exact ⟨hpipe.1.step hpipe.2 hfresh hnext, hpipe.2.step hnext⟩

/-! ## Two stages -/

/-- A root stage and one after it, with room for two and for five items. -/
def twoJobs : List Job := [⟨false, some 2, none, 0, false, false, 1⟩, ⟨true, some 5, none, 0, false, false, 1⟩]

/-- After a start and a stop, a start whose store fails leaves the pipe as it was; a run with a failing start
before a stop stays aligned. -/
theorem start_leaves_twoJobs :
    (∃ pipe next, (machine twoJobs false).runFrom (.new twoJobs false) [.start none, .stop] = some pipe ∧
      start pipe (some .store) = (some .store, next) ∧ LeavesAsWas pipe next) ∧
    ∃ pipe, ((machine twoJobs false).restrict startsFresh).runFrom (.new twoJobs false)
      [.start (some (.ring 1)), .restart none] = some pipe ∧ pipe.running.length = 2 ∧ Aligned pipe := by
  refine ⟨⟨_, _, rfl, rfl, ?_⟩, ⟨_, rfl, rfl, ?_⟩⟩
  · exact ((start_leaves_iff twoJobs false).1 _ (some .store) _ _ rfl).mpr ⟨rfl, .inl rfl⟩
  · exact (start_leaves_iff twoJobs false).2.2 _ ⟨[.start (some (.ring 1)), .restart none], rfl⟩

/-- The first start fails at the second ring: the flag is up and a queue is left, which the next start then
gives to its first stage. -/
theorem not_start_leaves :
    (¬ ∀ jobs sequential pipe failure error next, (machine jobs sequential).Reachable pipe →
      start pipe failure = (some error, next) → LeavesAsWas pipe next) ∧
    ¬ ∀ jobs sequential pipe, (machine jobs sequential).Reachable pipe → Aligned pipe := by
  constructor
  · intro hall
    have hleaves := hall twoJobs false _ (some (.ring 1)) _ _ .refl rfl
    exact absurd hleaves.started (by decide)
  · intro hall
    have haligned := hall twoJobs false _ ⟨[.start (some (.ring 1)), .start none], rfl⟩
    have hlast := (haligned.last _ (List.mem_append_right _ (List.mem_map_of_mem (List.mem_range.mpr
      (by decide : 1 < 2)))) rfl).2
    revert hlast
    decide

end GpuPipe.Start
