import Mathlib.Data.List.Dedup
import Mathlib.Data.List.Sort
import Mathlib.Algebra.Order.Ring.Rat
import GpuPipe.Lifecycle.Start

/-!
# Adding stages

`Pipe.add` resolves what a stage is given (GPUs, cores, threads, hang and scavenge modes) into a job, or
raises and leaves the jobs as they are. Ids may be anything that `int()` takes or refuses, and a timeout
anything that compares with zero or does not. The GPUs of the box are counted once, by the first call that
needs them. The pickle check of the stage, which only prints, is left out.
-/

namespace GpuPipe.Config

/-- A stage callable: its name, and whether it has `on_park`. -/
structure Func where
  name : String
  hasOnPark : Bool
  deriving DecidableEq

inductive Threads
  | int (value : ℤ)
  | bool (value : Bool)
  | other (repr : String)
  deriving DecidableEq

/-- An argument for an id: `int()` makes an integer of it, or raises. -/
inductive Given
  | int (value : ℤ)
  | other (repr : String)
  deriving DecidableEq

/-- An argument for several ids: what iteration finds, if there is any. -/
inductive Ids
  | entries (ids : List Given)
  | notIterable
  deriving DecidableEq

/-- A timeout: a number, or something that does not compare with one. -/
inductive Seconds
  | number (value : ℚ)
  | other (repr : String)
  deriving DecidableEq

def Given.toInt : Given → Option ℤ
  | int value => some value
  | other _ => none

def Ids.toInts : Ids → Option (List ℤ)
  | entries ids => ids.mapM Given.toInt
  | notIterable => none

def Seconds.toNumber : Seconds → Option ℚ
  | number value => some value
  | other _ => none

/-- The arguments of `add`, with their defaults. -/
structure Args where
  func : Func
  workers : ℕ := 1
  outqn : Option ℕ := none
  pergpu : Bool := false
  thread : Bool := false
  gpuId : Option Given := none
  gpus : Option Ids := none
  cpus : Option Ids := none
  cpuThreads : Option Threads := none
  batch : ℕ := 0
  drain : Bool := true
  chunk : Option ℤ := none
  chunkMs : ℚ := 10
  scavenge : Bool := false
  hangTimeout : Option Seconds := none
  deriving DecidableEq

/-- Every id is an integer to `int()`, and the timeout compares with zero. -/
structure Args.Converts (args : Args) : Prop where
  gpuId : ∀ given, args.gpuId = some given → given.toInt.isSome = true
  gpus : ∀ ids, args.gpus = some ids → ids.toInts.isSome = true
  cpus : ∀ ids, args.cpus = some ids → ids.toInts.isSome = true
  hangTimeout : ∀ timeout, args.hangTimeout = some timeout → timeout.toNumber.isSome = true

/-- One entry of `jobs`. -/
structure Job where
  func : Func
  outqn : Option ℕ
  numWorkers : ℕ
  pergpu : Bool
  thread : Bool
  gpuId : Option Given
  gpus : Option (List ℤ)
  cpus : Option (List ℤ)
  cpuThreads : Option ℤ
  isGpuStage : Bool
  scavenge : Bool
  hangTimeout : Option ℚ
  batch : ℕ
  drain : Bool
  chunk : Option ℤ
  chunkMs : ℚ
  deriving DecidableEq

def Job.name (job : Job) : String := job.func.name

/-- The part of a job that `start` reads for its edge. -/
def Job.edge (job : Job) : Start.Job where
  drain := job.drain
  outqn := job.outqn
  chunk := job.chunk
  batch := job.batch
  thread := job.thread
  gpus := job.gpus.isSome
  numWorkers := job.numWorkers

/-! ## Errors and warnings -/

/-- Why `add` raises, apart from the name of the stage. -/
inductive Reason
  | scavengeThread
  | scavengeRoot
  | hangThread
  | hangRoot
  | hangNotPositive (timeout : ℚ)
  | noGpus
  | badGpus (bad : List ℤ) (gpuCount : ℕ)
  | noCpus
  | badCpus (bad : List ℤ) (ncpu : ℕ)
  | badThreads (given : Threads)
  deriving DecidableEq

structure Error where
  stage : String
  reason : Reason
  deriving DecidableEq

/-- What a step of `add` raises: a reason of its own, or what a conversion or a comparison raises. -/
inductive Refusal
  | reason (reason : Reason)
  | foreign
  deriving DecidableEq

inductive Raised
  | valueError (error : Error)
  | foreign
  deriving DecidableEq

def Refusal.raised (stage : String) : Refusal → Raised
  | .reason why => .valueError ⟨stage, why⟩
  | .foreign => .foreign

def reprList (values : List ℤ) : String := "[" ++ ", ".intercalate (values.map toString) ++ "]"

def Threads.repr : Threads → String
  | .int value => toString value
  | .bool true => "True"
  | .bool false => "False"
  | .other repr => repr

/-- The text behind the name; `str` writes a number of seconds. -/
def Reason.text (str : ℚ → String) : Reason → String
  | .scavengeThread => "scavenge=True is not supported with thread=True (freeze targets whole processes)"
  | .scavengeRoot => "scavenge=True is not supported on the root stage"
  | .hangThread => "hang_timeout is not supported with thread=True (a hung thread can't be killed)"
  | .hangRoot => "hang_timeout is not supported on the root stage"
  | .hangNotPositive timeout => "hang_timeout must be > 0 seconds, got " ++ str timeout
  | .noGpus => "gpus=[] is empty — pass at least one GPU id, or omit gpus for a CPU stage"
  | .badGpus bad gpuCount =>
    "gpus/gpu_id reference GPU(s) " ++ reprList bad ++ ", but the box has " ++ toString gpuCount ++
      " CUDA GPU(s) (" ++
      (if gpuCount = 0 then "no CUDA GPUs are available"
        else "valid ids 0.." ++ toString ((gpuCount : ℤ) - 1)) ++ ")"
  | .noCpus => "cpus=[] is empty — pass at least one CPU id, or omit cpus for an unpinned stage"
  | .badCpus bad ncpu =>
    "cpus reference CPU(s) " ++ reprList bad ++ ", but the box has " ++ toString ncpu ++
      " CPU(s) (valid ids 0.." ++ toString ((ncpu : ℤ) - 1) ++ ")"
  | .badThreads given => "cpu_threads must be a positive int, got " ++ given.repr

def Error.message (str : ℚ → String) (error : Error) : String := error.stage ++ ": " ++ error.reason.text str

inductive Warning
  | rootClamped (stage : String) (workers : ℕ) (pergpu : Bool)
  | noGpusFound (stage : String)
  | scavengeIgnored (stage : String)
  deriving DecidableEq

/-! ## Counting GPUs -/

/-- What `_torch.available()` and its `torch.cuda` give. -/
inductive Torch
  | absent
  | raises
  | noCuda
  | devices (count : ℕ)
  deriving DecidableEq

/-- `nvidia-smi`: it cannot be run, or it exits and prints a number of words. -/
inductive Smi
  | fails
  | exits (code : ℤ) (words : ℕ)
  deriving DecidableEq

structure Box where
  torch : Torch
  smi : Smi
  /-- `CUDA_VISIBLE_DEVICES` -/
  visible : Option String
  /-- `os.cpu_count()` -/
  cpuCount : Option ℕ

def isSpace (char : Char) : Bool :=
  let code := char.toNat
  (9 ≤ code && code ≤ 13) || (28 ≤ code && code ≤ 32) || (0x2000 ≤ code && code ≤ 0x200a) ||
    [0x85, 0xa0, 0x1680, 0x2028, 0x2029, 0x202f, 0x205f, 0x3000].contains code

/-- The entries of a comma-separated list that are not blank. -/
def countEntries (text : String) : ℕ :=
  (text.toList.splitOn ',').countP fun entry ↦ entry.any fun char ↦ !isSpace char

def getGpuCount (box : Box) : ℕ :=
  match box.torch with
  | .devices count => count
  | .noCuda | .raises => 0
  | .absent =>
    match box.smi with
    | .fails => 0
    | .exits code words =>
      let n := if code = 0 then words else 0
      match box.visible with
      | some text => min n (countEntries text)
      | none => n

/-! ## The steps of `add` -/

structure Pipe where
  jobs : List Job
  /-- `_gpus` -/
  gpuCount : Option ℕ
  printed : List Warning

def Pipe.new : Pipe where
  jobs := []
  gpuCount := none
  printed := []

/-- A root stage asks for more than one worker. -/
def Args.clamps (isRoot : Bool) (args : Args) : Bool := isRoot && (1 < args.workers || args.pergpu)

def Args.clamp (isRoot : Bool) (args : Args) : Args :=
  if args.clamps isRoot then { args with workers := 1, pergpu := false } else args

/-- The checks of the scavenge and hang modes. -/
def checkModes (isRoot : Bool) (args : Args) : Option Refusal :=
  if args.scavenge && args.thread then some (.reason .scavengeThread)
  else if args.scavenge && isRoot then some (.reason .scavengeRoot)
  else
    match args.hangTimeout with
    | none => none
    | some timeout =>
      if args.thread then some (.reason .hangThread)
      else if isRoot then some (.reason .hangRoot)
      else
        match timeout with
        | .number value => if value ≤ 0 then some (.reason (.hangNotPositive value)) else none
        | .other _ => some .foreign

def Args.needsGpus (args : Args) : Bool := args.gpus.isSome || args.pergpu || args.gpuId.isSome

/-- `sorted({g for g in pool if g < 0 or g >= count})` -/
def outside (count : ℕ) (pool : List ℤ) : List ℤ :=
  (pool.filter fun id ↦ id < 0 || (count : ℤ) ≤ id).dedup.insertionSort (· ≤ ·)

def converted {Argument Value : Type} (convert : Argument → Option Value) :
    Option Argument → Except Refusal (Option Value)
  | none => .ok none
  | some given => (convert given).elim (.error .foreign) fun value ↦ .ok (some value)

/-- The pool before its check: `gpus=`, then `pergpu`, then `gpu_id=`. -/
def gpuPool (gpuCount : ℕ) (args : Args) : Except Refusal (Option (List ℤ)) :=
  if args.gpus.isSome then converted Ids.toInts args.gpus
  else if args.pergpu then
    .ok (if 0 < gpuCount then some ((List.range gpuCount).map Int.ofNat) else none)
  else converted (fun given ↦ given.toInt.map fun gpu ↦ [gpu]) args.gpuId

/-- A given pool of GPUs or cores is not empty and within the box. -/
def checkPool (count : ℕ) (empty : Reason) (bad : List ℤ → Reason) : Option (List ℤ) → Option Reason
  | none => none
  | some pool =>
    if pool = [] then some empty
    else if outside count pool = [] then none
    else some (bad (outside count pool))

def checkGpus (gpuCount : ℕ) (pool : Option (List ℤ)) : Option Reason :=
  checkPool gpuCount .noGpus (fun bad ↦ .badGpus bad gpuCount) pool

def checkCpus (ncpu : ℕ) (pool : Option (List ℤ)) : Option Reason :=
  checkPool ncpu .noCpus (fun bad ↦ .badCpus bad ncpu) pool

/-- `cpu_threads`, if it is a positive integer. -/
def checkThreads : Option Threads → Except Reason (Option ℤ)
  | none => .ok none
  | some (.int value) => if value < 1 then .error (.badThreads (.int value)) else .ok (some value)
  | some given => .error (.badThreads given)

def poolWarnings (args : Args) (pool : Option (List ℤ)) : List Warning :=
  (if args.gpus.isNone && args.pergpu && pool.isNone then [.noGpusFound args.func.name] else []) ++
    if args.scavenge && pool.isNone then [.scavengeIgnored args.func.name] else []

def makeJob (args : Args) (pool cpus : Option (List ℤ)) (threads : Option ℤ) : Job where
  func := args.func
  outqn := args.outqn
  numWorkers := pool.elim args.workers fun gpus ↦ args.workers * gpus.length
  pergpu := args.pergpu
  thread := args.thread
  gpuId := args.gpuId
  gpus := pool
  cpus := cpus
  cpuThreads := threads
  isGpuStage := pool.isSome
  scavenge := args.scavenge && pool.isSome
  hangTimeout := args.hangTimeout.bind Seconds.toNumber
  batch := args.batch
  drain := args.drain
  chunk := args.chunk
  chunkMs := args.chunkMs

section Add

variable (box : Box) (pipe : Pipe)

/-- The property `gpus`: counted on first use. -/
def Pipe.countGpus : Pipe := { pipe with gpuCount := some (pipe.gpuCount.getD (getGpuCount box)) }

/-- `add` from the CPU pool on. -/
def addPinned (args : Args) (pool : Option (List ℤ)) : Except Refusal Job := do
  let cpus ← converted Ids.toInts args.cpus
  match checkCpus (box.cpuCount.getD 0) cpus with
  | some reason => throw (.reason reason)
  | none =>
    match checkThreads args.cpuThreads with
    | .error reason => throw (.reason reason)
    | .ok threads => return makeJob args pool cpus threads

/-- `add` from the GPU pool on. -/
def addPooled (gpuCount : ℕ) (args : Args) : Except Refusal Unit × Pipe :=
  match gpuPool gpuCount args with
  | .error refusal => (.error refusal, pipe)
  | .ok pool =>
    match checkGpus gpuCount pool with
    | some reason => (.error (.reason reason), pipe)
    | none =>
      let pipe := { pipe with printed := pipe.printed ++ poolWarnings args pool }
      match addPinned box args pool with
      | .error refusal => (.error refusal, pipe)
      | .ok job => (.ok (), { pipe with jobs := pipe.jobs ++ [job] })

/-- `add` behind the checks of the modes. -/
def addStage (args : Args) : Except Refusal Unit × Pipe :=
  if args.needsGpus then
    addPooled box (pipe.countGpus box) ((pipe.countGpus box).gpuCount.getD 0) args
  else addPooled box pipe 0 args

def add (args : Args) : Except Raised Unit × Pipe :=
  let isRoot := pipe.jobs.isEmpty
  let pipe :=
    if args.clamps isRoot then
      { pipe with printed := pipe.printed ++ [.rootClamped args.func.name args.workers args.pergpu] }
    else pipe
  let args := args.clamp isRoot
  match checkModes isRoot args with
  | some refusal => (.error (refusal.raised args.func.name), pipe)
  | none => ((addStage box pipe args).1.mapError (Refusal.raised args.func.name), (addStage box pipe args).2)

end Add

def machine (box : Box) : Machine Pipe Args where
  start := .new
  step pipe args := some (add box pipe args).2

/-- What the workers of a stage may rely on. -/
structure WellFormed (box : Box) (index : ℕ) (job : Job) : Prop where
  gpus : ∀ pool, job.gpus = some pool → pool ≠ [] ∧ ∀ gpu ∈ pool, 0 ≤ gpu ∧ gpu < getGpuCount box
  cpus : ∀ pool, job.cpus = some pool → pool ≠ [] ∧ ∀ cpu ∈ pool, 0 ≤ cpu ∧ cpu < box.cpuCount.getD 0
  isGpuStage : job.isGpuStage = job.gpus.isSome
  cpuThreads : ∀ threads, job.cpuThreads = some threads → 1 ≤ threads
  scavenge : job.scavenge = true → job.gpus.isSome = true ∧ job.thread = false ∧ 0 < index
  hangTimeout : ∀ timeout, job.hangTimeout = some timeout → 0 < timeout ∧ job.thread = false ∧ 0 < index
  workers : ∃ workers, job.numWorkers = workers * job.gpus.elim 1 List.length ∧ (index = 0 → workers ≤ 1)
  root : index = 0 → job.pergpu = false

/-! ## What the checks establish -/

section Checks

variable {box : Box} {isRoot : Bool} {args : Args} {count : ℕ} {pool : List ℤ}

theorem outside_eq_nil (h : outside count pool = []) {id : ℤ} (hid : id ∈ pool) :
    0 ≤ id ∧ id < count := by
  by_contra hout
  have hmem : id ∈ outside count pool := by
    unfold outside
    rw [List.mem_insertionSort, List.mem_dedup, List.mem_filter]
    refine ⟨hid, ?_⟩
    rw [Bool.or_eq_true, decide_eq_true_eq, decide_eq_true_eq]
    omega
  rw [h] at hmem
  exact List.not_mem_nil hmem

/-- A pool that is accepted is not empty and lies within the box. -/
theorem checkPool_eq_none {empty : Reason} {bad : List ℤ → Reason}
    (h : checkPool count empty bad (some pool) = none) :
    pool ≠ [] ∧ ∀ id ∈ pool, 0 ≤ id ∧ id < count := by
  unfold checkPool at h
  split at h
  · cases ‹some pool = none›
  · rename_i pool' heq
    cases heq
    split at h
    · cases h
    · split at h
      · rename_i hne hin
        exact ⟨hne, fun id hid ↦ outside_eq_nil hin hid⟩
      · cases h

theorem checkModes_scavenge (h : checkModes isRoot args = none) (hscavenge : args.scavenge = true) :
    args.thread = false ∧ isRoot = false := by
  unfold checkModes at h
  rw [hscavenge, Bool.true_and, Bool.true_and] at h
  split at h
  · cases h
  · split at h
    · cases h
    · exact ⟨Bool.eq_false_iff.mpr ‹_›, Bool.eq_false_iff.mpr ‹_›⟩

/-- A stage with `hang_timeout` has processes, an input, and a positive number of seconds. -/
theorem checkModes_hang (h : checkModes isRoot args = none) {timeout : Seconds}
    (htimeout : args.hangTimeout = some timeout) :
    (∀ value, timeout.toNumber = some value → 0 < value) ∧ args.thread = false ∧ isRoot = false := by
  unfold checkModes at h
  rw [htimeout] at h
  split at h
  · cases h
  · split at h
    · cases h
    · dsimp only at h
      split at h
      · cases h
      · split at h
        · cases h
        · rename_i hthread hroot
          refine ⟨?_, Bool.eq_false_iff.mpr hthread, Bool.eq_false_iff.mpr hroot⟩
          split at h
          · split at h
            · cases h
            · rename_i hpos
              intro value' hvalue
              cases hvalue
              exact lt_of_not_ge hpos
          · cases h

/-- A mode check raises an exception of Python's only over a timeout that does not compare. -/
theorem checkModes_foreign (h : checkModes isRoot args = some .foreign) : ¬args.Converts := by
  unfold checkModes at h
  split at h
  · cases h
  · split at h
    · cases h
    · split at h
      · cases h
      · rename_i timeout htimeout
        split at h
        · cases h
        · split at h
          · cases h
          · split at h
            · split at h <;> cases h
            · intro hconverts
              exact Bool.false_ne_true (hconverts.hangTimeout _ htimeout)

theorem checkThreads_eq_ok {given : Option Threads} {threads : ℤ}
    (h : checkThreads given = .ok (some threads)) : 1 ≤ threads := by
  unfold checkThreads at h
  split at h
  · cases h
  · split at h
    · cases h
    · cases h
      omega
  · cases h

/-- A root stage comes out with one worker at most. -/
theorem clamp_root : (args.clamp true).workers ≤ 1 ∧ (args.clamp true).pergpu = false := by
  unfold Args.clamp Args.clamps
  split
  · exact ⟨le_rfl, rfl⟩
  · rename_i h
    rw [Bool.true_and, Bool.or_eq_true, decide_eq_true_eq, not_or, Bool.not_eq_true] at h
    exact ⟨Nat.not_lt.mp h.1, h.2⟩

theorem clamp_name : (args.clamp isRoot).func = args.func := by
  unfold Args.clamp
  split <;> rfl

theorem clamp_converts (h : args.Converts) : (args.clamp isRoot).Converts := by
  unfold Args.clamp
  split
  · exact ⟨h.gpuId, h.gpus, h.cpus, h.hangTimeout⟩
  · exact h

/-- Without a request for GPUs there is no pool. -/
theorem gpuPool_of_not_needs (h : args.needsGpus = false) : gpuPool count args = .ok none := by
  unfold Args.needsGpus at h
  rw [Bool.or_eq_false_iff, Bool.or_eq_false_iff, Option.isSome_eq_false_iff, Option.isSome_eq_false_iff,
    Option.isNone_iff_eq_none, Option.isNone_iff_eq_none] at h
  simp [gpuPool, h.1.1, h.1.2, h.2, converted]

/-- A conversion raises an exception of Python's, and only over an argument that does not convert. -/
theorem converted_error {Argument Value : Type} {convert : Argument → Option Value} {given : Option Argument}
    {refusal : Refusal} (h : converted convert given = .error refusal) :
    refusal = .foreign ∧ ∃ argument, given = some argument ∧ convert argument = none := by
  cases given with
  | none => cases h
  | some argument =>
    rw [converted] at h
    cases hvalue : convert argument with
    | none =>
      rw [hvalue] at h
      cases h
      exact ⟨rfl, argument, rfl, hvalue⟩
    | some value =>
      rw [hvalue] at h
      cases h

theorem gpuPool_error {refusal : Refusal} (h : gpuPool count args = .error refusal) : ¬args.Converts := by
  intro hconverts
  unfold gpuPool at h
  split at h
  · obtain ⟨-, ids, hgiven, hnone⟩ := converted_error h
    have hsome := hconverts.gpus ids hgiven
    rw [hnone] at hsome
    cases hsome
  · split at h
    · cases h
    · obtain ⟨-, given, hgiven, hnone⟩ := converted_error h
      have hsome := hconverts.gpuId given hgiven
      rw [Option.map_eq_none_iff] at hnone
      rw [hnone] at hsome
      cases hsome

theorem addPinned_error {box : Box} {pool : Option (List ℤ)}
    (h : addPinned box args pool = .error .foreign) : ¬args.Converts := by
  intro hconverts
  unfold addPinned at h
  cases hcpus : converted Ids.toInts args.cpus with
  | error refusal =>
    obtain ⟨-, ids, hgiven, hnone⟩ := converted_error hcpus
    have hsome := hconverts.cpus ids hgiven
    rw [hnone] at hsome
    cases hsome
  | ok cpus =>
    rw [hcpus] at h
    change (match checkCpus (box.cpuCount.getD 0) cpus with
      | some reason => throw (.reason reason)
      | none => match checkThreads args.cpuThreads with
        | .error reason => throw (.reason reason)
        | .ok threads => pure (makeJob args pool cpus threads) : Except Refusal Job) = _ at h
    split at h
    · cases h
    · split at h <;> cases h

/-- The job of a stage that is accepted, with the checks its cores and threads have passed. -/
theorem addPinned_ok {box : Box} {pool : Option (List ℤ)} {job : Job}
    (h : addPinned box args pool = .ok job) :
    ∃ cpus threads, checkCpus (box.cpuCount.getD 0) cpus = none ∧
      checkThreads args.cpuThreads = .ok threads ∧ job = makeJob args pool cpus threads := by
  unfold addPinned at h
  cases hcpus : converted Ids.toInts args.cpus with
  | error refusal =>
    rw [hcpus] at h
    cases h
  | ok cpus =>
    rw [hcpus] at h
    change (match checkCpus (box.cpuCount.getD 0) cpus with
      | some reason => throw (.reason reason)
      | none => match checkThreads args.cpuThreads with
        | .error reason => throw (.reason reason)
        | .ok threads => pure (makeJob args pool cpus threads) : Except Refusal Job) = _ at h
    split at h
    · cases h
    · have hcheck := ‹checkCpus _ cpus = none›
      split at h
      · cases h
      · rename_i threads hthreads
        cases h
        exact ⟨cpus, threads, hcheck, hthreads, rfl⟩

end Checks

/-! ## What one call does -/

section Calls

variable {box : Box} {pipe next : Pipe} {args : Args}

/-- The GPUs have been counted right, if at all. -/
def Counted (box : Box) (pipe : Pipe) : Prop := ∀ count, pipe.gpuCount = some count → count = getGpuCount box

theorem counted_countGpus (h : Counted box pipe) : (pipe.countGpus box).gpuCount = some (getGpuCount box) := by
  unfold Pipe.countGpus
  cases hcount : pipe.gpuCount with
  | none => rfl
  | some count =>
    rw [h count hcount]
    rfl

/-- A stage raises and keeps the jobs, or appends one that it has checked. -/
inductive StageStep (box : Box) (pipe : Pipe) (args : Args) : Except Refusal Unit × Pipe → Prop
  | raises {refusal : Refusal} {next : Pipe} (hjobs : next.jobs = pipe.jobs) (hcounted : Counted box next)
      (hforeign : refusal = .foreign → ¬args.Converts) : StageStep box pipe args (.error refusal, next)
  | appends {pool cpus : Option (List ℤ)} {threads : Option ℤ} {next : Pipe}
      (hgpus : checkGpus (getGpuCount box) pool = none)
      (hcpus : checkCpus (box.cpuCount.getD 0) cpus = none)
      (hthreads : checkThreads args.cpuThreads = .ok threads)
      (hjobs : next.jobs = pipe.jobs ++ [makeJob args pool cpus threads])
      (hcounted : Counted box next) : StageStep box pipe args (.ok (), next)

/-- From the GPU pool on, `add` raises and keeps the jobs or appends one well-formed job. -/
theorem addPooled_step {count : ℕ} (hcounted : Counted box pipe)
    (hcount : args.needsGpus = true → count = getGpuCount box) :
    StageStep box pipe args (addPooled box pipe count args) := by
  unfold addPooled
  split
  · rename_i refusal hpool
    exact .raises rfl hcounted fun _ ↦ gpuPool_error hpool
  · rename_i pool hpool
    split
    · exact .raises rfl hcounted fun hforeign ↦ by cases hforeign
    · rename_i hgpus
      have hchecked : checkGpus (getGpuCount box) pool = none := by
        cases hneeds : args.needsGpus with
        | false =>
          rw [gpuPool_of_not_needs hneeds] at hpool
          cases hpool
          rfl
        | true =>
          rw [← hcount hneeds]
          exact hgpus
      dsimp only
      split
      · rename_i refusal hpinned
        refine .raises rfl hcounted fun hforeign ↦ ?_
        rw [hforeign] at hpinned
        exact addPinned_error hpinned
      · rename_i job hpinned
        obtain ⟨cpus, threads, hcpus, hthreads, rfl⟩ := addPinned_ok hpinned
        exact .appends hchecked hcpus hthreads rfl hcounted

/-- A step from a pipe that shares the jobs of another is a step from that one. -/
theorem StageStep.of_jobs {other : Pipe} {result : Except Refusal Unit × Pipe}
    (hstep : StageStep box other args result) (hjobs : other.jobs = pipe.jobs) :
    StageStep box pipe args result := by
  cases hstep with
  | raises hkept hnext hforeign => exact .raises (hkept.trans hjobs) hnext hforeign
  | appends hgpus hcpus hthreads happended hnext =>
    rw [hjobs] at happended
    exact .appends hgpus hcpus hthreads happended hnext

/-- The pool is checked against the GPUs of the box. -/
theorem addStage_step (hcounted : Counted box pipe) : StageStep box pipe args (addStage box pipe args) := by
  unfold addStage
  split
  · have hcount := counted_countGpus hcounted
    have hcounted' : Counted box (pipe.countGpus box) := by
      intro count hsome
      rw [hcount] at hsome
      exact (Option.some.inj hsome).symm
    have hstep : StageStep box (pipe.countGpus box) args
        (addPooled box (pipe.countGpus box) ((pipe.countGpus box).gpuCount.getD 0) args) := by
      apply addPooled_step hcounted'
      intro _
      rw [hcount, Option.getD_some]
    exact hstep.of_jobs rfl
  · apply addPooled_step hcounted
    intro hneeds
    exact absurd hneeds ‹_›

/-- A call raises, or it appends the job of its clamped arguments, which have passed the check of the modes. -/
inductive AddStep (box : Box) (pipe : Pipe) (args : Args) : Except Raised Unit × Pipe → Prop
  | raises {refusal : Refusal} {next : Pipe} (hjobs : next.jobs = pipe.jobs) (hcounted : Counted box next)
      (hforeign : refusal = .foreign → ¬args.Converts) :
      AddStep box pipe args (.error (refusal.raised args.func.name), next)
  | appends {pool cpus : Option (List ℤ)} {threads : Option ℤ} {next : Pipe}
      (hmodes : checkModes pipe.jobs.isEmpty (args.clamp pipe.jobs.isEmpty) = none)
      (hgpus : checkGpus (getGpuCount box) pool = none)
      (hcpus : checkCpus (box.cpuCount.getD 0) cpus = none)
      (hthreads : checkThreads (args.clamp pipe.jobs.isEmpty).cpuThreads = .ok threads)
      (hjobs : next.jobs = pipe.jobs ++ [makeJob (args.clamp pipe.jobs.isEmpty) pool cpus threads])
      (hcounted : Counted box next) : AddStep box pipe args (.ok (), next)

/-- What one call of `add` does. -/
theorem add_step (args : Args) (hcounted : Counted box pipe) : AddStep box pipe args (add box pipe args) := by
  have hstep : ∀ other : Pipe, other.jobs = pipe.jobs → Counted box other →
      StageStep box pipe (args.clamp pipe.jobs.isEmpty) (addStage box other (args.clamp pipe.jobs.isEmpty)) :=
    fun other hjobs hother ↦ (addStage_step hother).of_jobs hjobs
  obtain ⟨warned, hwarned, hjobs, hother⟩ : ∃ warned : Pipe, warned =
      (if args.clamps pipe.jobs.isEmpty then
        { pipe with printed := pipe.printed ++ [.rootClamped args.func.name args.workers args.pergpu] }
      else pipe) ∧ warned.jobs = pipe.jobs ∧ Counted box warned := by
    refine ⟨_, rfl, ?_, ?_⟩
    · split <;> rfl
    · split <;> exact hcounted
  unfold add
  dsimp only
  rw [← hwarned, clamp_name]
  split
  · rename_i refusal hmodes
    refine .raises hjobs hother fun hforeign ↦ ?_
    rw [hforeign] at hmodes
    exact fun hconverts ↦ checkModes_foreign hmodes (clamp_converts hconverts)
  · rename_i hmodes
    have hstage := hstep warned hjobs hother
    generalize addStage box warned (args.clamp pipe.jobs.isEmpty) = result at hstage
    cases hstage with
    | raises hkept hnext hforeign =>
      exact .raises hkept hnext fun hsame hconverts ↦ hforeign hsame (clamp_converts hconverts)
    | appends hgpus hcpus hthreads happended hnext => exact .appends hmodes hgpus hcpus hthreads happended hnext

/-- A job made from checked arguments is well-formed. -/
theorem makeJob_wellFormed {index : ℕ} {isRoot : Bool} {pool cpus : Option (List ℤ)} {threads : Option ℤ}
    (hroot : isRoot = decide (index = 0)) (hmodes : checkModes isRoot (args.clamp isRoot) = none)
    (hgpus : checkGpus (getGpuCount box) pool = none)
    (hcpus : checkCpus (box.cpuCount.getD 0) cpus = none)
    (hthreads : checkThreads (args.clamp isRoot).cpuThreads = .ok threads) :
    WellFormed box index (makeJob (args.clamp isRoot) pool cpus threads) := by
  have hpos : isRoot = false → 0 < index := by
    intro h
    rw [h] at hroot
    exact Nat.pos_of_ne_zero (of_decide_eq_false hroot.symm)
  constructor
  · intro gpus hpool
    have hpool : pool = some gpus := hpool
    rw [hpool] at hgpus
    exact checkPool_eq_none hgpus
  · intro cores hpool
    have hpool : cpus = some cores := hpool
    rw [hpool] at hcpus
    exact checkPool_eq_none hcpus
  · rfl
  · intro count hcount
    have hcount : threads = some count := hcount
    rw [hcount] at hthreads
    exact checkThreads_eq_ok hthreads
  · intro hscavenge
    have hboth : ((args.clamp isRoot).scavenge && pool.isSome) = true := hscavenge
    rw [Bool.and_eq_true] at hboth
    have hmode := checkModes_scavenge hmodes hboth.1
    exact ⟨hboth.2, hmode.1, hpos hmode.2⟩
  · intro value hvalue
    have hnumber : (args.clamp isRoot).hangTimeout.bind Seconds.toNumber = some value := hvalue
    obtain ⟨timeout, htimeout, hvalue⟩ := Option.bind_eq_some_iff.mp hnumber
    have hmode := checkModes_hang hmodes htimeout
    exact ⟨hmode.1 value hvalue, hmode.2.1, hpos hmode.2.2⟩
  · exists (args.clamp isRoot).workers
    constructor
    · cases pool with
      | none => exact (Nat.mul_one _).symm
      | some gpus => rfl
    · intro hindex
      rw [hroot, decide_eq_true hindex]
      exact clamp_root.1
  · intro hindex
    rw [hroot, decide_eq_true hindex]
    exact clamp_root.2

end Calls

/-! ## What every sequence of calls does -/

/-- The invariant of a pipe under construction. -/
structure Built (box : Box) (pipe : Pipe) : Prop where
  counted : Counted box pipe
  wellFormed : ∀ (index : ℕ) (job : Job), pipe.jobs[index]? = some job → WellFormed box index job

theorem built_new (box : Box) : Built box .new where
  counted count h := by
    cases h
  wellFormed index job h := by
    cases h

/-- A call that raises leaves a pipe that is still good to build on, and one that returns does too. -/
theorem add_built {box : Box} {pipe : Pipe} (args : Args) (h : Built box pipe) :
    Built box (add box pipe args).2 := by
  have hroot : pipe.jobs.isEmpty = decide (pipe.jobs.length = 0) := by
    cases pipe.jobs <;> rfl
  have hstep := add_step args h.counted
  generalize add box pipe args = result at hstep
  cases hstep with
  | raises hjobs hcounted =>
    constructor
    · exact hcounted
    · rw [hjobs]
      exact h.wellFormed
  | appends hmodes hgpus hcpus hthreads hjobs hcounted =>
    constructor
    · exact hcounted
    · intro index job hjob
      rw [hjobs] at hjob
      rcases Nat.lt_or_ge index pipe.jobs.length with hold | hnew
      · rw [List.getElem?_append_left hold] at hjob
        exact h.wellFormed index job hjob
      · -- the index of the job that this call has appended
        rw [List.getElem?_append_right hnew, List.getElem?_singleton] at hjob
        split at hjob
        · cases hjob
          have hindex : index = pipe.jobs.length := by omega
          rw [hindex]
          exact makeJob_wellFormed hroot hmodes hgpus hcpus hthreads
        · cases hjob

theorem reachable_built {box : Box} {pipe : Pipe} (h : (machine box).Reachable pipe) : Built box pipe := by
  apply h.invariant (Built box) (built_new box)
  intro state action next hstate hstep
  cases hstep
  exact add_built action hstate

/-- What comes out of a call that raises: a `ValueError` with the name of the stage, or, if some argument does
not convert or compare, what that raises. -/
def Raised.Fair (args : Args) : Raised → Prop
  | .valueError error => error.stage = args.func.name
  | .foreign => ¬args.Converts

/-- Every sequence of calls of `add`, whichever of them raise, leaves jobs that the workers may rely on, and a
call that raises leaves them as they were. -/
theorem added_wellFormed {box : Box} {pipe : Pipe} (h : (machine box).Reachable pipe) :
    (∀ (index : ℕ) (job : Job), pipe.jobs[index]? = some job → WellFormed box index job) ∧
      ∀ (args : Args) (raised : Raised), (add box pipe args).1 = .error raised →
        raised.Fair args ∧ (add box pipe args).2.jobs = pipe.jobs := by
  have hbuilt := reachable_built h
  constructor
  · exact hbuilt.wellFormed
  · intro args raised hraised
    have hstep := add_step args hbuilt.counted
    generalize add box pipe args = result at hstep hraised ⊢
    cases hstep with
    | @raises refusal next hjobs _ hforeign =>
      cases hraised
      refine ⟨?_, hjobs⟩
      cases refusal with
      | reason => rfl
      | foreign => exact hforeign rfl
    | appends => cases hraised

def twoGpus : Box where
  torch := .devices 2
  smi := .fails
  visible := none
  cpuCount := some 4

/-- A source that asks for three workers, and a GPU stage with two workers for each GPU. -/
def twoStages : List Args :=
  [{ func := ⟨"source", false⟩, workers := 3 },
    { func := ⟨"model", true⟩, workers := 2, gpus := some (.entries [.int 0, .int 1]),
      cpus := some (.entries [.int 2, .int 3]), scavenge := true, hangTimeout := some (.number 60) }]

def onMissingGpu : Args := { func := ⟨"encode", false⟩, gpuId := some (.int 2) }

def onNamedGpu : Args := { func := ⟨"encode", false⟩, gpus := some (.entries [.other "'cuda:0'"]) }

def built (box : Box) (calls : List Args) : Pipe := calls.foldl (fun pipe args ↦ (add box pipe args).2) .new

/-- Two stages on two GPUs, and two calls that raise: for a GPU that is not there, and for one given by name. -/
theorem added_wellFormed_twoStages :
    (∃ job, (built twoGpus twoStages).jobs[1]? = some job ∧ job.numWorkers = 4 ∧ WellFormed twoGpus 1 job) ∧
      (add twoGpus (built twoGpus twoStages) onMissingGpu).2.jobs = (built twoGpus twoStages).jobs ∧
      Raised.foreign.Fair onNamedGpu := by
  have hreachable : (machine twoGpus).Reachable (built twoGpus twoStages) := ⟨twoStages, rfl⟩
  have h := added_wellFormed hreachable
  refine ⟨⟨_, rfl, rfl, h.1 1 _ rfl⟩, ?_, ?_⟩
  · exact (h.2 onMissingGpu (.valueError ⟨"encode", .badGpus [2] 2⟩) rfl).2
  · exact (h.2 onNamedGpu .foreign rfl).1

end GpuPipe.Config
