import GpuPipe.Library.Hex
import GpuPipe.Library.Machine
import GpuPipe.Library.Numerals
import GpuPipe.Lifecycle.Add
import GpuPipe.Lifecycle.Affinity

/-!
# Workers and their identities

`start` spawns the workers of each stage with their own arguments and registers them under an id;
`_restart_worker` spawns one again from what is registered. An id names the stage and the number of a
worker, and `_collect_stats` reads the stage off it. The queues and sync objects of a stage are in
`Lifecycle.Start`, the scavenge slots in `Scavenge`.
-/

namespace GpuPipe.Spawn

open Config (Job Func)

/-! ## Worker ids -/

def intText (value : ℤ) : Bytes := (if value < 0 then ascii "-" else []) ++ decimal.text value.natAbs

/-- The suffix `_gpu_{gpu_id}` of a worker that has a GPU. -/
def gpuSuffix (gpuId : Option ℤ) : Bytes := gpuId.elim [] fun gpu ↦ ascii "_gpu_" ++ intText gpu

/-- `stage_{i}`, what kind of worker it is, a number, and a suffix. -/
def labelled (label : Bytes) (stage number : ℕ) (suffix : Bytes) : Bytes :=
  ascii "stage_" ++ (decimal.text stage ++ (label ++ (decimal.text number ++ suffix)))

def workerId (stage workerIdx : ℕ) (gpuId : Option ℤ) : Bytes :=
  labelled (ascii "_worker_") stage workerIdx (gpuSuffix gpuId)

def threadedWorkerId (stage workerIdx : ℕ) (gpuId : Option ℤ) : Bytes :=
  labelled (ascii "_threaded_worker_") stage workerIdx (gpuSuffix gpuId)

def threadsId (stage numThreads : ℕ) : Bytes :=
  labelled (ascii "_threaded_") stage numThreads (ascii "threads")

/-- `re.match(r"stage_(\d+)", worker_id)` and its number. -/
def stageOf (id : Bytes) : Option ℕ :=
  if (ascii "stage_").isPrefixOf id then
    let digits := (id.drop (ascii "stage_").length).takeWhile decimal.isDigit
    if digits = [] then none else some (decimal.read digits)
  else none

/-! ## The workers of a start -/

/-- The function that a worker process runs. -/
inductive Target
  | workerRun
  | threadedWorkerRun
  deriving DecidableEq

/-- What a worker is spawned with and registered under, apart from the objects of its edge. -/
structure Worker where
  target : Target
  stageIdx : ℕ
  stageName : String
  func : Func
  workerId : Bytes
  gpuId : Option ℤ
  numThreads : ℕ
  cpuAffinity : Option (List ℤ)
  cpuThreads : Option ℤ
  batchSize : ℕ
  drain : Bool
  outChunk : ℕ
  outChunkMs : ℚ
  /-- It has `scavenge_hold` and `scavenge_ipc`, and a slot. -/
  scavenged : Bool
  /-- It has `scavenge_park`. -/
  parks : Bool
  /-- It has `busy_since`, which is watched with this timeout. -/
  hangTimeout : Option ℚ
  deriving DecidableEq

/-- `job.get("gpus")`, where an empty pool counts as none. -/
def pool (job : Job) : List ℤ := job.gpus.getD []

/-- `gpu_pool[worker_idx % len(gpu_pool)] if gpu_pool else None` -/
def gpuOf (gpus : List ℤ) (workerIdx : ℕ) : Option ℤ := gpus[workerIdx % gpus.length]?

section Workers

variable (outChunk stage : ℕ) (job : Job)

/-- What the spawns of a stage share. -/
def common (target : Target) (workerId : Bytes) (cpuAffinity : Option (List ℤ)) : Worker where
  target := target
  stageIdx := stage
  stageName := job.name
  func := job.func
  workerId := workerId
  gpuId := none
  numThreads := 1
  cpuAffinity := cpuAffinity
  cpuThreads := job.cpuThreads
  batchSize := job.batch
  drain := job.drain
  outChunk := outChunk
  outChunkMs := job.chunkMs
  scavenged := false
  parks := false
  hangTimeout := none

/-- One process per GPU worker of a threaded stage. -/
def threadedWorker (workerIdx : ℕ) : Worker :=
  { common outChunk stage job .threadedWorkerRun
      (threadedWorkerId stage workerIdx (gpuOf (pool job) workerIdx))
      (Lifecycle.cpuChunk job.cpus workerIdx job.numWorkers) with
    gpuId := gpuOf (pool job) workerIdx }

/-- One process that runs all the threads. -/
def threadsWorker : Worker :=
  { common outChunk stage job .threadedWorkerRun (threadsId stage job.numWorkers) job.cpus with
    numThreads := job.numWorkers }

def processWorker (workerIdx : ℕ) : Worker :=
  let gpuId := gpuOf (pool job) workerIdx
  let scavenged := job.scavenge && gpuId.isSome
  { common outChunk stage job .workerRun (workerId stage workerIdx gpuId)
      (Lifecycle.cpuChunk job.cpus workerIdx job.numWorkers) with
    gpuId := gpuId
    scavenged := scavenged
    parks := scavenged && job.func.hasOnPark
    hangTimeout := job.hangTimeout.filter fun timeout ↦ timeout ≠ 0 }

/-- The spawns of one stage, in their order. -/
def stageWorkers : List Worker :=
  if job.thread then
    if pool job = [] then [threadsWorker outChunk stage job]
    else (List.range job.numWorkers).map (threadedWorker outChunk stage job)
  else (List.range job.numWorkers).map (processWorker outChunk stage job)

end Workers

/-- The spawns of the stages from stage `i` on. -/
def workersFrom (outChunk : ℕ → ℕ) (i : ℕ) : List Job → List Worker
  | [] => []
  | job :: rest => stageWorkers (outChunk i) i job ++ workersFrom outChunk (i + 1) rest

/-- `self.jobs[0]["drain"] = False` -/
def rootStops : List Job → List Job
  | [] => []
  | job :: rest => { job with drain := false } :: rest

/-- The spawns of `start`, in their order. -/
def startWorkers (jobs : List Job) : List Worker :=
  workersFrom (Start.chunkEff (jobs.map Job.edge)) 0 (rootStops jobs)

/-! ## What an id says -/

section Ids

variable {label suffix suffix' : Bytes} {stage number number' : ℕ}

/-- The text goes on with no digit. -/
def NoDigit (text : Bytes) : Prop := ∀ byte ∈ text.head?, decimal.isDigit byte = false

instance (text : Bytes) : Decidable (NoDigit text) :=
  decidable_of_iff (text.head?.all (fun byte ↦ !decimal.isDigit byte) = true) (by simp [NoDigit, Option.all_eq_true])

theorem noDigit_append {first second : Bytes} (h : NoDigit first) (hne : first ≠ []) :
    NoDigit (first ++ second) := by
  intro byte hbyte
  apply h
  rwa [List.head?_append_of_ne_nil first hne] at hbyte

theorem noDigit_gpuSuffix (gpuId : Option ℤ) : NoDigit (gpuSuffix gpuId) := by
  cases gpuId with
  | none =>
    intro byte hbyte
    cases hbyte
  | some gpu =>
    apply noDigit_append
    · decide
    · decide

/-- The stage is read off an id whose label is set off by no digit. -/
theorem stageOf_labelled (hlabel : NoDigit label) (hne : label ≠ []) :
    stageOf (labelled label stage number suffix) = some stage := by
  have hprefix : (ascii "stage_").isPrefixOf (labelled label stage number suffix) = true := by
    rw [List.isPrefixOf_iff_prefix]
    exact List.prefix_append _ _
  have hdrop : (labelled label stage number suffix).drop (ascii "stage_").length =
      decimal.text stage ++ (label ++ (decimal.text number ++ suffix)) := List.drop_left
  rw [stageOf, if_pos hprefix, hdrop, decimal.takeWhile_text (noDigit_append hlabel hne),
    if_neg decimal.text_ne_nil, decimal.read_text]

/-- Within one stage and one kind of worker, the number is read off the id. -/
theorem labelled_inj_number (hsuffix : NoDigit suffix) (hsuffix' : NoDigit suffix')
    (h : labelled label stage number suffix = labelled label stage number' suffix') : number = number' := by
  rw [labelled, labelled, List.append_cancel_left_eq, List.append_cancel_left_eq,
    List.append_cancel_left_eq] at h
  exact (decimal.text_append_inj hsuffix hsuffix' h).1

end Ids

/-! ## The workers of one stage -/

section Stages

variable {outChunk stage : ℕ} {job : Job} {worker : Worker}

theorem stageWorkers_cases (h : worker ∈ stageWorkers outChunk stage job) :
    worker = threadsWorker outChunk stage job ∨
      (∃ workerIdx < job.numWorkers, worker = threadedWorker outChunk stage job workerIdx) ∨
      ∃ workerIdx < job.numWorkers, worker = processWorker outChunk stage job workerIdx := by
  unfold stageWorkers at h
  split at h
  · split at h
    · exact .inl (List.mem_singleton.mp h)
    · obtain ⟨workerIdx, hidx, hworker⟩ := List.mem_map.mp h
      exact .inr (.inl ⟨workerIdx, List.mem_range.mp hidx, hworker.symm⟩)
  · obtain ⟨workerIdx, hidx, hworker⟩ := List.mem_map.mp h
    exact .inr (.inr ⟨workerIdx, List.mem_range.mp hidx, hworker.symm⟩)

theorem stageIdx_of_mem (h : worker ∈ stageWorkers outChunk stage job) : worker.stageIdx = stage := by
  rcases stageWorkers_cases h with rfl | ⟨_, _, rfl⟩ | ⟨_, _, rfl⟩ <;> rfl

/-- The stage that the statistics read off a worker's id is the worker's own. -/
theorem stageOf_of_mem (h : worker ∈ stageWorkers outChunk stage job) : stageOf worker.workerId = some stage := by
  rcases stageWorkers_cases h with rfl | ⟨_, _, rfl⟩ | ⟨_, _, rfl⟩
  · exact stageOf_labelled (by decide) (by decide)
  · exact stageOf_labelled (by decide) (by decide)
  · exact stageOf_labelled (by decide) (by decide)

/-- The workers of a threaded stage with GPUs have different ids. -/
theorem threadedWorkerId_injective (stage : ℕ) (gpus : List ℤ) :
    Function.Injective fun workerIdx ↦ threadedWorkerId stage workerIdx (gpuOf gpus workerIdx) := by
  intro first second h
  exact labelled_inj_number (noDigit_gpuSuffix _) (noDigit_gpuSuffix _) h

/-- So do those of a stage of processes. -/
theorem workerId_injective (stage : ℕ) (gpus : List ℤ) :
    Function.Injective fun workerIdx ↦ workerId stage workerIdx (gpuOf gpus workerIdx) := by
  intro first second h
  exact labelled_inj_number (noDigit_gpuSuffix _) (noDigit_gpuSuffix _) h

/-- The workers of a stage have different ids. -/
theorem stageWorkers_nodup : ((stageWorkers outChunk stage job).map Worker.workerId).Nodup := by
  unfold stageWorkers
  split
  · split
    · exact List.nodup_singleton _
    · rw [List.map_map]
      exact List.nodup_range.map (threadedWorkerId_injective stage (pool job))
  · rw [List.map_map]
    exact List.nodup_range.map (workerId_injective stage (pool job))

theorem pool_eq_nil (hgpus : job.gpus ≠ some []) : pool job = [] ↔ job.gpus.isSome = false := by
  unfold pool
  cases hcase : job.gpus with
  | none => simp
  | some gpus =>
    rw [hcase] at hgpus
    have hne : gpus ≠ [] := fun h ↦ hgpus (congrArg some h)
    simpa using hne

/-- As many processes as `stage_worker_counts` says. -/
theorem stageWorkers_length (hgpus : job.gpus ≠ some []) :
    (stageWorkers outChunk stage job).length =
      if job.thread && !job.gpus.isSome then 1 else job.numWorkers := by
  have hpool := pool_eq_nil hgpus
  unfold stageWorkers
  split
  · rename_i hthread
    split
    · rename_i hempty
      rw [hthread, hpool.mp hempty]
      rfl
    · rename_i hsome
      rw [hpool, Bool.not_eq_false] at hsome
      rw [hsome, List.length_map, List.length_range, Bool.not_true, Bool.and_false]
      rfl
  · rename_i hthread
    rw [Bool.not_eq_true] at hthread
    rw [hthread, List.length_map, List.length_range, Bool.false_and]
    rfl

/-- The GPUs are dealt in rounds: the pool, once for each worker per GPU. -/
theorem range_gpuOf (gpus : List ℤ) (workers : ℕ) :
    (List.range (workers * gpus.length)).map (gpuOf gpus) = (List.replicate workers (gpus.map some)).flatten := by
  induction workers with
  | zero => simp
  | succ workers ih =>
    have hround : ((List.range gpus.length).map fun position ↦ gpuOf gpus (workers * gpus.length + position)) =
        gpus.map some := by
      apply List.ext_getElem
      · simp
      · intro position hleft hright
        have hlt : position < gpus.length := by simpa using hleft
        rw [List.getElem_map, List.getElem_map, List.getElem_range, gpuOf, Nat.mul_add_mod', Nat.mod_eq_of_lt hlt,
          List.getElem?_eq_getElem hlt]
    calc
      _ = (List.range (workers * gpus.length)).map (gpuOf gpus) ++
          (List.range gpus.length).map fun position ↦ gpuOf gpus (workers * gpus.length + position) := by
        rw [Nat.succ_mul, List.range_add, List.map_append, List.map_map]
        rfl
      _ = _ := by
        rw [ih, hround, List.replicate_succ', List.flatten_append, List.flatten_singleton]

/-- Each GPU of the pool is given to as many workers as were asked for per GPU. -/
theorem stageWorkers_gpus {gpus : List ℤ} {workers : ℕ} (hpool : job.gpus = some gpus) (hne : gpus ≠ [])
    (hworkers : job.numWorkers = workers * gpus.length) :
    (stageWorkers outChunk stage job).map Worker.gpuId = (List.replicate workers (gpus.map some)).flatten := by
  have hgpus : pool job = gpus := by rw [pool, hpool, Option.getD_some]
  rw [← range_gpuOf, ← hworkers, ← hgpus]
  unfold stageWorkers
  split
  · rw [if_neg (hgpus ▸ hne), List.map_map]
    rfl
  · rw [List.map_map]
    rfl

theorem stageWorkers_no_gpus (hpool : job.gpus = none) (h : worker ∈ stageWorkers outChunk stage job) :
    worker.gpuId = none := by
  have hnone : ∀ workerIdx, gpuOf (pool job) workerIdx = none := by
    intro workerIdx
    rw [pool, hpool]
    rfl
  rcases stageWorkers_cases h with rfl | ⟨workerIdx, _, rfl⟩ | ⟨workerIdx, _, rfl⟩
  · rfl
  · exact hnone workerIdx
  · exact hnone workerIdx

/-- The cores of a stage are cut among its processes. -/
theorem stageWorkers_affinities (hgpus : job.gpus ≠ some []) :
    (stageWorkers outChunk stage job).map Worker.cpuAffinity =
      Lifecycle.affinities job.thread job.gpus.isSome job.cpus job.numWorkers := by
  have hpool := pool_eq_nil hgpus
  unfold stageWorkers Lifecycle.affinities
  split
  · rename_i hthread
    split
    · rename_i hempty
      rw [hthread, hpool.mp hempty]
      rfl
    · rename_i hsome
      rw [hpool, Bool.not_eq_false] at hsome
      rw [hthread, hsome, List.map_map]
      rfl
  · rename_i hthread
    rw [Bool.not_eq_true] at hthread
    rw [hthread, List.map_map]
    rfl

end Stages

/-! ## The workers of all stages -/

section Starts

variable {outChunk : ℕ → ℕ} {jobs : List Job} {worker : Worker}

theorem le_stageIdx_of_mem {i : ℕ} (h : worker ∈ workersFrom outChunk i jobs) : i ≤ worker.stageIdx := by
  induction jobs generalizing i with
  | nil => cases h
  | cons job rest ih =>
    rcases List.mem_append.mp h with hstage | hrest
    · exact (stageIdx_of_mem hstage).ge
    · exact (Nat.le_succ i).trans (ih hrest)

theorem stageIdx_lt_of_mem {i : ℕ} (h : worker ∈ workersFrom outChunk i jobs) :
    worker.stageIdx < i + jobs.length := by
  induction jobs generalizing i with
  | nil => cases h
  | cons job rest ih =>
    rw [List.length_cons]
    rcases List.mem_append.mp h with hstage | hrest
    · rw [stageIdx_of_mem hstage]
      omega
    · have hlt := ih hrest
      omega

theorem stageOf_of_mem_from {i : ℕ} (h : worker ∈ workersFrom outChunk i jobs) :
    stageOf worker.workerId = some worker.stageIdx := by
  induction jobs generalizing i with
  | nil => cases h
  | cons job rest ih =>
    rcases List.mem_append.mp h with hstage | hrest
    · rw [stageOf_of_mem hstage, stageIdx_of_mem hstage]
    · exact ih hrest

/-- No id is given twice, neither in a stage nor in two. -/
theorem workersFrom_nodup (i : ℕ) : ((workersFrom outChunk i jobs).map Worker.workerId).Nodup := by
  induction jobs generalizing i with
  | nil => exact List.nodup_nil
  | cons job rest ih =>
    rw [workersFrom, List.map_append]
    apply List.Nodup.append stageWorkers_nodup (ih (i + 1))
    -- ids of two stages name different stages
    intro id hstage hrest
    obtain ⟨first, hfirst, rfl⟩ := List.mem_map.mp hstage
    obtain ⟨second, hsecond, heq⟩ := List.mem_map.mp hrest
    have hlt := le_stageIdx_of_mem hsecond
    have hsame : stageOf second.workerId = stageOf first.workerId := congrArg stageOf heq
    rw [stageOf_of_mem_from hsecond, stageOf_of_mem hfirst, Option.some.injEq] at hsame
    omega

/-- The workers of stage `i + k` are those that its job gives. -/
theorem workersFrom_filter (i k : ℕ) :
    (workersFrom outChunk i jobs).filter (fun worker ↦ worker.stageIdx = i + k) =
      jobs[k]?.elim [] (stageWorkers (outChunk (i + k)) (i + k)) := by
  induction jobs generalizing i k with
  | nil => rfl
  | cons job rest ih =>
    rw [workersFrom, List.filter_append]
    cases k with
    | zero =>
      have hall : (stageWorkers (outChunk i) i job).filter (fun worker ↦ worker.stageIdx = i + 0) =
          stageWorkers (outChunk i) i job := by
        rw [List.filter_eq_self]
        intro worker hworker
        exact decide_eq_true (stageIdx_of_mem hworker)
      have hnone : (workersFrom outChunk (i + 1) rest).filter (fun worker ↦ worker.stageIdx = i + 0) = [] := by
        rw [List.filter_eq_nil_iff]
        intro worker hworker
        have hle := le_stageIdx_of_mem hworker
        simp
        omega
      rw [hall, hnone, List.append_nil]
      rfl
    | succ k =>
      have hnone : (stageWorkers (outChunk i) i job).filter (fun worker ↦ worker.stageIdx = i + (k + 1)) = [] := by
        rw [List.filter_eq_nil_iff]
        intro worker hworker
        have heq := stageIdx_of_mem hworker
        simp
        omega
      rw [hnone, List.nil_append, List.getElem?_cons_succ, ← Nat.add_assoc, Nat.add_right_comm]
      exact ih (i + 1) k

theorem rootStops_getElem? {i : ℕ} {job : Job} (h : jobs[i]? = some job) :
    ∃ drain, (rootStops jobs)[i]? = some { job with drain := drain } := by
  cases jobs with
  | nil => cases h
  | cons first rest =>
    cases i with
    | zero =>
      cases h
      exact ⟨false, rfl⟩
    | succ i => exact ⟨job.drain, h⟩

/-- The workers of a stage are what its own job spawns, whatever the other stages are. -/
theorem startWorkers_filter {i : ℕ} {job : Job} (hjob : jobs[i]? = some job) :
    ∃ outChunk drain, (startWorkers jobs).filter (fun worker ↦ worker.stageIdx = i) =
      stageWorkers outChunk i { job with drain := drain } := by
  obtain ⟨drain, hroot⟩ := rootStops_getElem? hjob
  exists Start.chunkEff (jobs.map Job.edge) i, drain
  calc
    _ = (rootStops jobs)[i]?.elim [] (stageWorkers (Start.chunkEff (jobs.map Job.edge) i) i) := by
      have hfilter := @workersFrom_filter (Start.chunkEff (jobs.map Job.edge)) (rootStops jobs) 0 i
      rwa [Nat.zero_add] at hfilter
    _ = _ := by
      rw [hroot]
      rfl

/-- All workers of a start have different ids. -/
theorem startWorkers_nodup (jobs : List Job) : ((startWorkers jobs).map Worker.workerId).Nodup :=
  workersFrom_nodup 0

theorem stageIdx_startWorkers (h : worker ∈ startWorkers jobs) : worker.stageIdx < jobs.length := by
  have hlength : (rootStops jobs).length = jobs.length := by
    cases jobs <;> rfl
  have hlt := stageIdx_lt_of_mem h
  rwa [hlength, Nat.zero_add] at hlt

theorem stageOf_startWorkers (h : worker ∈ startWorkers jobs) : stageOf worker.workerId = some worker.stageIdx :=
  stageOf_of_mem_from h

/-- The ids of all workers of a start are different, and each names the stage of its worker. -/
theorem startWorkers_ids (jobs : List Job) :
    ((startWorkers jobs).map Worker.workerId).Nodup ∧
      ∀ worker ∈ startWorkers jobs, stageOf worker.workerId = some worker.stageIdx := by
  constructor
  · exact startWorkers_nodup jobs
  · intro worker hworker
    exact stageOf_startWorkers hworker

/-- A stage of well-formed jobs has as many processes as its completion counts, every GPU of its pool has
its number of workers, and its cores are cut as `_cpu_chunk` says. -/
theorem startWorkers_of_stage {box : Config.Box} {i : ℕ} {job : Job}
    (hwellFormed : ∀ (index : ℕ) (job : Job), jobs[index]? = some job → Config.WellFormed box index job)
    (hjob : jobs[i]? = some job) :
    ∃ own, own = (startWorkers jobs).filter (fun worker ↦ worker.stageIdx = i) ∧
      own.length = Start.workerCount (jobs.map Job.edge) i ∧
      own.map Worker.cpuAffinity = Lifecycle.affinities job.thread job.gpus.isSome job.cpus job.numWorkers ∧
      (∀ gpus, job.gpus = some gpus → ∃ workers, job.numWorkers = workers * gpus.length ∧
        own.map Worker.gpuId = (List.replicate workers (gpus.map some)).flatten) ∧
      (job.gpus = none → ∀ worker ∈ own, worker.gpuId = none) := by
  have hwf := hwellFormed i job hjob
  have hgpus : job.gpus ≠ some [] := fun h ↦ (hwf.gpus [] h).1 rfl
  obtain ⟨outChunk, drain, hown⟩ := startWorkers_filter hjob
  refine ⟨_, hown.symm, ?_, ?_, ?_, ?_⟩
  · have hlength := @stageWorkers_length outChunk i { job with drain := drain } hgpus
    rw [hlength, Start.workerCount, List.getElem?_map, hjob]
    rfl
  · exact stageWorkers_affinities hgpus
  · intro gpus hpool
    obtain ⟨workers, hworkers, _⟩ := hwf.workers
    rw [hpool] at hworkers
    exact ⟨workers, hworkers, stageWorkers_gpus hpool (hwf.gpus gpus hpool).1 hworkers⟩
  · intro hpool worker hworker
    exact stageWorkers_no_gpus (by exact hpool) hworker

/-- Two workers on each of two GPUs. -/
theorem startWorkers_of_stage_twoStages :
    ∃ own, own = (startWorkers (Config.built Config.twoGpus Config.twoStages).jobs).filter
        (fun worker ↦ worker.stageIdx = 1) ∧
      own.length = 4 ∧ own.map Worker.gpuId = [some 0, some 1, some 0, some 1] := by
  have hbuilt : Config.Built Config.twoGpus (Config.built Config.twoGpus Config.twoStages) :=
    Config.reachable_built ⟨Config.twoStages, rfl⟩
  obtain ⟨own, hown, hlength, -, hgpus, -⟩ := @startWorkers_of_stage _ _ 1 _ hbuilt.wellFormed rfl
  obtain ⟨workers, hworkers, hgpuIds⟩ := hgpus [0, 1] rfl
  have htwo : workers = 2 := by
    have hfour : 4 = workers * 2 := hworkers
    omega
  rw [htwo] at hgpuIds
  exact ⟨own, hown, hlength, hgpuIds⟩

def twoWorkers : List Job :=
  (Config.built Config.twoGpus [{ func := ⟨"source", false⟩ }, { func := ⟨"double", false⟩, workers := 2 }]).jobs

example : (startWorkers twoWorkers).map Worker.workerId =
    [ascii "stage_0_worker_0", ascii "stage_1_worker_0", ascii "stage_1_worker_1"] := by
  decide

end Starts

end GpuPipe.Spawn
