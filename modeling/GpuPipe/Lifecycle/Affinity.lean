import Mathlib.Data.Int.CardIntervalMod
import Mathlib.Data.List.FinRange

/-!
# The cores of a worker

`cpus=` gives a stage a pool of cores. `_cpu_chunk` cuts it into one slice for each worker process, or
deals single cores round when there are more workers than cores.
-/

namespace GpuPipe.Lifecycle

variable {Core : Type*}

def cpuStart (n numWorkers workerIdx : ℕ) : ℕ :=
  workerIdx * (n / numWorkers) + min workerIdx (n % numWorkers)

def cpuSize (n numWorkers workerIdx : ℕ) : ℕ :=
  n / numWorkers + if workerIdx < n % numWorkers then 1 else 0

def cpuChunk (cpuPool : Option (List Core)) (workerIdx numWorkers : ℕ) : Option (List Core) :=
  match cpuPool with
  | none => none
  | some pool =>
    if hpool : pool = [] then none
    else
      let n := pool.length
      if n ≤ numWorkers then
        some [pool.get ⟨workerIdx % n, Nat.mod_lt _ (List.length_pos_of_ne_nil hpool)⟩]
      else some ((pool.drop (cpuStart n numWorkers workerIdx)).take (cpuSize n numWorkers workerIdx))

/-- What the workers of a stage are given, in their order. -/
def cpuChunks (cpuPool : Option (List Core)) (numWorkers : ℕ) : List (Option (List Core)) :=
  (List.range numWorkers).map fun workerIdx ↦ cpuChunk cpuPool workerIdx numWorkers

/-- `cpu_affinity` of the processes a stage is started with. A threaded stage without GPUs is one
process, which has the pool to itself. -/
def affinities (thread gpus : Bool) (cpus : Option (List Core)) (numWorkers : ℕ) :
    List (Option (List Core)) :=
  if thread && !gpus then [cpus] else cpuChunks cpus numWorkers

/-- How many workers are given the core at this position of a pool of `n`. -/
def workersAt (n numWorkers : ℕ) (position : Fin n) : ℕ :=
  Nat.count (fun workerIdx ↦ cpuChunk (some (List.finRange n)) workerIdx numWorkers = some [position])
    numWorkers

section Slices

variable {n numWorkers : ℕ} {pool : List Core}

@[simp] theorem cpuStart_zero : cpuStart n numWorkers 0 = 0 := by
  simp [cpuStart]

/-- The next slice starts where this one ends. -/
theorem cpuStart_succ (workerIdx : ℕ) :
    cpuStart n numWorkers (workerIdx + 1) =
      cpuStart n numWorkers workerIdx + cpuSize n numWorkers workerIdx := by
  rw [cpuStart, cpuStart, cpuSize, Nat.succ_mul]
  split <;> omega

/-- The slice after the last worker's would start at the end of the pool. -/
theorem cpuStart_numWorkers (h : 0 < numWorkers) : cpuStart n numWorkers numWorkers = n := by
  have hrem : n % numWorkers < numWorkers := Nat.mod_lt n h
  calc
    cpuStart n numWorkers numWorkers = numWorkers * (n / numWorkers) + n % numWorkers := by
      rw [cpuStart, Nat.min_eq_right hrem.le]
    _ = n := Nat.div_add_mod n numWorkers

theorem cpuStart_mono {first second : ℕ} (h : first ≤ second) :
    cpuStart n numWorkers first ≤ cpuStart n numWorkers second := by
  have hmul : first * (n / numWorkers) ≤ second * (n / numWorkers) := Nat.mul_le_mul_right _ h
  rw [cpuStart, cpuStart]
  omega

/-- Every slice ends within the pool. -/
theorem cpuStart_add_cpuSize_le {workerIdx : ℕ} (h : workerIdx < numWorkers) :
    cpuStart n numWorkers workerIdx + cpuSize n numWorkers workerIdx ≤ n := by
  calc
    cpuStart n numWorkers workerIdx + cpuSize n numWorkers workerIdx =
        cpuStart n numWorkers (workerIdx + 1) := (cpuStart_succ workerIdx).symm
    _ ≤ cpuStart n numWorkers numWorkers := cpuStart_mono h
    _ = n := cpuStart_numWorkers (Nat.zero_lt_of_lt h)

/-- The slices of the first workers, one after the other, are the start of the pool. -/
theorem flatten_slices (count : ℕ) :
    ((List.range count).map fun workerIdx ↦
      (pool.drop (cpuStart n numWorkers workerIdx)).take (cpuSize n numWorkers workerIdx)).flatten =
      pool.take (cpuStart n numWorkers count) := by
  induction count with
  | zero => simp
  | succ count ih =>
    rw [List.range_succ, List.map_append, List.flatten_append, ih, cpuStart_succ, List.take_add]
    simp

theorem length_slice {workerIdx : ℕ} (h : workerIdx < numWorkers) :
    ((pool.drop (cpuStart pool.length numWorkers workerIdx)).take
      (cpuSize pool.length numWorkers workerIdx)).length = cpuSize pool.length numWorkers workerIdx := by
  have hend := cpuStart_add_cpuSize_le (n := pool.length) h
  rw [List.length_take, List.length_drop]
  omega

theorem cpuSize_pos (h : numWorkers ≤ n) (hworkers : 0 < numWorkers) (workerIdx : ℕ) :
    0 < cpuSize n numWorkers workerIdx :=
  Nat.add_pos_left (Nat.div_pos h hworkers) _

/-- Two slices differ by one core at most. -/
theorem cpuSize_le_succ (first second : ℕ) :
    cpuSize n numWorkers first ≤ cpuSize n numWorkers second + 1 := by
  rw [cpuSize, cpuSize]
  split <;> split <;> omega

/-- With more cores than workers, a worker gets a slice. -/
theorem cpuChunk_slice (h : numWorkers < pool.length) (workerIdx : ℕ) :
    cpuChunk (some pool) workerIdx numWorkers =
      some ((pool.drop (cpuStart pool.length numWorkers workerIdx)).take
        (cpuSize pool.length numWorkers workerIdx)) := by
  have hpool : pool ≠ [] := List.ne_nil_of_length_pos (Nat.zero_lt_of_lt h)
  simp [cpuChunk, hpool, Nat.not_le.mpr h]

end Slices

section Cores

variable {numWorkers : ℕ} {pool : List Core}

/-- With no more cores than workers, a worker gets one core, in turn. -/
theorem cpuChunk_core (hpool : pool ≠ []) (h : pool.length ≤ numWorkers) (workerIdx : ℕ) :
    cpuChunk (some pool) workerIdx numWorkers =
      some [pool.get ⟨workerIdx % pool.length, Nat.mod_lt _ (List.length_pos_of_ne_nil hpool)⟩] := by
  simp [cpuChunk, hpool, h]

theorem cpuChunk_position {n : ℕ} (hpos : 0 < n) (h : n ≤ numWorkers) (workerIdx : ℕ) :
    cpuChunk (some (List.finRange n)) workerIdx numWorkers =
      some [⟨workerIdx % n, Nat.mod_lt _ hpos⟩] := by
  have hpool : List.finRange n ≠ [] := List.ne_nil_of_length_pos (by simpa using hpos)
  rw [cpuChunk_core hpool (by simpa using h)]
  simp

/-- The workers are dealt out evenly. -/
theorem workersAt_eq {n : ℕ} (h : n ≤ numWorkers) (position : Fin n) :
    workersAt n numWorkers position =
      numWorkers / n + if position < numWorkers % n then 1 else 0 := by
  have hpos : 0 < n := Nat.zero_lt_of_lt position.isLt
  have hgiven : ∀ workerIdx, cpuChunk (some (List.finRange n)) workerIdx numWorkers = some [position] ↔
      workerIdx ≡ position [MOD n] := by
    intro workerIdx
    rw [cpuChunk_position hpos h, Nat.ModEq, Nat.mod_eq_of_lt position.isLt]
    simp [Fin.ext_iff]
  calc
    workersAt n numWorkers position = Nat.count (· ≡ position [MOD n]) numWorkers := by
      simp only [workersAt, hgiven]
    _ = numWorkers / n + if position % n < numWorkers % n then 1 else 0 :=
      Nat.count_modEq_card numWorkers hpos position
    _ = numWorkers / n + if position < numWorkers % n then 1 else 0 := by
      rw [Nat.mod_eq_of_lt position.isLt]

end Cores

section Partition

variable {pool : List Core} {numWorkers : ℕ}

/-- With fewer workers than cores the slices are the pool, cut into pieces of nearly the same size. -/
theorem cpuChunks_slices (hworkers : 1 ≤ numWorkers) (h : numWorkers < pool.length) :
    ∃ slices : List (List Core),
      cpuChunks (some pool) numWorkers = slices.map some ∧
      slices.flatten = pool ∧ (∀ slice ∈ slices, slice ≠ []) ∧
      ∀ first ∈ slices, ∀ second ∈ slices, first.length ≤ second.length + 1 := by
  let slice (workerIdx : ℕ) := (pool.drop (cpuStart pool.length numWorkers workerIdx)).take
    (cpuSize pool.length numWorkers workerIdx)
  have hmem : ∀ piece ∈ (List.range numWorkers).map slice, ∃ workerIdx,
      piece.length = cpuSize pool.length numWorkers workerIdx := by
    intro piece hpiece
    obtain ⟨workerIdx, hidx, rfl⟩ := List.mem_map.mp hpiece
    exact ⟨workerIdx, length_slice (List.mem_range.mp hidx)⟩
  refine ⟨(List.range numWorkers).map slice, ?_, ?_, ?_, ?_⟩
  · simp only [cpuChunks, List.map_map, Function.comp_def, cpuChunk_slice h, slice]
  · calc
      ((List.range numWorkers).map slice).flatten =
          pool.take (cpuStart pool.length numWorkers numWorkers) := flatten_slices numWorkers
      _ = pool := by rw [cpuStart_numWorkers hworkers, List.take_length]
  · intro piece hpiece
    obtain ⟨workerIdx, hlength⟩ := hmem piece hpiece
    apply List.ne_nil_of_length_pos
    rw [hlength]
    exact cpuSize_pos h.le hworkers workerIdx
  · intro first hfirst second hsecond
    obtain ⟨one, hone⟩ := hmem first hfirst
    obtain ⟨other, hother⟩ := hmem second hsecond
    rw [hone, hother]
    exact cpuSize_le_succ one other

/-- With at least as many workers as cores each has one core, and the cores have nearly the same number
of workers. -/
theorem cpuChunk_cores (hpool : pool ≠ []) (h : pool.length ≤ numWorkers) :
    (∀ workerIdx, ∃ position : Fin pool.length,
      cpuChunk (some (List.finRange pool.length)) workerIdx numWorkers = some [position] ∧
      cpuChunk (some pool) workerIdx numWorkers = some [pool.get position]) ∧
    ∀ first second, workersAt pool.length numWorkers first ≤ workersAt pool.length numWorkers second + 1 := by
  have hpos : 0 < pool.length := List.length_pos_of_ne_nil hpool
  constructor
  · intro workerIdx
    exact ⟨⟨workerIdx % pool.length, Nat.mod_lt _ hpos⟩, cpuChunk_position hpos h workerIdx,
      cpuChunk_core hpool h workerIdx⟩
  · intro first second
    rw [workersAt_eq h, workersAt_eq h]
    split <;> split <;> omega

/-- No core of the pool is left without a process of the stage, whatever its shape. -/
theorem affinities_cover (hworkers : 1 ≤ numWorkers) (thread gpus : Bool) {core : Core} (h : core ∈ pool) :
    ∃ slice, some slice ∈ affinities thread gpus (some pool) numWorkers ∧ core ∈ slice := by
  rw [affinities]
  split
  · exact ⟨pool, List.mem_singleton_self _, h⟩
  · rcases Nat.lt_or_ge numWorkers pool.length with hfew | hmany
    · obtain ⟨slices, hslices, hpool, -⟩ := cpuChunks_slices hworkers hfew
      rw [← hpool, List.mem_flatten] at h
      obtain ⟨slice, hslice, hcore⟩ := h
      exact ⟨slice, hslices ▸ List.mem_map_of_mem hslice, hcore⟩
    · obtain ⟨position, hlt, rfl⟩ := List.mem_iff_getElem.mp h
      have hpool : pool ≠ [] := List.ne_nil_of_length_pos (Nat.zero_lt_of_lt hlt)
      refine ⟨[pool[position]], List.mem_map.mpr ⟨position, ?_, ?_⟩, List.mem_singleton_self _⟩
      · exact List.mem_range.mpr (hlt.trans_le hmany)
      · rw [cpuChunk_core hpool hmany]
        simp [Nat.mod_eq_of_lt hlt]

/-- The slices of a stage's workers are a partition of its pool. -/
theorem cpuChunks_partition (pool : List Core) (numWorkers : ℕ) (hpool : pool ≠ [])
    (hworkers : 1 ≤ numWorkers) :
    (numWorkers < pool.length → ∃ slices : List (List Core),
      cpuChunks (some pool) numWorkers = slices.map some ∧
      slices.flatten = pool ∧ (∀ slice ∈ slices, slice ≠ []) ∧
      ∀ first ∈ slices, ∀ second ∈ slices, first.length ≤ second.length + 1) ∧
    (pool.length ≤ numWorkers →
      (∀ workerIdx, ∃ position : Fin pool.length,
        cpuChunk (some (List.finRange pool.length)) workerIdx numWorkers = some [position] ∧
        cpuChunk (some pool) workerIdx numWorkers = some [pool.get position]) ∧
      ∀ first second,
        workersAt pool.length numWorkers first ≤ workersAt pool.length numWorkers second + 1) :=
  ⟨cpuChunks_slices hworkers, cpuChunk_cores hpool⟩

/-- Three cores for two workers, and for seven. -/
theorem cpuChunks_partition_three :
    (∃ slices : List (List ℕ), cpuChunks (some [3, 5, 7]) 2 = slices.map some ∧
      slices.flatten = [3, 5, 7] ∧ (∀ slice ∈ slices, slice ≠ []) ∧
      ∀ first ∈ slices, ∀ second ∈ slices, first.length ≤ second.length + 1) ∧
    ∀ first second, workersAt 3 7 first ≤ workersAt 3 7 second + 1 :=
  ⟨(cpuChunks_partition [3, 5, 7] 2 (by decide) (by decide)).1 (by decide),
    ((cpuChunks_partition [3, 5, 7] 7 (by decide) (by decide)).2 (by decide)).2⟩

end Partition

end GpuPipe.Lifecycle
