import Mathlib.Algebra.Order.Field.Rat
import GpuPipe.Library.Dict
import GpuPipe.Lifecycle.Spawn

/-!
# What the statistics show

Every worker writes its own entry of `timing_dict` under its id, and `_collect_stats` adds the entries up by
the stage that it reads off the id. The rows are in the order of the stages; drawing them is left out.
-/

namespace GpuPipe.Stats

open Spawn (Worker startWorkers stageOf)

/-- What a worker writes to `timing_dict`, as far as it is read. -/
structure WorkerStats where
  items : ℕ
  audioDuration : ℚ
  startWallTime : Option ℚ

abbrev TimingDict := Dict Bytes WorkerStats

/-- What is read of a stage and its output edge. -/
structure Edge where
  done : Bool
  /-- `qsize()` and, if the queue has one, `_maxsize`; reading them may raise. -/
  sizes : Option (ℕ × Option ℕ)
  chunkEff : ℕ
  workerCount : ℕ
  endCounter : ℕ

/-- One entry of the result. -/
structure StageStats where
  stageIdx : ℕ
  done : Bool
  qsize : ℕ
  qmax : ℕ
  items : ℕ
  active : ℤ
  totalWorkers : ℕ
  stageRtf : ℚ
  avgWorkerRtf : ℚ
  hasAudio : Bool

def unboundedQmax : ℕ := 1000000

/-- The items of an edge and how many it may hold; 0 is unbounded. -/
def Edge.fill (edge : Edge) : ℕ × ℕ :=
  match edge.sizes with
  | none => (0, 0)
  | some (qsize, maxsize) =>
    let qmax := if unboundedQmax < maxsize.getD 0 then 0 else maxsize.getD 0
    if 1 < edge.chunkEff then (qsize * edge.chunkEff, qmax * edge.chunkEff) else (qsize, qmax)

/-- `stages`: the entries of each stage; those with no stage in their id are under `none`. -/
def group : List (Bytes × WorkerStats) → Option ℕ → List (Bytes × WorkerStats) :=
  List.foldl (fun stages entry ↦
    Function.update stages (stageOf entry.1) (stages (stageOf entry.1) ++ [entry])) fun _ ↦ []

structure Sums where
  items : ℕ
  totalAudio : ℚ
  earliestStart : Option ℚ
  workerRtfs : List ℚ

def Sums.zero : Sums where
  items := 0
  totalAudio := 0
  earliestStart := none
  workerRtfs := []

def Sums.add (now : ℚ) (sums : Sums) (stats : WorkerStats) : Sums :=
  let sums := { sums with
    items := sums.items + stats.items
    totalAudio := sums.totalAudio + stats.audioDuration }
  match stats.startWallTime with
  | none => sums
  | some start =>
    { sums with
      workerRtfs :=
        if 0 < now - start then sums.workerRtfs ++ [stats.audioDuration / (now - start)] else sums.workerRtfs
      earliestStart :=
        match sums.earliestStart with
        | none => some start
        | some earliest => if start < earliest then some start else some earliest }

def Sums.of (now : ℚ) (workers : List WorkerStats) : Sums := workers.foldl (Sums.add now) .zero

/-- `wall_elapsed`; a start at 0 counts as none. -/
def Sums.wallElapsed (now : ℚ) (sums : Sums) : ℚ :=
  match sums.earliestStart with
  | none => 0
  | some earliest => if earliest = 0 then 0 else now - earliest

def Sums.stageRtf (now : ℚ) (sums : Sums) : ℚ :=
  if 0 < sums.wallElapsed now then sums.totalAudio / sums.wallElapsed now else 0

def Sums.avgWorkerRtf (sums : Sums) : ℚ :=
  if sums.workerRtfs = [] then 0 else sums.workerRtfs.sum / sums.workerRtfs.length

def stageStats (now : ℚ) (timing : TimingDict) (stageIdx : ℕ) (edge : Edge) : StageStats :=
  let sums := Sums.of now ((group timing.entries (some stageIdx)).map Prod.snd)
  { stageIdx := stageIdx
    done := edge.done
    qsize := edge.fill.1
    qmax := edge.fill.2
    items := sums.items
    active := edge.workerCount - edge.endCounter
    totalWorkers := edge.workerCount
    stageRtf := sums.stageRtf now
    avgWorkerRtf := sums.avgWorkerRtf
    hasAudio := 0 < sums.totalAudio }

def collectStats (now : ℚ) (edges : List Edge) (timing : TimingDict) : List StageStats :=
  edges.mapIdx (stageStats now timing)

/-- `timing_dict` after the workers have written what they have done. -/
def published (writes : List (Worker × WorkerStats)) : TimingDict :=
  writes.foldl (fun timing write ↦ timing.set write.1.workerId write.2) .empty

/-- The items of the last entry that a worker has written. -/
def lastItems (writes : List (Worker × WorkerStats)) (worker : Worker) : ℕ :=
  ((writes.reverse.find? fun write ↦ write.1.workerId = worker.workerId).map Prod.snd).elim 0 WorkerStats.items

/-! ## Whose items a stage shows -/

section Collect

variable {now : ℚ}

/-- The group of a stage is made of the entries whose id names the stage. -/
theorem group_eq_filter (entries : List (Bytes × WorkerStats)) (stage : Option ℕ) :
    group entries stage = entries.filter fun entry ↦ stageOf entry.1 = stage := by
  have hfold : ∀ stages : Option ℕ → List (Bytes × WorkerStats),
      entries.foldl (fun stages entry ↦
        Function.update stages (stageOf entry.1) (stages (stageOf entry.1) ++ [entry])) stages stage =
      stages stage ++ entries.filter fun entry ↦ stageOf entry.1 = stage := by
    induction entries with
    | nil => simp
    | cons entry rest ih =>
      intro stages
      rw [List.foldl_cons, ih, List.filter_cons]
      by_cases hstage : stageOf entry.1 = stage
      · rw [hstage, Function.update_self, if_pos (decide_eq_true rfl), List.append_assoc,
          List.singleton_append]
      · rw [Function.update_of_ne (Ne.symm hstage), if_neg (by simpa using hstage)]
  exact hfold fun _ ↦ []

theorem add_items (sums : Sums) (stats : WorkerStats) : (sums.add now stats).items = sums.items + stats.items := by
  unfold Sums.add
  dsimp only
  split <;> rfl

theorem of_items (workers : List WorkerStats) :
    (Sums.of now workers).items = (workers.map WorkerStats.items).sum := by
  have hfold : ∀ sums : Sums, (workers.foldl (Sums.add now) sums).items =
      sums.items + (workers.map WorkerStats.items).sum := by
    induction workers with
    | nil => simp
    | cons stats rest ih =>
      intro sums
      rw [List.foldl_cons, ih, add_items, List.map_cons, List.sum_cons, Nat.add_assoc]
  rw [Sums.of, hfold]
  exact Nat.zero_add _

theorem published_concat (writes : List (Worker × WorkerStats)) (write : Worker × WorkerStats) :
    published (writes ++ [write]) = (published writes).set write.1.workerId write.2 := List.foldl_concat _ _ _ _

/-- The dictionary holds the last entry of every id. -/
theorem get_published (writes : List (Worker × WorkerStats)) (id : Bytes) :
    (published writes).get id = (writes.reverse.find? fun write ↦ write.1.workerId = id).map Prod.snd := by
  induction writes using List.reverseRecOn with
  | nil => rfl
  | append_singleton writes write ih =>
    rw [published_concat, List.reverse_append, List.reverse_singleton, List.singleton_append, List.find?_cons]
    by_cases hid : write.1.workerId = id
    · rw [hid, Dict.get_set_self]
      simp
    · rw [Dict.get_set_of_ne _ _ (Ne.symm hid), ih, decide_eq_false hid]

/-- Only the workers that have written are in the dictionary. -/
theorem exists_of_mem_keys {writes : List (Worker × WorkerStats)} {id : Bytes}
    (h : id ∈ (published writes).keys) : ∃ write ∈ writes, write.1.workerId = id := by
  induction writes using List.reverseRecOn with
  | nil => cases h
  | append_singleton writes write ih =>
    rw [published_concat, Dict.mem_keys_set] at h
    rcases h with hnew | hold
    · exact ⟨write, List.mem_append_right _ (List.mem_singleton_self write), hnew.symm⟩
    · obtain ⟨earlier, hearlier, hid⟩ := ih hold
      exact ⟨earlier, List.mem_append_left _ hearlier, hid⟩

/-- A sum over the stages of the sums over their workers is the sum over all workers. -/
theorem sum_stages {n : ℕ} (workers : List Worker) (part : Worker → ℕ)
    (hlt : ∀ worker ∈ workers, worker.stageIdx < n) :
    ((List.range n).map fun i ↦ ((workers.filter fun worker ↦ worker.stageIdx = i).map part).sum).sum =
      (workers.map part).sum := by
  induction workers with
  | nil => simp
  | cons worker rest ih =>
    have hone : ∀ i, (((worker :: rest).filter fun worker ↦ worker.stageIdx = i).map part).sum =
        (if worker.stageIdx = i then part worker else 0) +
          ((rest.filter fun worker ↦ worker.stageIdx = i).map part).sum := by
      intro i
      rw [List.filter_cons]
      by_cases hidx : worker.stageIdx = i
      · simp [hidx]
      · simp [hidx]
    have hpoint : ((List.range n).map fun i ↦ if worker.stageIdx = i then part worker else 0).sum =
        part worker := by
      calc
        _ = ∑ i ∈ Finset.range n, if worker.stageIdx = i then part worker else 0 := rfl
        _ = _ := by
          rw [Finset.sum_ite_eq, if_pos (Finset.mem_range.mpr (hlt worker List.mem_cons_self))]
    calc
      _ = ((List.range n).map fun i ↦ (if worker.stageIdx = i then part worker else 0) +
            ((rest.filter fun worker ↦ worker.stageIdx = i).map part).sum).sum := by
        rw [List.map_congr_left fun i _ ↦ hone i]
      _ = _ := by
        rw [List.sum_map_add, hpoint, ih fun later hlater ↦ hlt later (List.mem_cons_of_mem _ hlater),
          List.map_cons, List.sum_cons]

/-- The items of a stage are those that its own workers have last written. -/
theorem stageStats_items {jobs : List Config.Job} {writes : List (Worker × WorkerStats)}
    (hwrites : ∀ write ∈ writes, write.1 ∈ startWorkers jobs) (i : ℕ) (edge : Edge) :
    (stageStats now (published writes) i edge).items =
      (((startWorkers jobs).filter fun worker ↦ worker.stageIdx = i).map (lastItems writes)).sum := by
  let ids := ((startWorkers jobs).filter fun worker ↦ worker.stageIdx = i).map Worker.workerId
  have hnodup : ids.Nodup := (Spawn.startWorkers_nodup jobs).sublist (List.filter_sublist.map _)
  have hselect : ∀ id ∈ ids, decide (stageOf id = some i) = true := by
    intro id hid
    obtain ⟨worker, hworker, rfl⟩ := List.mem_map.mp hid
    rw [List.mem_filter, decide_eq_true_eq] at hworker
    rw [Spawn.stageOf_startWorkers hworker.1, hworker.2]
    exact decide_eq_true rfl
  have hkeys : ∀ id ∈ (published writes).keys, decide (stageOf id = some i) = true → id ∈ ids := by
    intro id hid hstage
    obtain ⟨write, hwrite, rfl⟩ := exists_of_mem_keys hid
    have hworker := hwrites write hwrite
    rw [Spawn.stageOf_startWorkers hworker, decide_eq_true_eq, Option.some.injEq] at hstage
    exact List.mem_map_of_mem (List.mem_filter.mpr ⟨hworker, decide_eq_true hstage⟩)
  calc
    _ = (((published writes).entries.filter fun entry ↦ stageOf entry.1 = some i).map
        fun entry ↦ entry.2.items).sum := by
      show (Sums.of now _).items = _
      rw [of_items, group_eq_filter, List.map_map]
      rfl
    _ = (ids.map fun id ↦ ((published writes).get id).elim 0 WorkerStats.items).sum :=
      (published writes).sum_filter (fun id ↦ stageOf id = some i) WorkerStats.items hnodup hselect hkeys
    _ = _ := by
      rw [List.map_map]
      congr 1
      apply List.map_congr_left
      intro worker _
      rw [Function.comp_apply, get_published, lastItems]

/-- However often and in whatever order the workers write, the row of a stage shows the items that its own
workers have last written, and the rows together show those of all workers. -/
theorem collectStats_items {jobs : List Config.Job} {writes : List (Worker × WorkerStats)}
    (hwrites : ∀ write ∈ writes, write.1 ∈ startWorkers jobs) (now : ℚ) (edges : List Edge) :
    (∀ (i : ℕ) (row : StageStats), (collectStats now edges (published writes))[i]? = some row →
      row.items = (((startWorkers jobs).filter fun worker ↦ worker.stageIdx = i).map (lastItems writes)).sum) ∧
    (edges.length = jobs.length → ((collectStats now edges (published writes)).map StageStats.items).sum =
      ((startWorkers jobs).map (lastItems writes)).sum) := by
  constructor
  · intro i row hrow
    rw [collectStats, List.getElem?_mapIdx] at hrow
    obtain ⟨edge, _, rfl⟩ := Option.map_eq_some_iff.mp hrow
    exact stageStats_items hwrites i edge
  · intro hedges
    have hrows : (collectStats now edges (published writes)).map StageStats.items =
        (List.range jobs.length).map fun i ↦
          (((startWorkers jobs).filter fun worker ↦ worker.stageIdx = i).map (lastItems writes)).sum := by
      apply List.ext_getElem
      · simp [collectStats, hedges]
      · intro i _ _
        rw [List.getElem_map, List.getElem_map, List.getElem_range]
        simp only [collectStats, List.getElem_mapIdx]
        exact stageStats_items hwrites i _
    rw [hrows]
    exact sum_stages _ _ fun worker hworker ↦ Spawn.stageIdx_startWorkers hworker

def writeTwice (workers : List Worker) : List (Worker × WorkerStats) :=
  workers.map (fun worker ↦ (worker, ⟨4, 0, none⟩)) ++ workers.map fun worker ↦ (worker, ⟨5, 0, none⟩)

/-- Three workers of two stages write twice each; the last entries add up to 15 items. -/
theorem collectStats_items_writeTwice :
    ((collectStats 0 [⟨false, none, 0, 1, 0⟩, ⟨false, none, 0, 2, 0⟩]
      (published (writeTwice (startWorkers Spawn.twoWorkers)))).map StageStats.items).sum = 15 := by
  have hwrites : ∀ write ∈ writeTwice (startWorkers Spawn.twoWorkers), write.1 ∈ startWorkers Spawn.twoWorkers := by
    intro write hwrite
    rcases List.mem_append.mp hwrite with hfirst | hsecond
    · obtain ⟨worker, hworker, rfl⟩ := List.mem_map.mp hfirst
      exact hworker
    · obtain ⟨worker, hworker, rfl⟩ := List.mem_map.mp hsecond
      exact hworker
  rw [(collectStats_items hwrites 0 _).2 rfl]
  decide

end Collect

end GpuPipe.Stats
