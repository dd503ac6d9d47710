import Mathlib.Data.Multiset.AddSub
import GpuPipe.Library.Machine

/-!
# A pool of asynchronous tasks

`AsyncPoolWorker._run_async` keeps tasks of `process()` and one outstanding `pull` in flight, waits until
some of them are done, and handles these one after the other; each put is awaited before the next. Tasks,
pulls and puts complete in any order. `pull` answers with at most as many items as it is asked for. What
`process()` raises is caught as long as it is an `Exception`; anything else ends the loop with all its tasks.
-/

namespace GpuPipe.AsyncPool

/-- What `process()` does with an item. It may raise an `Exception`, a `KeyboardInterrupt` or `SystemExit`
(`exited`), or another `BaseException` such as `CancelledError` (`cancelled`). -/
inductive Result (Out : Type*)
  | none
  | item (value : Out)
  | list (values : List (Option Out))
  | raised
  | cancelled
  | exited

/-- What is put for a result; `_process_safe` makes `None` of an exception. -/
def Result.outs {Out : Type*} : Result Out → List Out
  | .none | .raised | .cancelled | .exited => []
  | .item value => [value]
  | .list values => values.filterMap id

def Result.caught {Out : Type*} : Result Out → Bool
  | .cancelled | .exited => false
  | _ => true

structure Pool where
  maxConcurrent : ℕ
  pos : 1 ≤ maxConcurrent

structure Task (Item : Type*) where
  id : ℕ
  item : Item

inductive Ref
  | pull
  | task (id : ℕ)
  deriving DecidableEq

/-- `pull_task`: the number of items asked for, and the answer once it is done. -/
structure Pull (Item : Type*) where
  need : ℕ
  answer : Option (List Item)

/-- Where `_run_async` stands: at the top of its loop, in `asyncio.wait`, among the tasks that are done, in
a put, returned or ended by an exception. -/
inductive Pc (Out : Type*)
  | top
  | waiting
  | handling (done : List Ref)
  | putting (outs : List Out) (done : List Ref)
  | returned
  | failed

/-- `in_flight` is `running` and `complete` together. `answers`, `results` and `emitted` are history: what
the pulls gave, what the tasks made of it, and what has been put. -/
structure State (Item Out : Type*) where
  pc : Pc Out
  running : List (Task Item)
  complete : List (Task Item × Result Out)
  pull : Option (Pull Item)
  upstreamDone : Bool
  created : ℕ
  answers : List (List Item)
  results : List (Item × Result Out)
  emitted : List Out

inductive Action (Item Out : Type*)
  | top
  | wake (order : List Ref)
  | handle
  | put
  | pulled (items : List Item)
  | processed (id : ℕ) (result : Result Out)

section Steps

variable {Item Out : Type*} (pool : Pool) (state : State Item Out)

def State.inFlight : ℕ := state.running.length + state.complete.length

/-- The waiters that are done, in some order. -/
def State.done : List Ref :=
  (match state.pull with
    | some ⟨_, some _⟩ => [.pull]
    | _ => []) ++ state.complete.map fun entry ↦ .task entry.1.id

/-- `pull_task` in the round that begins: one more pull if there is room. -/
def nextPull : Option (Pull Item) :=
  let need := pool.maxConcurrent - state.inFlight
  if state.pull.isNone ∧ state.upstreamDone = false ∧ 0 < need then some ⟨need, none⟩
  else state.pull

/-- The top of the loop: the pull, and the wait if there is something to wait for. -/
def stepTop : State Item Out :=
  let pull := nextPull pool state
  { state with
    pull := pull
    pc := if state.inFlight = 0 ∧ pull.isNone then .returned else .waiting }

/-- The tasks `_process_safe(it)` of these items. -/
def newTasks (created : ℕ) (items : List Item) : List (Task Item) :=
  (items.zipIdx created).map fun entry ↦ ⟨entry.2, entry.1⟩

def putNext (outs : List Out) (done : List Ref) : Pc Out :=
  match outs with
  | [] => .handling done
  | out :: rest => .putting (out :: rest) done

/-- `_run_async` ends by an exception, and `asyncio.run` cancels the tasks that are left. -/
def State.fail : State Item Out := { state with pc := .failed, running := [], complete := [] }

/-- One task that is done. -/
def stepHandle (done : List Ref) : Option (State Item Out) :=
  match done with
  | [] => some { state with pc := .top }
  | .pull :: rest =>
    match state.pull with
    | some ⟨_, some []⟩ => some { state with pc := .handling rest, pull := none, upstreamDone := true }
    | some ⟨_, some (item :: items)⟩ =>
      some { state with
        pc := .handling rest
        pull := none
        running := state.running ++ newTasks state.created (item :: items)
        created := state.created + (item :: items).length }
    | _ => none
  | .task id :: rest =>
    match state.complete.find? (·.1.id = id) with
    -- `task.result()` raises.
    | some (_, .cancelled) => some state.fail
    | some (_, result) =>
      some { state with
        pc := putNext result.outs rest
        complete := state.complete.eraseP (·.1.id = id) }
    | none => none

def step : Action Item Out → Option (State Item Out)
  | .top =>
    match state.pc with
    | .top => some (stepTop pool state)
    | _ => none
  | .wake order =>
    match state.pc with
    | .waiting =>
      if order ≠ [] ∧ order.Perm state.done then some { state with pc := .handling order } else none
    | _ => none
  | .handle =>
    match state.pc with
    | .handling done => stepHandle state done
    | _ => none
  | .put =>
    match state.pc with
    | .putting (out :: outs) done =>
      some { state with pc := putNext outs done, emitted := state.emitted ++ [out] }
    | _ => none
  | .pulled items =>
    match state.pull with
    | some ⟨need, none⟩ =>
      if items.length ≤ need then
        some { state with pull := some ⟨need, some items⟩, answers := state.answers ++ [items] }
      else none
    | _ => none
  | .processed id result =>
    match state.running.find? (·.id = id), result with
    -- The event loop itself lets these through.
    | some task, .exited => some { state.fail with results := state.results ++ [(task.item, .exited)] }
    | some task, result =>
      some { state with
        running := state.running.eraseP (·.id = id)
        complete := state.complete ++ [(task, result)]
        results := state.results ++ [(task.item, result)] }
    | none, _ => none

end Steps

def machine (Item Out : Type*) (pool : Pool) : Machine (State Item Out) (Action Item Out) where
  start :=
    { pc := .top
      running := []
      complete := []
      pull := none
      upstreamDone := false
      created := 0
      answers := []
      results := []
      emitted := [] }
  step := step pool

/-- Whatever `process()` raises is an `Exception`. -/
def catches {Item Out : Type*} (_ : State Item Out) : Action Item Out → Bool
  | .processed _ result => result.caught
  | _ => true

section Moves

variable {Item Out : Type*} {pool : Pool} {state next : State Item Out} {action : Action Item Out}

/-- All that one step can do as long as whatever `process()` raises is caught. -/
inductive Move (pool : Pool) (state : State Item Out) : State Item Out → Prop
  | top (hpc : state.pc = .top) : Move pool state (stepTop pool state)
  | wake (order : List Ref) (hpc : state.pc = .waiting) (hne : order ≠ []) (hperm : order.Perm state.done) :
      Move pool state { state with pc := .handling order }
  | again (hpc : state.pc = .handling []) : Move pool state { state with pc := .top }
  | ends (rest : List Ref) (need : ℕ) (hpc : state.pc = .handling (.pull :: rest))
      (hpull : state.pull = some ⟨need, some []⟩) :
      Move pool state { state with pc := .handling rest, pull := none, upstreamDone := true }
  | starts (rest : List Ref) (need : ℕ) (items : List Item) (hpc : state.pc = .handling (.pull :: rest))
      (hpull : state.pull = some ⟨need, some items⟩) :
      Move pool state { state with
        pc := .handling rest
        pull := none
        running := state.running ++ newTasks state.created items
        created := state.created + items.length }
  | result (id : ℕ) (rest : List Ref) (task : Task Item) (result : Result Out)
      (hpc : state.pc = .handling (.task id :: rest))
      (hfind : state.complete.find? (·.1.id = id) = some (task, result)) :
      Move pool state { state with
        pc := putNext result.outs rest
        complete := state.complete.eraseP (·.1.id = id) }
  | put (out : Out) (outs : List Out) (done : List Ref) (hpc : state.pc = .putting (out :: outs) done) :
      Move pool state { state with pc := putNext outs done, emitted := state.emitted ++ [out] }
  | pulled (need : ℕ) (items : List Item) (hpull : state.pull = some ⟨need, none⟩)
      (hle : items.length ≤ need) :
      Move pool state { state with pull := some ⟨need, some items⟩, answers := state.answers ++ [items] }
  | processed (id : ℕ) (result : Result Out) (task : Task Item)
      (hfind : state.running.find? (·.id = id) = some task) (hcaught : result.caught = true) :
      Move pool state { state with
        running := state.running.eraseP (·.id = id)
        complete := state.complete ++ [(task, result)]
        results := state.results ++ [(task.item, result)] }

/-- What the tasks in flight have raised is caught, and nothing has ended the loop. -/
structure Tame (state : State Item Out) : Prop where
  caught : ∀ entry ∈ state.complete, entry.2.caught = true
  pc_ne : state.pc ≠ .failed

theorem stepHandle_move (htame : Tame state) {done : List Ref} (hpc : state.pc = .handling done)
    (h : stepHandle state done = some next) : Move pool state next := by
  unfold stepHandle at h
  split at h
  · cases h
    exact .again hpc
  · rename_i rest
    split at h
    · rename_i need hpull
      cases h
      exact .ends rest need hpc hpull
    · rename_i need item items hpull
      cases h
      exact .starts rest need (item :: items) hpc hpull
    · cases h
  · rename_i id rest
    split at h
    · rename_i task hfind
      have hcaught := htame.caught _ (List.mem_of_find?_eq_some hfind)
      cases hcaught
    · rename_i task result _ hfind
      cases h
      exact .result id rest task result hpc hfind
    · cases h

/-- What one step can do while whatever `process()` raises is caught. -/
theorem step_move (htame : Tame state) (hcatches : catches state action = true)
    (h : step pool state action = some next) : Move pool state next := by
  cases action with
  | top =>
    simp only [step] at h
    split at h
    · cases h
      exact .top ‹_›
    · cases h
  | wake order =>
    simp only [step] at h
    split at h
    · split at h
      · rename_i hpc horder
        cases h
        exact .wake order hpc horder.1 horder.2
      · cases h
    · cases h
  | handle =>
    simp only [step] at h
    split at h
    · rename_i done hpc
      exact stepHandle_move htame hpc h
    · cases h
  | put =>
    simp only [step] at h
    split at h
    · rename_i out outs done hpc
      cases h
      exact .put out outs done hpc
    · cases h
  | pulled items =>
    simp only [step] at h
    split at h
    · split at h
      · rename_i need hpull hle
        cases h
        exact .pulled need items hpull hle
      · cases h
    · cases h
  | processed id result =>
    simp only [step] at h
    split at h
    · cases hcatches
    · rename_i task hfind _
      cases h
      exact .processed id _ task hfind hcatches
    · cases h

/-- An element and the rest without it. -/
theorem perm_find_eraseP {α : Type*} {list : List α} {p : α → Bool} {element : α}
    (h : list.find? p = some element) : list.Perm (element :: list.eraseP p) := by
  induction list with
  | nil => cases h
  | cons first rest ih =>
    cases hp : p first with
    | true =>
      rw [List.find?_cons_of_pos hp, Option.some.injEq] at h
      rw [List.eraseP_cons_of_pos hp, h]
    | false =>
      rw [List.find?_cons_of_neg (by simp [hp])] at h
      rw [List.eraseP_cons_of_neg (by simp [hp])]
      exact ((ih h).cons first).trans (List.Perm.swap element first _)

theorem length_newTasks (created : ℕ) (items : List Item) :
    (newTasks created items).length = items.length := by
  rw [newTasks, List.length_map, List.length_zipIdx]

theorem items_newTasks (created : ℕ) (items : List Item) :
    (newTasks created items).map Task.item = items := by
  rw [newTasks, List.map_map]
  exact List.zipIdx_map_fst created items

theorem ids_newTasks (created : ℕ) (items : List Item) :
    (newTasks created items).map Task.id = List.range' created items.length := by
  rw [newTasks, List.map_map]
  exact List.zipIdx_map_snd created items

theorem Tame.move (h : Tame state) (hmove : Move pool state next) : Tame next := by
  cases hmove with
  | top hpc =>
    refine ⟨h.caught, ?_⟩
    simp only [stepTop]
    split <;> rintro ⟨⟩
  | wake | again | ends | starts => exact ⟨h.caught, by rintro ⟨⟩⟩
  | result id rest task result hpc hfind =>
    refine ⟨fun entry hentry ↦ h.caught entry (List.mem_of_mem_eraseP hentry), ?_⟩
    cases houts : result.outs <;> simp [putNext]
  | put out outs done hpc =>
    refine ⟨h.caught, ?_⟩
    cases outs <;> simp [putNext]
  | pulled => exact ⟨h.caught, h.pc_ne⟩
  | processed id result task hfind hcaught =>
    refine ⟨fun entry hentry ↦ ?_, h.pc_ne⟩
    rw [List.mem_append, List.mem_singleton] at hentry
    obtain hold | rfl := hentry
    · exact h.caught entry hold
    · exact hcaught

theorem nextPull_cases (pool : Pool) (state : State Item Out) :
    (nextPull pool state = some ⟨pool.maxConcurrent - state.inFlight, none⟩ ∧ state.pull = none) ∨
      nextPull pool state = state.pull := by
  unfold nextPull
  dsimp only
  split
  · rename_i hpull
    exact .inl ⟨rfl, Option.isNone_iff_eq_none.mp hpull.1⟩
  · exact .inr rfl

end Moves

section Bound

variable {Item Out : Type*} {pool : Pool} {state next : State Item Out}

/-- The items an outstanding pull may still bring. -/
def State.asked (state : State Item Out) : ℕ := (state.pull.map Pull.need).getD 0

/-- The tasks in flight and those the pull may bring are no more than allowed, and it brings no more than it
was asked for. -/
structure Bounded (pool : Pool) (state : State Item Out) : Prop where
  room : state.inFlight + state.asked ≤ pool.maxConcurrent
  answer : ∀ need items, state.pull = some ⟨need, some items⟩ → items.length ≤ need

theorem Bounded.top (h : Bounded pool state) : Bounded pool (stepTop pool state) := by
  have hroom := h.room
  have hanswer := h.answer
  have hpull : (stepTop pool state).pull = nextPull pool state := rfl
  constructor
  · rw [State.asked, hpull]
    show state.inFlight + _ ≤ _
    obtain ⟨hasks, hnone⟩ | hsame := nextPull_cases pool state
    · simp only [State.asked, hnone, Option.map_none, Option.getD_none] at hroom
      rw [hasks, Option.map_some, Option.getD_some, Nat.add_sub_cancel' ((Nat.le_add_right _ _).trans hroom)]
    · rw [hsame]
      exact hroom
  · intro need items hsome
    obtain ⟨hasks, hnone⟩ | hsame := nextPull_cases pool state
    · rw [hpull, hasks] at hsome
      cases hsome
    · rw [hpull, hsame] at hsome
      exact hanswer need items hsome

/-- No step takes more tasks in flight than allowed. -/
theorem Bounded.move (h : Bounded pool state) (hmove : Move pool state next) : Bounded pool next := by
  have hroom := h.room
  cases hmove with
  | top => exact h.top
  | wake | again | put => exact ⟨hroom, h.answer⟩
  | ends => exact ⟨(Nat.le_add_right _ _).trans hroom, nofun⟩
  | starts rest need items hpc hpull =>
    have hanswer := h.answer need items hpull
    refine ⟨?_, nofun⟩
    simp only [State.asked, State.inFlight, hpull, Option.map_some, Option.getD_some, Option.map_none,
      Option.getD_none, List.length_append, length_newTasks] at hroom ⊢
    omega
  | result id rest task result hpc hfind =>
    have hlength := (perm_find_eraseP hfind).length_eq
    rw [List.length_cons] at hlength
    refine ⟨?_, h.answer⟩
    simp only [State.asked, State.inFlight] at hroom ⊢
    omega
  | pulled need items hpull hle =>
    refine ⟨?_, ?_⟩
    · simpa only [State.asked, State.inFlight, hpull, Option.map_some, Option.getD_some] using hroom
    · intro need' items' hanswer
      cases hanswer
      exact hle
  | processed id result task hfind =>
    have hlength := (perm_find_eraseP hfind).length_eq
    rw [List.length_cons] at hlength
    refine ⟨?_, h.answer⟩
    simp only [State.asked, State.inFlight, List.length_append, List.length_singleton] at hroom ⊢
    omega

end Bound

section Conservation

variable {Item Out : Type*} {pool : Pool} {state next : State Item Out}

/-- What a pull has given that is not in a task yet. -/
def State.waitingItems (state : State Item Out) : List Item := (state.pull.bind Pull.answer).getD []

/-- The rest of the result that is being put. -/
def Pc.outs : Pc Out → List Out
  | putting outs _ => outs
  | _ => []

@[simp] theorem outs_handling (done : List Ref) : (Pc.handling done : Pc Out).outs = [] := rfl

@[simp] theorem outs_putting (outs : List Out) (done : List Ref) : (Pc.putting outs done).outs = outs := rfl

@[simp] theorem outs_putNext (outs : List Out) (done : List Ref) : (putNext outs done).outs = outs := by
  cases outs <;> rfl

theorem outs_stepTop (pool : Pool) (state : State Item Out) : (stepTop pool state).pc.outs = [] := by
  simp only [stepTop]
  split <;> rfl

/-- Every pulled item is in one place: waiting for its task, being processed, or processed. Every element
of a result is in one place: in a task not handled yet, about to be put, or put. -/
structure Conserved (state : State Item Out) : Prop where
  items : state.answers.flatten.Perm
    (state.waitingItems ++ state.running.map Task.item ++ state.results.map Prod.fst)
  outs : (state.results.flatMap fun entry ↦ entry.2.outs).Perm
    (state.complete.flatMap (fun entry ↦ entry.2.outs) ++ state.pc.outs ++ state.emitted)

theorem Conserved.top (h : Conserved state) (hpc : state.pc = .top) : Conserved (stepTop pool state) := by
  have hitems := h.items
  have houts := h.outs
  have hwaiting : (stepTop pool state).waitingItems = state.waitingItems := by
    have hpull : (stepTop pool state).pull = nextPull pool state := rfl
    rw [State.waitingItems, hpull]
    obtain ⟨hasks, hnone⟩ | hsame := nextPull_cases pool state
    · rw [hasks, State.waitingItems, hnone]
      rfl
    · rw [hsame]
      rfl
  rw [hpc] at houts
  constructor
  · rw [hwaiting]
    exact hitems
  · rw [outs_stepTop]
    exact houts

/-- No step loses an item or a result. -/
theorem Conserved.move (h : Conserved state) (hmove : Move pool state next) : Conserved next := by
  have hitems := h.items
  have houts := h.outs
  cases hmove with
  | top hpc => exact h.top hpc
  | wake order hpc =>
    rw [hpc] at houts
    exact ⟨hitems, houts⟩
  | again hpc =>
    rw [hpc] at houts
    exact ⟨hitems, houts⟩
  | ends rest need hpc hpull =>
    rw [hpc] at houts
    refine ⟨?_, houts⟩
    simp only [State.waitingItems, hpull, Option.bind_some, Option.getD_some] at hitems
    exact hitems
  | starts rest need items hpc hpull =>
    rw [hpc] at houts
    refine ⟨?_, houts⟩
    simp only [State.waitingItems, hpull, Option.bind_some, Option.getD_some] at hitems
    simp only [State.waitingItems, Option.bind_none, Option.getD_none, List.map_append, items_newTasks,
      List.nil_append]
    exact hitems.trans (List.perm_append_comm.append_right _)
  | result id rest task result hpc hfind =>
    rw [hpc] at houts
    refine ⟨hitems, houts.trans ?_⟩
    have hsplit := (perm_find_eraseP hfind).flatMap_right fun entry ↦ entry.2.outs
    rw [List.flatMap_cons] at hsplit
    rw [outs_handling, List.append_nil, outs_putNext]
    exact ((hsplit.trans List.perm_append_comm).append_right _)
  | put out outs done hpc =>
    rw [hpc] at houts
    refine ⟨hitems, houts.trans ?_⟩
    rw [outs_putting, outs_putNext, List.append_assoc, List.append_assoc]
    refine List.Perm.append_left _ ?_
    rw [← List.append_assoc]
    exact (List.perm_append_singleton out _).symm
  | pulled need items hpull hle =>
    refine ⟨?_, houts⟩
    simp only [State.waitingItems, hpull, Option.bind_some, Option.getD_none, List.nil_append] at hitems
    simp only [State.waitingItems, Option.bind_some, Option.getD_some, List.append_assoc,
      List.flatten_append, List.flatten_singleton]
    exact (hitems.append_right items).trans List.perm_append_comm
  | processed id result task hfind =>
    have hsplit := (perm_find_eraseP hfind).map Task.item
    constructor
    · refine hitems.trans ?_
      simp only [State.waitingItems, List.map_append, List.map_cons, List.map_nil, List.append_assoc]
      refine List.Perm.append_left _ ?_
      refine (hsplit.append_right _).trans ?_
      rw [List.map_cons, ← List.append_assoc]
      exact (List.perm_append_singleton task.item _).symm
    · simp only [List.flatMap_append, List.flatMap_singleton]
      refine (houts.append_right _).trans ?_
      rw [List.append_assoc, List.append_assoc, List.append_assoc, List.append_assoc]
      refine List.Perm.append_left _ ?_
      rw [← List.append_assoc]
      exact List.perm_append_comm

end Conservation

section Progress

variable {Item Out : Type*} {pool : Pool} {state next : State Item Out}

def State.runningIds (state : State Item Out) : List ℕ := state.running.map Task.id

def State.completeIds (state : State Item Out) : List ℕ := state.complete.map fun entry ↦ entry.1.id

/-- What `_run_async` has still to handle. -/
def Pc.done : Pc Out → List Ref
  | handling done | putting _ done => done
  | _ => []

@[simp] theorem done_putNext (outs : List Out) (done : List Ref) : (putNext outs done).done = done := by
  cases outs <;> rfl

/-- A waiter that is done, for the state. -/
def IsDone (state : State Item Out) : Ref → Prop
  | .pull => ∃ need items, state.pull = some ⟨need, some items⟩
  | .task id => id ∈ state.completeIds

/-- The tasks in flight have different ids, all handed out; what is still to be handled is done, each task
once. -/
structure Sorted (state : State Item Out) : Prop where
  nodup : (state.runningIds ++ state.completeIds).Nodup
  fresh : ∀ id ∈ state.runningIds ++ state.completeIds, id < state.created
  once : state.pc.done.Nodup
  isDone : ∀ ref ∈ state.pc.done, IsDone state ref

theorem mem_done_iff (state : State Item Out) (ref : Ref) : ref ∈ state.done ↔ IsDone state ref := by
  unfold State.done
  cases ref with
  | pull =>
    have htask : Ref.pull ∉ state.complete.map fun entry ↦ Ref.task entry.1.id := by simp
    rw [List.mem_append, or_iff_left htask, IsDone]
    split
    · rename_i need items hpull
      simp [hpull]
    · rename_i hpull
      refine iff_of_false List.not_mem_nil ?_
      rintro ⟨need, items, hsome⟩
      exact hpull need items hsome
  | task id =>
    have hid : Ref.task id ∈ (state.complete.map fun entry ↦ Ref.task entry.1.id) ↔
        id ∈ state.completeIds := by
      simp [State.completeIds]
    rw [List.mem_append, hid, IsDone, or_iff_right]
    split <;> simp

theorem Sorted.nodup_done (h : Sorted state) : state.done.Nodup := by
  have hcomplete := (List.nodup_append.mp h.nodup).2.1
  have htasks : (state.complete.map fun entry ↦ Ref.task entry.1.id).Nodup := by
    rw [State.completeIds] at hcomplete
    have hmap := hcomplete.map (f := Ref.task) fun first second hsame ↦ by cases hsame; rfl
    rwa [List.map_map] at hmap
  unfold State.done
  split
  · rw [List.singleton_append, List.nodup_cons]
    exact ⟨by simp, htasks⟩
  · exact htasks

/-- Handling one waiter leaves the others done, when the state keeps what the others need. -/
theorem Sorted.rest (h : Sorted state) (ref : Ref) (rest : List Ref) (hdone : state.pc.done = ref :: rest) :
    rest.Nodup ∧ ref ∉ rest ∧ ∀ other ∈ rest, IsDone state other := by
  have honce := h.once
  rw [hdone, List.nodup_cons] at honce
  refine ⟨honce.2, honce.1, fun other hother ↦ h.isDone other ?_⟩
  rw [hdone]
  exact List.mem_cons_of_mem _ hother

/-- No task is handled twice. -/
theorem Sorted.move (h : Sorted state) (hmove : Move pool state next) : Sorted next := by
  cases hmove with
  | top hpc =>
    have hdone : (stepTop pool state).pc.done = [] := by
      simp only [stepTop]
      split <;> rfl
    refine ⟨h.nodup, h.fresh, ?_, ?_⟩
    · rw [hdone]
      exact List.nodup_nil
    · rw [hdone]
      exact fun ref href ↦ absurd href List.not_mem_nil
  | wake order hpc hne hperm =>
    exact ⟨h.nodup, h.fresh, hperm.nodup_iff.mpr h.nodup_done,
      fun ref href ↦ (mem_done_iff state ref).mp (hperm.mem_iff.mp href)⟩
  | again hpc => exact ⟨h.nodup, h.fresh, List.nodup_nil, fun ref href ↦ absurd href List.not_mem_nil⟩
  | ends rest need hpc hpull =>
    obtain ⟨hnodup, hpull', hrest⟩ := h.rest .pull rest (by rw [hpc]; rfl)
    refine ⟨h.nodup, h.fresh, hnodup, fun ref href ↦ ?_⟩
    cases ref with
    | pull => exact absurd href hpull'
    | task id => exact hrest _ href
  | starts rest need items hpc hpull =>
    obtain ⟨hnodup, hpull', hrest⟩ := h.rest .pull rest (by rw [hpc]; rfl)
    have hids : (state.running ++ newTasks state.created items).map Task.id ++ state.completeIds =
        state.runningIds ++ List.range' state.created items.length ++ state.completeIds := by
      rw [List.map_append, ids_newTasks]
      rfl
    have hperm : (state.runningIds ++ List.range' state.created items.length ++ state.completeIds).Perm
        (List.range' state.created items.length ++ (state.runningIds ++ state.completeIds)) := by
      rw [← List.append_assoc]
      exact List.perm_append_comm.append_right _
    refine ⟨?_, ?_, hnodup, fun ref href ↦ ?_⟩
    · show ((state.running ++ newTasks state.created items).map Task.id ++ state.completeIds).Nodup
      rw [hids, hperm.nodup_iff, List.nodup_append]
      refine ⟨List.nodup_range', h.nodup, fun first hfirst second hsecond hsame ↦ ?_⟩
      have hlt := h.fresh second hsecond
      rw [List.mem_range'_1] at hfirst
      omega
    · intro id hid
      show id < state.created + items.length
      have hmem := hperm.mem_iff.mp (hids ▸ hid)
      rw [List.mem_append, List.mem_range'_1] at hmem
      obtain hnew | hold := hmem
      · exact hnew.2
      · have := h.fresh id hold
        omega
    · cases ref with
      | pull => exact absurd href hpull'
      | task id => exact hrest _ href
  | result id rest task result hpc hfind =>
    obtain ⟨hnodup, hid, hrest⟩ := h.rest (.task id) rest (by rw [hpc]; rfl)
    have hsplit := (perm_find_eraseP hfind).map fun entry ↦ entry.1.id
    have htask : task.id = id := by simpa using List.find?_some hfind
    have hsub : ((state.complete.eraseP (·.1.id = id)).map fun entry ↦ entry.1.id).Sublist
        state.completeIds :=
      List.eraseP_sublist.map _
    refine ⟨h.nodup.sublist (hsub.append_left _), fun other hother ↦ ?_, ?_, ?_⟩
    · exact h.fresh other ((hsub.append_left _).mem hother)
    · rw [done_putNext]
      exact hnodup
    · rw [done_putNext]
      intro ref href
      have hdone := hrest ref href
      cases ref with
      | pull => exact hdone
      | task other =>
        have hmem := hsplit.mem_iff.mp hdone
        rw [List.map_cons, List.mem_cons, htask] at hmem
        obtain rfl | hmem := hmem
        · exact absurd href hid
        · exact hmem
  | put out outs done hpc =>
    have honce := h.once
    have hdone := h.isDone
    rw [hpc] at honce hdone
    refine ⟨h.nodup, h.fresh, ?_, ?_⟩
    · rw [done_putNext]
      exact honce
    · rw [done_putNext]
      exact hdone
  | pulled need items hpull hle =>
    refine ⟨h.nodup, h.fresh, h.once, fun ref href ↦ ?_⟩
    cases ref with
    | pull => exact ⟨need, items, rfl⟩
    | task id => exact h.isDone _ href
  | processed id result task hfind =>
    have hsplit := (perm_find_eraseP hfind).map Task.id
    have hperm : ((state.running.eraseP (·.id = id)).map Task.id ++
        ((state.complete ++ [(task, result)]).map fun entry ↦ entry.1.id)).Perm
        (state.runningIds ++ state.completeIds) := by
      refine .trans ?_ (hsplit.symm.append_right _)
      rw [List.map_append, ← List.append_assoc]
      exact List.perm_append_singleton task.id _
    refine ⟨hperm.nodup_iff.mpr h.nodup, fun other hother ↦ h.fresh other (hperm.mem_iff.mp hother), h.once,
      fun ref href ↦ ?_⟩
    have hdone := h.isDone ref href
    cases ref with
    | pull => exact hdone
    | task other =>
      show other ∈ (state.complete ++ [(task, result)]).map fun entry ↦ entry.1.id
      rw [List.map_append]
      exact List.mem_append_left _ hdone

/-- What holds where `_run_async` stands: it waits for something, puts something, and has returned with
nothing in flight. -/
def PcOk (state : State Item Out) : Pc Out → Prop
  | .waiting => state.inFlight ≠ 0 ∨ state.pull ≠ none
  | .putting outs _ => outs ≠ []
  | .returned => state.upstreamDone = true ∧ state.pull = none ∧ state.inFlight = 0
  | _ => True

/-- `upstream_done` is set by an empty answer only. -/
structure Looped (state : State Item Out) : Prop where
  answered : ∀ need items, state.pull = some ⟨need, some items⟩ → items ∈ state.answers
  ended : state.upstreamDone = true → [] ∈ state.answers
  pcOk : PcOk state state.pc

theorem pcOk_putNext (state : State Item Out) (outs : List Out) (done : List Ref) :
    PcOk state (putNext outs done) := by
  cases outs with
  | nil => trivial
  | cons out outs => exact List.cons_ne_nil out outs

theorem nextPull_eq_none (hpull : nextPull pool state = none) (hidle : state.inFlight = 0) :
    state.upstreamDone = true := by
  have hpos := pool.pos
  simp only [nextPull, hidle] at hpull
  split at hpull
  · cases hpull
  · rename_i hroom
    by_contra hdone
    exact hroom ⟨Option.isNone_iff_eq_none.mpr hpull, by simpa using hdone, by omega⟩

theorem Looped.top (h : Looped state) : Looped (stepTop pool state) := by
  have hpull : (stepTop pool state).pull = nextPull pool state := rfl
  have hpc : (stepTop pool state).pc =
      if state.inFlight = 0 ∧ (nextPull pool state).isNone then Pc.returned else Pc.waiting := rfl
  refine ⟨fun need items hsome ↦ ?_, h.ended, ?_⟩
  · obtain ⟨hasks, hnone⟩ | hsame := nextPull_cases pool state
    · rw [hpull, hasks] at hsome
      cases hsome
    · rw [hpull, hsame] at hsome
      exact h.answered need items hsome
  · rw [hpc]
    split
    · rename_i hidle
      have hnone : nextPull pool state = none := Option.isNone_iff_eq_none.mp hidle.2
      have hidle' : state.inFlight = 0 := hidle.1
      have hover : state.upstreamDone = true := nextPull_eq_none hnone hidle'
      exact ⟨hover, hnone, hidle'⟩
    · rename_i hbusy
      by_cases hidle : state.inFlight = 0
      · exact .inr fun hnone ↦ hbusy ⟨hidle, Option.isNone_iff_eq_none.mpr hnone⟩
      · exact .inl hidle

theorem Looped.move (h : Looped state) (hmove : Move pool state next) : Looped next := by
  cases hmove with
  | top hpc => exact h.top
  | wake | again => exact ⟨h.answered, h.ended, trivial⟩
  | ends rest need hpc hpull =>
    refine ⟨?_, fun _ ↦ h.answered need [] hpull, trivial⟩
    intro need items hsome
    cases hsome
  | starts =>
    refine ⟨?_, h.ended, trivial⟩
    intro need items hsome
    cases hsome
  | result id rest task result => exact ⟨h.answered, h.ended, pcOk_putNext _ result.outs rest⟩
  | put out outs done => exact ⟨h.answered, h.ended, pcOk_putNext _ outs done⟩
  | pulled need items hpull hle =>
    have hpcOk := h.pcOk
    refine ⟨fun need' items' hsome ↦ ?_, fun hdone ↦ List.mem_append_left _ (h.ended hdone), ?_⟩
    · cases hsome
      exact List.mem_append_right _ (List.mem_singleton_self items)
    · show PcOk _ state.pc
      cases hpc : state.pc with
      | waiting => exact .inr fun hnone ↦ by cases hnone
      | returned =>
        rw [hpc] at hpcOk
        rw [hpcOk.2.1] at hpull
        cases hpull
      | putting outs done =>
        rw [hpc] at hpcOk
        exact hpcOk
      | top | handling | failed => trivial
  | processed id result task hfind =>
    have hpcOk := h.pcOk
    have hlength := (perm_find_eraseP hfind).length_eq
    rw [List.length_cons] at hlength
    refine ⟨h.answered, h.ended, ?_⟩
    show PcOk _ state.pc
    cases hpc : state.pc with
    | waiting =>
      refine .inl ?_
      show (state.running.eraseP (·.id = id)).length + (state.complete ++ [(task, result)]).length ≠ 0
      rw [List.length_append, List.length_singleton]
      omega
    | returned =>
      rw [hpc] at hpcOk
      have hidle := hpcOk.2.2
      rw [State.inFlight] at hidle
      omega
    | putting outs done =>
      rw [hpc] at hpcOk
      exact hpcOk
    | top | handling | failed => trivial

theorem exists_find {α : Type*} (list : List α) (p : α → Bool) (element : α) (hmem : element ∈ list)
    (hp : p element = true) : ∃ found, list.find? p = some found :=
  Option.isSome_iff_exists.mp (List.find?_isSome.mpr ⟨element, hmem, hp⟩)

theorem exists_stepHandle (hsorted : Sorted state) {done : List Ref} (hpc : state.pc = .handling done) :
    ∃ next, stepHandle state done = some next := by
  unfold stepHandle
  have hdone := hsorted.isDone
  rw [hpc] at hdone
  match done with
  | [] => exact ⟨_, rfl⟩
  | .pull :: rest =>
    obtain ⟨need, items, hpull⟩ := hdone .pull List.mem_cons_self
    rw [hpull]
    cases items <;> exact ⟨_, rfl⟩
  | .task id :: rest =>
    have hid := hdone (.task id) List.mem_cons_self
    obtain ⟨entry, hmem, hentry⟩ := List.mem_map.mp hid
    obtain ⟨⟨task, result⟩, hfound⟩ :=
      exists_find state.complete (·.1.id = id) entry hmem (by simpa using hentry)
    dsimp only
    rw [hfound]
    cases result <;> exact ⟨_, rfl⟩

/-- A loop that waits is woken once a task or the pull is done; until then one of them can be. -/
theorem exists_wake (hpc : state.pc = .waiting) (hwaits : state.inFlight ≠ 0 ∨ state.pull ≠ none) :
    ∃ action next, step pool state action = some next := by
  by_cases hdone : state.done = []
  · have hcomplete : state.complete = [] := by
      rw [State.done, List.append_eq_nil_iff, List.map_eq_nil_iff] at hdone
      exact hdone.2
    cases hrunning : state.running with
    | cons task rest =>
      obtain ⟨found, hfound⟩ := exists_find state.running (·.id = task.id) task
        (by rw [hrunning]; exact List.mem_cons_self) (by simp)
      refine ⟨.processed task.id .none, ?_⟩
      simp only [step, hfound]
      exact ⟨_, rfl⟩
    | nil =>
      have hpull : state.pull ≠ none := by
        refine hwaits.resolve_left ?_
        simp [State.inFlight, hrunning, hcomplete]
      obtain ⟨⟨need, answer⟩, hsome⟩ := Option.ne_none_iff_exists'.mp hpull
      cases answer with
      | none =>
        refine ⟨.pulled [], ?_⟩
        simp only [step, hsome, List.length_nil, Nat.zero_le, if_true]
        exact ⟨_, rfl⟩
      | some items =>
        have hmem := (mem_done_iff state .pull).mpr ⟨need, items, hsome⟩
        rw [hdone] at hmem
        cases hmem
  · refine ⟨.wake state.done, ?_⟩
    simp only [step, hpc, hdone, ne_eq, not_false_eq_true, List.Perm.refl, and_self, if_true]
    exact ⟨_, rfl⟩

/-- Until it returns, the loop can always go on: a step of its own, a task or the pull. -/
theorem exists_step (htame : Tame state) (hsorted : Sorted state) (hlooped : Looped state)
    (hpc : state.pc ≠ .returned) : ∃ action next, step pool state action = some next := by
  have hpcOk := hlooped.pcOk
  cases hcase : state.pc with
  | top => exact ⟨.top, stepTop pool state, by simp only [step, hcase]⟩
  | waiting =>
    rw [hcase] at hpcOk
    exact exists_wake hcase hpcOk
  | handling done =>
    obtain ⟨next, hnext⟩ := exists_stepHandle hsorted hcase
    exact ⟨.handle, next, by simpa only [step, hcase] using hnext⟩
  | putting outs done =>
    rw [hcase] at hpcOk
    obtain ⟨out, rest, rfl⟩ := List.exists_cons_of_ne_nil hpcOk
    refine ⟨.put, ?_⟩
    simp only [step, hcase]
    exact ⟨_, rfl⟩
  | returned => exact absurd hcase hpc
  | failed => exact absurd hcase htame.pc_ne

end Progress

section Runs

variable {Item Out : Type*} {pool : Pool} {state next : State Item Out}

structure Inv (pool : Pool) (state : State Item Out) : Prop where
  tame : Tame state
  bounded : Bounded pool state
  conserved : Conserved state
  sorted : Sorted state
  looped : Looped state

theorem inv_start (pool : Pool) : Inv pool (machine Item Out pool).start := by
  have hnone : ∀ need items, (machine Item Out pool).start.pull ≠ some ⟨need, some items⟩ := by
    intro need items hsome
    cases hsome
  refine ⟨⟨fun entry hentry ↦ absurd hentry List.not_mem_nil, by simp [machine]⟩,
    ⟨Nat.zero_le _, fun need items h ↦ absurd h (hnone need items)⟩, ⟨.refl _, .refl _⟩, ?_, ?_⟩
  · exact ⟨List.nodup_nil, fun id hid ↦ absurd hid List.not_mem_nil, List.nodup_nil,
      fun ref href ↦ absurd href List.not_mem_nil⟩
  · refine ⟨fun need items h ↦ absurd h (hnone need items), ?_, trivial⟩
    intro hover
    cases hover

/-- The invariant of the loop. -/
theorem inv_of_reachable (h : ((machine Item Out pool).restrict catches).Reachable state) : Inv pool state := by
  have hstart : Inv pool ((machine Item Out pool).restrict catches).start := inv_start pool
  refine h.invariant (Inv pool) hstart ?_
  intro state action next hinv hstep
  obtain ⟨hcatches, hnext⟩ := Machine.restrict_step hstep
  have hmove := step_move hinv.tame hcatches hnext
  exact ⟨hinv.tame.move hmove, hinv.bounded.move hmove, hinv.conserved.move hmove, hinv.sorted.move hmove,
    hinv.looped.move hmove⟩

/-- `_run_async` is through: some pull answered `[]`, nothing is in flight, each pulled item was processed
once, and each element of a result was put once; an item whose `process()` raised has none. -/
structure Through (state : State Item Out) : Prop where
  ended : [] ∈ state.answers
  pull : state.pull = none
  idle : state.running = [] ∧ state.complete = []
  items : (state.results.map Prod.fst).Perm state.answers.flatten
  outs : state.emitted.Perm (state.results.flatMap fun entry ↦ entry.2.outs)

/-- When the loop returns, every item has been processed and every result put. -/
theorem Inv.through (h : Inv pool state) (hpc : state.pc = .returned) : Through state := by
  obtain ⟨hover, hpull, hidle⟩ : PcOk state .returned := hpc ▸ h.looped.pcOk
  have hempty : state.running = [] ∧ state.complete = [] := by
    simpa [State.inFlight] using hidle
  have hitems := h.conserved.items
  have houts := h.conserved.outs
  rw [State.waitingItems, hpull, hempty.1] at hitems
  rw [hpc, hempty.2] at houts
  exact ⟨h.looped.ended hover, hpull, hempty, hitems.symm, houts.symm⟩

/-- The pool conserves items: at most `max_concurrent` tasks are in flight, every pulled item and every element
of a result is in one place, the loop goes on until it returns, and it returns only when it is through. -/
structure Conserves (pool : Pool) (state : State Item Out) : Prop where
  inFlight_le : state.inFlight ≤ pool.maxConcurrent
  conserved : Conserved state
  goes_on : state.pc ≠ .returned → ∃ action next, step pool state action = some next
  through : state.pc = .returned → Through state

/-- In every order in which pulls, tasks and puts complete, as long as `process()` raises exceptions only. -/
theorem conserves (pool : Pool) (state : State Item Out)
    (h : ((machine Item Out pool).restrict catches).Reachable state) : Conserves pool state := by
  have hinv := inv_of_reachable h
  exact {
    inFlight_le := (Nat.le_add_right _ _).trans hinv.bounded.room
    conserved := hinv.conserved
    goes_on := exists_step hinv.tame hinv.sorted hinv.looped
    through := hinv.through }

def pair : Pool := ⟨2, Nat.le_succ 1⟩

/-- Two tasks at once of which one raises, then a list with a `None`. -/
def threeItems : List (Action ℕ ℕ) :=
  [.top, .pulled [1, 2], .wake [.pull], .handle, .handle, .top, .processed 1 .raised, .processed 0 (.item 10),
    .wake [.task 1, .task 0], .handle, .handle, .put, .handle, .top, .pulled [3], .wake [.pull], .handle,
    .handle, .top, .pulled [], .processed 2 (.list [some 20, none]), .wake [.task 2, .pull], .handle, .put,
    .handle, .handle, .top]

/-- A task that raises costs its own result and no other. -/
theorem conserves_threeItems :
    ∃ last, ((machine ℕ ℕ pair).restrict catches).runFrom (machine ℕ ℕ pair).start threeItems = some last ∧
      last.emitted = [10, 20] ∧ Through last :=
  ⟨_, rfl, rfl, (conserves pair _ ⟨threeItems, rfl⟩).through rfl⟩

/-- A task that raises `CancelledError` ends the loop, and the other item in flight is not processed. -/
theorem not_conserves : ¬∀ (pool : Pool) (state : State ℕ ℕ), (machine ℕ ℕ pool).Reachable state →
    Conserves pool state := by
  intro hall
  have hitems := (hall pair _ ⟨[.top, .pulled [1, 2], .wake [.pull], .handle, .handle, .top,
    .processed 0 .cancelled, .wake [.task 0], .handle], rfl⟩).conserved.items
  exact absurd hitems.length_eq (by decide)

end Runs

end GpuPipe.AsyncPool
