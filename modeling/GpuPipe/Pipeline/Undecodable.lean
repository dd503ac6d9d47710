import Mathlib.Algebra.Order.Group.Multiset
import GpuPipe.Library.Machine
import GpuPipe.Library.Totals

/-!
# Messages that cannot be decoded

The workers of a call loop read one queue, unpack chunks and collect batches. A message whose decoding
raises leaves `get` with an exception; where the worker stands then decides which handler takes it, and
with it what becomes of the items the worker has in its local variables. Stops from outside, drains and
`WorkerStop` are left out, and so is what the stage's call returns.
-/

namespace GpuPipe.Undecodable

/-- The exceptions the handlers tell apart. `connection` is `ConnectionError` and `FileNotFoundError`, `io`
any other `OSError`, and `EOFError`. -/
inductive Fault
  | empty
  | connection
  | io
  | other
  deriving DecidableEq

/-- A message on the queue. No chunk has a sentinel inside. -/
inductive Wire (Item : Type*)
  | item (item : Item)
  | fin
  | chunk (items : List Item)
  | undecodable (fault : Fault)

/-- What a call of `get` gives: a payload, which is `none` for `End`, or an exception. -/
inductive Got (Item : Type*)
  | payload (payload : Option Item)
  | raised (fault : Fault)

/-- Where a worker is in its loop: before the test of `should_stop`, in its `get`, before the second test
of a thread, collecting a batch, about to call the stage, out of the loop. -/
inductive Phase (Item : Type*)
  | testing
  | polling
  | checking (payload : Option Item)
  | batching (batch : List Item)
  | calling (batch : List Item)
  | left

structure Loop (Item : Type*) where
  phase : Phase Item
  buffer : List Item
  empties : ℕ

/-- `put` and `passed` are history: the items put on the queue, and the batches passed to the stage. -/
structure State (Worker Item : Type*) where
  loop : Worker → Loop Item
  queue : List (Wire Item)
  shouldStop : ℕ
  put : List Item
  passed : List (Worker × List Item)

/-- The options of a stage; `threshold` is `EMPTY_THRESHOLD`. -/
structure Stage where
  threaded : Bool
  batchSize : ℕ
  threshold : ℕ

inductive Action (Worker Item : Type*)
  | put (wire : Wire Item)
  | test (worker : Worker)
  /-- `upstreamDone` is what the event says if the `get` raises `Empty`. -/
  | get (worker : Worker) (upstreamDone : Bool)
  /-- the deadline of a batch -/
  | expire (worker : Worker)
  | call (worker : Worker)

section Items

variable {Item : Type*}

def Wire.items : Wire Item → List Item
  | .item value => [value]
  | .chunk values => values
  | .fin | .undecodable _ => []

def Phase.items : Phase Item → List Item
  | .checking payload => payload.toList
  | .batching batch | .calling batch => batch
  | .testing | .polling | .left => []

@[simp] theorem Phase.items_checking (payload : Option Item) : (checking payload).items = payload.toList := rfl

@[simp] theorem Phase.items_batching (batch : List Item) : (batching batch).items = batch := rfl

@[simp] theorem Phase.items_calling (batch : List Item) : (calling batch).items = batch := rfl

@[simp] theorem Phase.items_testing : (testing : Phase Item).items = [] := rfl

@[simp] theorem Phase.items_polling : (polling : Phase Item).items = [] := rfl

@[simp] theorem Phase.items_left : (left : Phase Item).items = [] := rfl

def Got.items : Got Item → List Item
  | .payload value => value.toList
  | .raised _ => []

/-- The items a worker has taken and not passed. -/
def Loop.held (loop : Loop Item) : List Item := loop.phase.items ++ loop.buffer

/-- `in_ch.get`: an empty chunk raises an `IndexError`, as `popleft` does. -/
def get (buffer : List Item) (queue : List (Wire Item)) : Got Item × List Item × List (Wire Item) :=
  match buffer, queue with
  | item :: rest, queue => (.payload (some item), rest, queue)
  | [], [] => (.raised .empty, [], [])
  | [], .item item :: queue => (.payload (some item), [], queue)
  | [], .fin :: queue => (.payload none, [], queue)
  | [], .chunk (item :: rest) :: queue => (.payload (some item), rest, queue)
  | [], .chunk [] :: queue => (.raised .other, [], queue)
  | [], .undecodable fault :: queue => (.raised fault, [], queue)

end Items

section Steps

variable {Worker Item : Type*} [DecidableEq Worker] (stage : Stage) (state : State Worker Item)
  (worker : Worker)

def State.setLoop (loop : Loop Item) : State Worker Item :=
  { state with loop := Function.update state.loop worker loop }

/-- `batch = [item]`, or the item on its own; a batch of one is full. -/
def begin (payload : Option Item) : Phase Item :=
  match payload with
  | none => .testing
  | some item => if 1 < stage.batchSize then .batching [item] else .calling [item]

/-- `while not should_stop.value`, and the second test of a thread, which puts back what it has. -/
def stepTest : Option (State Worker Item) :=
  let loop := state.loop worker
  match loop.phase with
  | .testing =>
    if state.shouldStop = 0 then some (state.setLoop worker { loop with phase := .polling })
    else some (state.setLoop worker { loop with phase := .left, buffer := [] })
  | .checking payload =>
    if state.shouldStop = 0 then some (state.setLoop worker { loop with phase := begin stage payload })
    else
      let item : Wire Item :=
        match payload with
        | none => .fin
        | some item => .item item
      let buffered : List (Wire Item) := if loop.buffer = [] then [] else [.chunk loop.buffer]
      some { state.setLoop worker { loop with phase := .left, buffer := [] } with
        queue := state.queue ++ item :: buffered }
  | _ => none

/-- The loop's own `get`. -/
def afterPoll (empties : ℕ) (upstreamDone : Bool) : Got Item → Phase Item × ℕ
  | .payload payload => (if stage.threaded then .checking payload else begin stage payload, 0)
  | .raised .empty =>
    (if upstreamDone && stage.threshold ≤ empties + 1 then .left else .testing, empties + 1)
  | .raised .connection | .raised .io => (.left, empties)
  -- logged by the handler of the loop, which goes on
  | .raised .other => (.testing, empties)

/-- A `get` of the batch: the next phase, and `should_stop`. Its own handler is for `Empty` only. -/
def afterCollect (shouldStop : ℕ) (batch : List Item) : Got Item → Phase Item × ℕ
  | .payload none => (.batching batch, shouldStop)
  | .payload (some item) =>
    (if batch.length + 1 < stage.batchSize then .batching (batch ++ [item]) else .calling (batch ++ [item]),
      shouldStop)
  | .raised .empty => (.batching batch, shouldStop)
  | .raised .connection => (.left, 2)
  | .raised .io | .raised .other => (.testing, shouldStop)

def stepGet (upstreamDone : Bool) : Option (State Worker Item) :=
  let loop := state.loop worker
  let result := get loop.buffer state.queue
  match loop.phase with
  | .polling =>
    let after := afterPoll stage loop.empties upstreamDone result.1
    some { state.setLoop worker ⟨after.1, result.2.1, after.2⟩ with queue := result.2.2 }
  | .batching batch =>
    let after := afterCollect stage state.shouldStop batch result.1
    some { state.setLoop worker ⟨after.1, result.2.1, loop.empties⟩ with
      queue := result.2.2, shouldStop := after.2 }
  | _ => none

def stepExpire : Option (State Worker Item) :=
  let loop := state.loop worker
  match loop.phase with
  | .batching batch => some (state.setLoop worker { loop with phase := .calling batch })
  | _ => none

def stepCall : Option (State Worker Item) :=
  let loop := state.loop worker
  match loop.phase with
  | .calling batch =>
    some { state.setLoop worker { loop with phase := .testing } with
      passed := state.passed ++ [(worker, batch)] }
  | _ => none

def step : Action Worker Item → Option (State Worker Item)
  | .put wire => some { state with queue := state.queue ++ [wire], put := state.put ++ wire.items }
  | .test worker => stepTest stage state worker
  | .get worker upstreamDone => stepGet stage state worker upstreamDone
  | .expire worker => stepExpire state worker
  | .call worker => stepCall state worker

end Steps

/-- Workers before their loops, and a queue with these messages. -/
def machine (Worker : Type*) {Item : Type*} [DecidableEq Worker] (stage : Stage)
    (content : List (Wire Item)) : Machine (State Worker Item) (Action Worker Item) where
  start := ⟨fun _ ↦ ⟨.testing, [], 0⟩, content, 0, content.flatMap Wire.items, []⟩
  step := step stage

section Totals

variable {Worker Item : Type*} [DecidableEq Worker] {stage : Stage} {state next : State Worker Item}
  {action : Action Worker Item} {worker : Worker}

@[simp] theorem setLoop_passed (loop : Loop Item) : (state.setLoop worker loop).passed = state.passed := rfl

def State.queued (state : State Worker Item) : List Item := state.queue.flatMap Wire.items

def inBatches (passed : List (Worker × List Item)) : List Item := passed.flatMap Prod.snd

/-- The items that have been passed, are held by a worker in its loop, or are on the queue. -/
def total [Fintype Worker] (state : State Worker Item) : Multiset Item :=
  (inBatches state.passed : Multiset Item) + ∑ worker, ((state.loop worker).held : Multiset Item) +
    (state.queued : Multiset Item)

/-- Every item that was put is in one of these places, once. -/
def Kept [Fintype Worker] (state : State Worker Item) : Prop := total state = state.put

instance [Fintype Worker] [DecidableEq Item] : Decidable (Kept state) :=
  inferInstanceAs (Decidable (total state = state.put))

/-- No `get` of a batch raises anything but `Empty`. -/
def sound (state : State Worker Item) : Action Worker Item → Bool
  | .get worker _ =>
    match (state.loop worker).phase, (get (state.loop worker).buffer state.queue).1 with
    | .batching _, .raised fault => fault = .empty
    | _, _ => true
  | _ => true

/-- A call of `get` moves items from the queue to the buffer to the caller, in their order. -/
theorem get_items (buffer : List Item) (queue : List (Wire Item)) :
    (get buffer queue).1.items ++ (get buffer queue).2.1 ++ (get buffer queue).2.2.flatMap Wire.items =
      buffer ++ queue.flatMap Wire.items := by
  unfold get
  split <;> simp [Got.items, Wire.items]

@[simp] theorem begin_items (payload : Option Item) : (begin stage payload).items = payload.toList := by
  cases payload with
  | none => rfl
  | some item =>
    rw [begin]
    split <;> rfl

theorem afterPoll_items (empties : ℕ) (upstreamDone : Bool) (got : Got Item) :
    (afterPoll stage empties upstreamDone got).1.items = got.items := by
  rcases got with payload | fault
  · simp only [afterPoll]
    split
    · rfl
    · exact begin_items payload
  · cases fault with
    | empty =>
      simp only [afterPoll]
      split <;> rfl
    | connection | io | other => rfl

theorem afterCollect_items (stage : Stage) (shouldStop : ℕ) (batch : List Item) {got : Got Item}
    (h : ∀ fault, got = .raised fault → fault = .empty) :
    (afterCollect stage shouldStop batch got).1.items = batch ++ got.items ∧
      (afterCollect stage shouldStop batch got).2 = shouldStop := by
  rcases got with (_ | item) | fault
  · exact ⟨(List.append_nil batch).symm, rfl⟩
  · refine ⟨?_, rfl⟩
    simp only [afterCollect]
    split <;> rfl
  · obtain rfl := h fault rfl
    exact ⟨(List.append_nil batch).symm, rfl⟩

/-- An exception of a batch's `get` leaves nothing of the batch. -/
theorem afterCollect_raised (stage : Stage) (shouldStop : ℕ) (batch : List Item) {fault : Fault}
    (h : fault ≠ .empty) :
    (afterCollect stage shouldStop batch (.raised fault)).1.items = [] := by
  cases fault with
  | empty => exact absurd rfl h
  | connection | io | other => rfl

/-- One worker moves, the queue and the passed batches with it. -/
theorem total_setLoop [Fintype Worker] (loop : Loop Item) (queue : List (Wire Item)) (shouldStop : ℕ)
    (passed : List (Worker × List Item)) (dropped : Multiset Item)
    (h : (inBatches passed : Multiset Item) + loop.held + (queue.flatMap Wire.items : Multiset Item) + dropped =
      (inBatches state.passed : Multiset Item) + (state.loop worker).held + (state.queued : Multiset Item)) :
    total { state.setLoop worker loop with queue := queue, shouldStop := shouldStop, passed := passed } +
      dropped = total state := by
  have hbalance : (loop.held : Multiset Item) +
      ((inBatches passed : Multiset Item) + (queue.flatMap Wire.items : Multiset Item) + dropped) =
        ((state.loop worker).held : Multiset Item) +
          ((inBatches state.passed : Multiset Item) + state.queued) := by
    calc
      (loop.held : Multiset Item) +
            ((inBatches passed : Multiset Item) + (queue.flatMap Wire.items : Multiset Item) + dropped) =
          (inBatches passed : Multiset Item) + loop.held + (queue.flatMap Wire.items : Multiset Item) +
            dropped := by abel
      _ = (inBatches state.passed : Multiset Item) + (state.loop worker).held +
            (state.queued : Multiset Item) := h
      _ = ((state.loop worker).held : Multiset Item) +
            ((inBatches state.passed : Multiset Item) + state.queued) := by abel
  have hsum := sum_update_add_of_balance (fun loop : Loop Item ↦ (loop.held : Multiset Item)) state.loop worker
    loop hbalance
  calc
    total { state.setLoop worker loop with queue := queue, shouldStop := shouldStop, passed := passed } +
          dropped =
        ∑ other, ((Function.update state.loop worker loop other).held : Multiset Item) +
          ((inBatches passed : Multiset Item) + (queue.flatMap Wire.items : Multiset Item) + dropped) := by
      simp only [total, State.setLoop, State.queued]
      abel
    _ = total state := by
      rw [hsum, total]
      abel

/-- What a step does with the items: it keeps them all, drops the batch of a `get` that raised, or leaves
the loop of a pipe that stops. -/
inductive Effect [Fintype Worker] (state next : State Worker Item) : Bool → Prop
  | kept (added : Multiset Item) (hput : (next.put : Multiset Item) = state.put + added)
      (htotal : total next = total state + added) (hstop : next.shouldStop = state.shouldStop) :
      Effect state next true
  | lost (dropped : Multiset Item) (hne : dropped ≠ 0) (hput : next.put = state.put)
      (htotal : total next + dropped = total state) : Effect state next false
  | abandoned (dropped : Multiset Item) (hput : next.put = state.put)
      (htotal : total next + dropped = total state) (hstop : state.shouldStop ≠ 0)
      (hsame : next.shouldStop = state.shouldStop) : Effect state next true

/-- The same with nothing dropped. -/
theorem Effect.moved [Fintype Worker] (loop : Loop Item) (queue : List (Wire Item))
    (passed : List (Worker × List Item))
    (h : (inBatches passed : Multiset Item) + loop.held + (queue.flatMap Wire.items : Multiset Item) =
      (inBatches state.passed : Multiset Item) + (state.loop worker).held + (state.queued : Multiset Item)) :
    Effect state { state.setLoop worker loop with
      queue := queue, shouldStop := state.shouldStop, passed := passed } true := by
  refine .kept 0 (by simp [State.setLoop]) ?_ rfl
  have htotal := total_setLoop loop queue state.shouldStop passed 0 (by rwa [add_zero])
  rw [add_zero] at htotal
  rw [htotal, add_zero]

/-- The test of the stop flag drops nothing. -/
theorem stepTest_effect [Fintype Worker] (h : stepTest stage state worker = some next) :
    Effect state next true := by
  simp only [stepTest] at h
  split at h
  · rename_i hphase
    split at h
    · cases h
      apply Effect.moved
      simp only [Loop.held, hphase, Phase.items_testing, Phase.items_polling, State.queued]
    · rename_i hstop
      cases h
      refine .abandoned (state.loop worker).buffer rfl ?_ hstop rfl
      apply total_setLoop
      simp only [Loop.held, hphase, Phase.items_testing, Phase.items_left, State.queued, List.append_nil,
        List.nil_append, Multiset.coe_nil]
      abel
  · rename_i payload hphase
    split at h
    · cases h
      apply Effect.moved
      simp only [Loop.held, hphase, begin_items, Phase.items_checking, State.queued]
    · cases h
      apply Effect.moved
      have hitems : (if (state.loop worker).buffer = [] then [] else
          [Wire.chunk (state.loop worker).buffer]).flatMap Wire.items = (state.loop worker).buffer := by
        split
        · rename_i hbuffer
          exact hbuffer.symm
        · exact List.flatMap_singleton ..
      simp only [Loop.held, hphase, Phase.items_checking, Phase.items_left, State.queued, List.append_nil,
        List.flatMap_append, List.flatMap_cons, hitems, setLoop_passed, ← Multiset.coe_add, Multiset.coe_nil]
      cases payload with
      | none =>
        simp only [Wire.items, Option.toList_none, Multiset.coe_nil, zero_add]
        abel
      | some item =>
        simp only [Wire.items, Option.toList_some]
        abel
  · cases h

theorem get_coe (buffer : List Item) (queue : List (Wire Item)) :
    ((get buffer queue).1.items : Multiset Item) + (get buffer queue).2.1 +
      ((get buffer queue).2.2.flatMap Wire.items : Multiset Item) =
        (buffer : Multiset Item) + (queue.flatMap Wire.items : Multiset Item) := by
  simp only [Multiset.coe_add, get_items]

theorem polling_effect [Fintype Worker] (upstreamDone : Bool)
    (hphase : (state.loop worker).phase = .polling) :
    let result := get (state.loop worker).buffer state.queue
    let after := afterPoll stage (state.loop worker).empties upstreamDone result.1
    Effect state { state.setLoop worker ⟨after.1, result.2.1, after.2⟩ with queue := result.2.2 } true := by
  have hcoe := get_coe (state.loop worker).buffer state.queue
  apply Effect.moved
  simp only [Loop.held, hphase, afterPoll_items, Phase.items_polling, State.queued, setLoop_passed,
    List.nil_append, ← Multiset.coe_add]
  rw [add_assoc _ ((state.loop worker).buffer : Multiset Item), ← hcoe]
  abel

/-- A `get` of a batch that finds an item, an `End` or nothing. -/
theorem collect_effect [Fintype Worker] {batch : List Item}
    (hphase : (state.loop worker).phase = .batching batch)
    (hgot : ∀ fault, (get (state.loop worker).buffer state.queue).1 = .raised fault → fault = .empty) :
    let result := get (state.loop worker).buffer state.queue
    let after := afterCollect stage state.shouldStop batch result.1
    Effect state { state.setLoop worker ⟨after.1, result.2.1, (state.loop worker).empties⟩ with
      queue := result.2.2, shouldStop := after.2 } true := by
  have hcoe := get_coe (state.loop worker).buffer state.queue
  obtain ⟨hitems, hstop⟩ := afterCollect_items stage state.shouldStop batch hgot
  dsimp only
  rw [hstop]
  apply Effect.moved
  simp only [Loop.held, hphase, hitems, Phase.items_batching, State.queued, setLoop_passed,
    ← Multiset.coe_add]
  rw [← add_assoc (inBatches state.passed : Multiset Item) (batch : Multiset Item),
    add_assoc _ ((state.loop worker).buffer : Multiset Item), ← hcoe]
  abel

/-- A `get` of a batch that raises. -/
theorem raised_effect [Fintype Worker] {batch : List Item} {fault : Fault}
    (hphase : (state.loop worker).phase = .batching batch) (hne : batch ≠ [])
    (hgot : (get (state.loop worker).buffer state.queue).1 = .raised fault) (hfault : fault ≠ .empty) :
    let result := get (state.loop worker).buffer state.queue
    let after := afterCollect stage state.shouldStop batch result.1
    Effect state { state.setLoop worker ⟨after.1, result.2.1, (state.loop worker).empties⟩ with
      queue := result.2.2, shouldStop := after.2 } false := by
  have hcoe := get_coe (state.loop worker).buffer state.queue
  refine .lost (batch : Multiset Item) (by simpa using hne) rfl ?_
  apply total_setLoop
  have hitems := afterCollect_raised stage state.shouldStop batch hfault
  rw [hgot] at hcoe
  simp only [Got.items, Multiset.coe_nil, zero_add] at hcoe
  simp only [Loop.held, hphase, hgot, hitems, Phase.items_batching, State.queued, setLoop_passed,
    List.nil_append, ← Multiset.coe_add]
  rw [add_assoc (inBatches state.passed : Multiset Item), hcoe]
  abel

/-- A `get` drops the batch collected so far if it raises anything but `Empty`, and nothing else. -/
theorem stepGet_effect [Fintype Worker] {upstreamDone : Bool}
    (hbatch : ∀ batch, (state.loop worker).phase = .batching batch → batch ≠ [])
    (h : stepGet stage state worker upstreamDone = some next) :
    Effect state next (sound state (.get worker upstreamDone)) := by
  simp only [stepGet] at h
  split at h
  · rename_i hphase
    cases h
    have hsound : sound state (.get worker upstreamDone) = true := by simp [sound, hphase]
    rw [hsound]
    exact polling_effect upstreamDone hphase
  · rename_i batch hphase
    cases h
    by_cases hgot : ∀ fault, (get (state.loop worker).buffer state.queue).1 = .raised fault → fault = .empty
    · have hsound : sound state (.get worker upstreamDone) = true := by
        simp only [sound, hphase]
        split
        · rename_i fault _ hraised
          exact decide_eq_true (hgot fault hraised)
        · rfl
      rw [hsound]
      exact collect_effect hphase hgot
    · push Not at hgot
      obtain ⟨fault, hraised, hfault⟩ := hgot
      have hsound : sound state (.get worker upstreamDone) = false := by simp [sound, hphase, hraised, hfault]
      rw [hsound]
      exact raised_effect hphase (hbatch batch hphase) hraised hfault
  · cases h

theorem stepExpire_effect [Fintype Worker] (h : stepExpire state worker = some next) :
    Effect state next true := by
  simp only [stepExpire] at h
  split at h
  · rename_i batch hphase
    cases h
    apply Effect.moved
    simp only [Loop.held, hphase, Phase.items_batching, Phase.items_calling, State.queued]
  · cases h

theorem stepCall_effect [Fintype Worker] (h : stepCall state worker = some next) :
    Effect state next true := by
  simp only [stepCall] at h
  split at h
  · rename_i batch hphase
    cases h
    apply Effect.moved
    simp only [Loop.held, hphase, Phase.items_testing, Phase.items_calling, State.queued, inBatches,
      List.flatMap_append, List.flatMap_singleton, List.nil_append, ← Multiset.coe_add]
    abel
  · cases h

/-- What one step does to the items, and when it drops some. -/
theorem step_effect [Fintype Worker]
    (hbatch : ∀ worker batch, (state.loop worker).phase = .batching batch → batch ≠ [])
    (h : step stage state action = some next) : Effect state next (sound state action) := by
  cases action with
  | put wire =>
    cases h
    refine .kept (wire.items : Multiset Item) (Multiset.coe_add _ _).symm ?_ rfl
    simp only [total, State.queued, List.flatMap_append, List.flatMap_singleton, ← Multiset.coe_add,
      add_assoc]
  | test worker => exact stepTest_effect h
  | get worker upstreamDone => exact stepGet_effect (hbatch worker) h
  | expire worker => exact stepExpire_effect h
  | call worker => exact stepCall_effect h

end Totals

section Sizes

variable {Worker Item : Type*} [DecidableEq Worker] {stage : Stage} {state next : State Worker Item}
  {action : Action Worker Item} {worker : Worker}

/-- A batch for the stage has one item at least and `batch_size` at most; without batches it is one item. -/
def Fits (stage : Stage) (batch : List Item) : Prop :=
  1 ≤ batch.length ∧ batch.length ≤ max 1 stage.batchSize

def Phase.Fits (stage : Stage) : Phase Item → Prop
  | batching batch => 1 ≤ batch.length ∧ batch.length < stage.batchSize
  | calling batch => Undecodable.Fits stage batch
  | _ => True

structure Sized (stage : Stage) (state : State Worker Item) : Prop where
  phase : ∀ worker, (state.loop worker).phase.Fits stage
  passed : ∀ entry ∈ state.passed, Fits stage entry.2

theorem begin_fits (stage : Stage) (payload : Option Item) : (begin stage payload).Fits stage := by
  cases payload with
  | none => trivial
  | some item =>
    rw [begin]
    split
    · rename_i hlt
      exact ⟨le_rfl, hlt⟩
    · exact ⟨le_rfl, le_max_left _ _⟩

theorem afterPoll_fits (stage : Stage) (empties : ℕ) (upstreamDone : Bool) (got : Got Item) :
    (afterPoll stage empties upstreamDone got).1.Fits stage := by
  rcases got with payload | fault
  · simp only [afterPoll]
    split
    · trivial
    · exact begin_fits stage payload
  · cases fault with
    | empty =>
      simp only [afterPoll]
      split <;> trivial
    | connection | io | other => trivial

theorem afterCollect_fits {batch : List Item} (h : (Phase.batching batch).Fits stage) (shouldStop : ℕ)
    (got : Got Item) : (afterCollect stage shouldStop batch got).1.Fits stage := by
  rcases got with (_ | item) | fault
  · exact h
  · have hbatch : 1 ≤ batch.length ∧ batch.length < stage.batchSize := h
    simp only [afterCollect]
    split
    · rename_i hlt
      exact ⟨by simp, by simpa using hlt⟩
    · refine ⟨by simp, ?_⟩
      rw [List.length_append, List.length_singleton]
      omega
  · cases fault with
    | empty => exact h
    | connection | io | other => trivial

theorem Sized.setLoop (h : Sized stage state) {loop : Loop Item} (hloop : loop.phase.Fits stage)
    (queue : List (Wire Item)) (shouldStop : ℕ) {passed : List (Worker × List Item)}
    (hpassed : ∀ entry ∈ passed, Fits stage entry.2) :
    Sized stage { state.setLoop worker loop with
      queue := queue, shouldStop := shouldStop, passed := passed } where
  phase := (Function.forall_update_iff _ fun _ (loop : Loop Item) ↦ loop.phase.Fits stage).mpr
    ⟨hloop, fun other _ ↦ h.phase other⟩
  passed := hpassed

/-- No batch is passed that is empty or larger than `batch_size`. -/
theorem Sized.step (h : Sized stage state) (hstep : step stage state action = some next) :
    Sized stage next := by
  cases action with
  | put wire =>
    cases hstep
    exact ⟨h.phase, h.passed⟩
  | test worker =>
    simp only [Undecodable.step, stepTest] at hstep
    split at hstep
    · split at hstep <;>
      · cases hstep
        refine h.setLoop ?_ _ _ h.passed
        trivial
    · rename_i payload hphase
      split at hstep
      · cases hstep
        exact h.setLoop (begin_fits stage payload) _ _ h.passed
      · cases hstep
        refine h.setLoop ?_ _ _ h.passed
        trivial
    · cases hstep
  | get worker upstreamDone =>
    simp only [Undecodable.step, stepGet] at hstep
    split at hstep
    · cases hstep
      exact h.setLoop (afterPoll_fits stage _ _ _) _ _ h.passed
    · rename_i batch hphase
      cases hstep
      have hbatch := h.phase worker
      rw [hphase] at hbatch
      exact h.setLoop (afterCollect_fits hbatch _ _) _ _ h.passed
    · cases hstep
  | expire worker =>
    simp only [Undecodable.step, stepExpire] at hstep
    split at hstep
    · rename_i batch hphase
      cases hstep
      have hbatch : (Phase.batching batch).Fits stage := hphase ▸ h.phase worker
      refine h.setLoop ?_ _ _ h.passed
      exact ⟨hbatch.1, hbatch.2.le.trans (le_max_right _ _)⟩
    · cases hstep
  | call worker =>
    simp only [Undecodable.step, stepCall] at hstep
    split at hstep
    · rename_i batch hphase
      cases hstep
      have hbatch : (Phase.calling batch).Fits stage := hphase ▸ h.phase worker
      refine h.setLoop ?_ _ _ fun entry hentry ↦ ?_
      · trivial
      rcases List.mem_append.mp hentry with hold | hnew
      · exact h.passed entry hold
      · rw [List.mem_singleton.mp hnew]
        exact hbatch
    · cases hstep

omit [DecidableEq Worker] in
theorem Sized.batch_ne_nil (h : Sized stage state) (worker : Worker) (batch : List Item)
    (hphase : (state.loop worker).phase = .batching batch) : batch ≠ [] := by
  have hbatch : (Phase.batching batch).Fits stage := hphase ▸ h.phase worker
  exact List.ne_nil_of_length_pos hbatch.1

/-- A worker that has left its loop has nothing left. -/
def LeavesNone (state : State Worker Item) : Prop :=
  ∀ worker, (state.loop worker).phase = .left → (state.loop worker).held = []

theorem get_raised {buffer : List Item} {queue : List (Wire Item)} {fault : Fault}
    (h : (get buffer queue).1 = .raised fault) : (get buffer queue).2.1 = [] := by
  unfold get at h ⊢
  split at h <;> first | rfl | cases h

theorem begin_ne_left (payload : Option Item) : begin stage payload ≠ .left := by
  cases payload with
  | none => exact nofun
  | some item =>
    rw [begin]
    split <;> exact nofun

theorem afterPoll_left {empties : ℕ} {upstreamDone : Bool} {got : Got Item}
    (h : (afterPoll stage empties upstreamDone got).1 = .left) : ∃ fault, got = .raised fault := by
  rcases got with payload | fault
  · simp only [afterPoll] at h
    split at h
    · cases h
    · exact absurd h (begin_ne_left payload)
  · exact ⟨fault, rfl⟩

theorem afterCollect_left {shouldStop : ℕ} {batch : List Item} {got : Got Item}
    (h : (afterCollect stage shouldStop batch got).1 = .left) : ∃ fault, got = .raised fault := by
  rcases got with (_ | item) | fault
  · cases h
  · simp only [afterCollect] at h
    split at h <;> cases h
  · exact ⟨fault, rfl⟩

theorem LeavesNone.setLoop (h : LeavesNone state) {loop : Loop Item}
    (hloop : loop.phase = .left → loop.buffer = []) (queue : List (Wire Item)) (shouldStop : ℕ)
    (passed : List (Worker × List Item)) :
    LeavesNone { state.setLoop worker loop with
      queue := queue, shouldStop := shouldStop, passed := passed } := by
  refine (Function.forall_update_iff _ fun _ (loop : Loop Item) ↦ loop.phase = .left → loop.held = []).mpr
    ⟨fun hleft ↦ ?_, fun other _ ↦ h other⟩
  rw [Loop.held, hleft, hloop hleft, Phase.items_left]
  rfl

/-- A worker leaves its loop only with an empty buffer. -/
theorem LeavesNone.step (h : LeavesNone state) (hstep : step stage state action = some next) :
    LeavesNone next := by
  cases action with
  | put wire =>
    cases hstep
    exact h
  | test worker =>
    simp only [Undecodable.step, stepTest] at hstep
    split at hstep
    · split at hstep
      · cases hstep
        refine h.setLoop ?_ _ _ _
        exact nofun
      · cases hstep
        exact h.setLoop (fun _ ↦ rfl) _ _ _
    · rename_i payload hphase
      split at hstep
      · cases hstep
        exact h.setLoop (fun hleft ↦ absurd hleft (begin_ne_left payload)) _ _ _
      · cases hstep
        exact h.setLoop (fun _ ↦ rfl) _ _ _
    · cases hstep
  | get worker upstreamDone =>
    simp only [Undecodable.step, stepGet] at hstep
    split at hstep
    · cases hstep
      refine h.setLoop (fun hleft ↦ ?_) _ _ _
      obtain ⟨fault, hraised⟩ := afterPoll_left hleft
      exact get_raised hraised
    · cases hstep
      refine h.setLoop (fun hleft ↦ ?_) _ _ _
      obtain ⟨fault, hraised⟩ := afterCollect_left hleft
      exact get_raised hraised
    · cases hstep
  | expire worker =>
    simp only [Undecodable.step, stepExpire] at hstep
    split at hstep
    · cases hstep
      refine h.setLoop ?_ _ _ _
      exact nofun
    · cases hstep
  | call worker =>
    simp only [Undecodable.step, stepCall] at hstep
    split at hstep
    · cases hstep
      refine h.setLoop ?_ _ _ _
      exact nofun
    · cases hstep

end Sizes

section Progress

variable {Worker Item : Type*} [DecidableEq Worker] {stage : Stage} {state next last : State Worker Item}
  {worker : Worker}

/-- Some moves of one worker lead from a state to another, while the pipe runs. -/
def Leads (stage : Stage) (state next : State Worker Item) : Prop :=
  ∃ actions, (machine Worker stage []).runFrom state actions = some next

theorem Leads.refl (state : State Worker Item) : Leads stage state state := ⟨[], rfl⟩

theorem Leads.head {action : Action Worker Item} (hstep : step stage state action = some next)
    (h : Leads stage next last) : Leads stage state last := by
  obtain ⟨actions, hrun⟩ := h
  exact ⟨action :: actions, Machine.runFrom_step hstep hrun⟩

/-- The worker can pass on all it holds, without taking anything more off the queue. -/
def CanPass (stage : Stage) (state : State Worker Item) (worker : Worker) : Prop :=
  ∃ last, Leads stage state last ∧ (last.loop worker).held = [] ∧ last.queue = state.queue

/-- A move that leaves the queue and `should_stop` alone and takes the worker here. -/
def Turns (stage : Stage) (state : State Worker Item) (worker : Worker) (loop : Loop Item) : Prop :=
  ∃ action next, step stage state action = some next ∧ next.loop worker = loop ∧
    next.queue = state.queue ∧ next.shouldStop = state.shouldStop

/-- A worker that can pass on its items after a move of its own can before it. -/
theorem Turns.canPass {loop : Loop Item} (h : Turns stage state worker loop)
    (hnext : ∀ next : State Worker Item, next.shouldStop = state.shouldStop → next.loop worker = loop →
      CanPass stage next worker) : CanPass stage state worker := by
  obtain ⟨action, next, hstep, hloop, hqueue, hstop⟩ := h
  obtain ⟨last, hlast, hheld, hsame⟩ := hnext next hstop hloop
  exact ⟨last, hlast.head hstep, hheld, hsame.trans hqueue⟩

theorem Turns.of_step {loop : Loop Item} (action : Action Worker Item) (passed : List (Worker × List Item))
    (h : step stage state action = some { state.setLoop worker loop with passed := passed }) :
    Turns stage state worker loop :=
  ⟨action, _, h, Function.update_self .., rfl, rfl⟩

theorem turns_call {batch : List Item} (hphase : (state.loop worker).phase = .calling batch) :
    Turns stage state worker { state.loop worker with phase := .testing } :=
  .of_step (.call worker) (state.passed ++ [(worker, batch)]) (by simp only [step, stepCall, hphase])

theorem turns_expire {batch : List Item} (hphase : (state.loop worker).phase = .batching batch) :
    Turns stage state worker { state.loop worker with phase := .calling batch } :=
  .of_step (.expire worker) state.passed (by simp only [step, stepExpire, hphase]; rfl)

theorem turns_test (hgo : state.shouldStop = 0) (hphase : (state.loop worker).phase = .testing) :
    Turns stage state worker { state.loop worker with phase := .polling } :=
  .of_step (.test worker) state.passed (by simp only [step, stepTest, hphase, hgo, if_true]; rfl)

theorem turns_check (hgo : state.shouldStop = 0) {payload : Option Item}
    (hphase : (state.loop worker).phase = .checking payload) :
    Turns stage state worker { state.loop worker with phase := begin stage payload } :=
  .of_step (.test worker) state.passed (by simp only [step, stepTest, hphase, hgo, if_true]; rfl)

theorem turns_get {item : Item} {rest : List Item} (hphase : (state.loop worker).phase = .polling)
    (hbuffer : (state.loop worker).buffer = item :: rest) :
    Turns stage state worker
      ⟨if stage.threaded then .checking (some item) else begin stage (some item), rest, 0⟩ :=
  .of_step (.get worker false) state.passed
    (by simp only [step, stepGet, hphase, hbuffer, get, afterPoll]; rfl)

/-- From the top of the loop with this buffer the worker can pass on all it holds. -/
def CanPassFrom (stage : Stage) (worker : Worker) (buffer : List Item) : Prop :=
  ∀ state : State Worker Item, state.shouldStop = 0 → (state.loop worker).phase = .testing →
    (state.loop worker).buffer = buffer → CanPass stage state worker

/-- What a worker has of a batch it can pass to the stage. -/
theorem canPass_batch (hgo : state.shouldStop = 0)
    (hfrom : CanPassFrom stage worker (state.loop worker).buffer) {batch : List Item}
    (hphase : (state.loop worker).phase = .batching batch ∨ (state.loop worker).phase = .calling batch) :
    CanPass stage state worker := by
  have hcalling : ∀ state : State Worker Item, state.shouldStop = 0 →
      (state.loop worker).phase = .calling batch →
      CanPassFrom stage worker (state.loop worker).buffer → CanPass stage state worker := by
    intro state hgo hphase hfrom
    apply (turns_call hphase).canPass
    intro next hstop hloop
    exact hfrom next (hstop.trans hgo) (by rw [hloop]) (by rw [hloop])
  rcases hphase with hphase | hphase
  · apply (turns_expire hphase).canPass
    intro next hstop hloop
    exact hcalling next (hstop.trans hgo) (by rw [hloop]) (by rwa [hloop])
  · exact hcalling state hgo hphase hfrom

theorem canPass_begin (hgo : state.shouldStop = 0)
    (hfrom : CanPassFrom stage worker (state.loop worker).buffer) {payload : Option Item}
    (hphase : (state.loop worker).phase = begin stage payload) : CanPass stage state worker := by
  cases payload with
  | none => exact hfrom state hgo hphase rfl
  | some item =>
    rw [begin] at hphase
    split at hphase
    · exact canPass_batch hgo hfrom (.inl hphase)
    · exact canPass_batch hgo hfrom (.inr hphase)

theorem canPass_checking (hgo : state.shouldStop = 0)
    (hfrom : CanPassFrom stage worker (state.loop worker).buffer) {payload : Option Item}
    (hphase : (state.loop worker).phase = .checking payload) : CanPass stage state worker := by
  apply (turns_check hgo hphase).canPass
  intro next hstop hloop
  exact canPass_begin (hstop.trans hgo) (by rwa [hloop]) (by rw [hloop])

theorem canPass_polling (hgo : state.shouldStop = 0)
    (hfrom : ∀ item rest, (state.loop worker).buffer = item :: rest → CanPassFrom stage worker rest)
    (hphase : (state.loop worker).phase = .polling) : CanPass stage state worker := by
  cases hbuffer : (state.loop worker).buffer with
  | nil => exact ⟨state, .refl state, by simp [Loop.held, hphase, hbuffer], rfl⟩
  | cons item rest =>
    apply (turns_get hphase hbuffer).canPass
    intro next hstop hloop
    have hrest : CanPassFrom stage worker (next.loop worker).buffer := by
      rw [hloop]
      exact hfrom item rest hbuffer
    by_cases hthreaded : stage.threaded = true
    · exact canPass_checking (hstop.trans hgo) hrest (by rw [hloop, if_pos hthreaded])
    · exact canPass_begin (hstop.trans hgo) hrest (by rw [hloop, if_neg hthreaded])

/-- By induction on the buffer: each item of it becomes a batch of its own, at the latest when the deadline
goes by. -/
theorem canPassFrom (stage : Stage) (worker : Worker) (buffer : List Item) :
    CanPassFrom stage worker buffer := by
  induction buffer with
  | nil =>
    intro state _ hphase hbuffer
    exact ⟨state, .refl state, by simp [Loop.held, hphase, hbuffer], rfl⟩
  | cons item rest ih =>
    intro state hgo hphase hbuffer
    apply (turns_test hgo hphase).canPass
    intro next hstop hloop
    refine canPass_polling (hstop.trans hgo) ?_ (by rw [hloop])
    intro item' rest' hbuffer'
    rw [hloop, hbuffer, List.cons.injEq] at hbuffer'
    rw [← hbuffer'.2]
    exact ih

/-- A worker in its loop can always pass to the stage what it has taken. -/
theorem canPass (hgo : state.shouldStop = 0) (hin : (state.loop worker).phase ≠ .left) :
    CanPass stage state worker := by
  cases hphase : (state.loop worker).phase with
  | testing => exact canPassFrom stage worker _ state hgo hphase rfl
  | polling => exact canPass_polling hgo (fun _ rest _ ↦ canPassFrom stage worker rest) hphase
  | checking payload => exact canPass_checking hgo (canPassFrom stage worker _) hphase
  | batching batch => exact canPass_batch hgo (canPassFrom stage worker _) (.inl hphase)
  | calling batch => exact canPass_batch hgo (canPassFrom stage worker _) (.inr hphase)
  | left => exact absurd hphase hin

end Progress

section Runs

variable {Worker Item : Type*} [DecidableEq Worker] [Fintype Worker] {stage : Stage}
  {state next : State Worker Item} {action : Action Worker Item} {worker : Worker}

/-- No item is in two places, and a pipe that stops has lost some. -/
structure Ok (stage : Stage) (state : State Worker Item) : Prop where
  sized : Sized stage state
  leaves : LeavesNone state
  le : total state ≤ state.put
  stops : state.shouldStop ≠ 0 → ¬ Kept state

omit [DecidableEq Worker] in
theorem eq_zero_of_add_le {items dropped : Multiset Item} (h : items + dropped ≤ items) : dropped = 0 := by
  have hcard := Multiset.card_le_card h
  rw [Multiset.card_add] at hcard
  exact Multiset.card_eq_zero.mp (by omega)

omit [DecidableEq Worker] in
theorem Ok.effect {kept : Bool} (h : Ok stage state) (hsized : Sized stage next) (hleaves : LeavesNone next)
    (heffect : Effect state next kept) :
    Ok stage next ∧ (Kept next ↔ Kept state ∧ kept = true) := by
  cases heffect with
  | kept added hput htotal hstop =>
    have hkept : Kept next ↔ Kept state := by
      rw [Kept, Kept, htotal, hput]
      exact add_left_inj added
    refine ⟨⟨hsized, hleaves, ?_, fun hnext ↦ ?_⟩, by simp [hkept]⟩
    · rw [htotal, hput]
      exact add_le_add_left h.le added
    · rw [hkept]
      exact h.stops (hstop ▸ hnext)
  | lost dropped hne hput htotal =>
    have hle : total next + dropped ≤ state.put := htotal ▸ h.le
    have hlost : ¬ Kept next := by
      intro hkept
      rw [Kept, hput] at hkept
      rw [hkept] at hle
      exact hne (eq_zero_of_add_le hle)
    refine ⟨⟨hsized, hleaves, ?_, fun _ ↦ hlost⟩, by simp [hlost]⟩
    rw [hput]
    exact (Multiset.le_add_right _ _).trans hle
  | abandoned dropped hput htotal hstop hsame =>
    have hle : total next + dropped ≤ state.put := htotal ▸ h.le
    have hbefore := h.stops hstop
    have hlost : ¬ Kept next := by
      intro hkept
      rw [Kept, hput] at hkept
      rw [hkept] at hle
      obtain rfl := eq_zero_of_add_le hle
      rw [add_zero, hkept] at htotal
      exact hbefore htotal.symm
    refine ⟨⟨hsized, hleaves, ?_, fun _ ↦ hlost⟩, by simp [hlost, hbefore]⟩
    rw [hput]
    exact (Multiset.le_add_right _ _).trans hle

theorem ok_start (stage : Stage) (content : List (Wire Item)) :
    Ok stage (machine Worker stage content).start := by
  refine ⟨⟨fun _ ↦ trivial, nofun⟩, nofun, ?_, nofun⟩
  simp [total, machine, inBatches, Loop.held, State.queued]

/-- A step drops nothing as long as no `get` within a batch raises anything but `Empty`, and what is dropped does not
come back. -/
theorem step_kept (h : Ok stage state) (hstep : step stage state action = some next) :
    Ok stage next ∧ (Kept next ↔ Kept state ∧ sound state action = true) :=
  h.effect (h.sized.step hstep) (h.leaves.step hstep) (step_effect h.sized.batch_ne_nil hstep)

/-- Every item is on the queue, passed to the stage, or held by a worker that can pass it on, each once, and
every batch fits. -/
structure Delivers (stage : Stage) (state : State Worker Item) : Prop where
  kept : Kept state
  leaves : LeavesNone state
  passes : ∀ worker, (state.loop worker).phase ≠ .left → CanPass stage state worker
  fits : ∀ entry ∈ state.passed, Fits stage entry.2

/-- A run delivers every item that is taken off the queue exactly if no `get` of a batch raises anything
but `Empty`. -/
theorem delivers_iff (stage : Stage) (content : List (Wire Item)) (actions : List (Action Worker Item))
    (last : State Worker Item)
    (hrun : (machine Worker stage content).runFrom (machine Worker stage content).start actions = some last) :
    Delivers stage last ↔
      ((machine Worker stage content).restrict sound).runFrom (machine Worker stage content).start actions =
        some last := by
  have hok : Ok stage last :=
    Machine.run_invariant (Ok stage) (fun _ _ _ hstate hstep ↦ (step_kept hstate hstep).1)
      (ok_start stage content) hrun
  have hclean : Kept last ↔ Kept (machine Worker stage content).start ∧
      ((machine Worker stage content).restrict sound).runFrom (machine Worker stage content).start actions =
        some last :=
    Machine.clean_iff_restrict (Ok stage) Kept (fun _ _ _ hstate hstep ↦ step_kept hstate hstep)
      (ok_start stage content) hrun
  have hstart : Kept (machine Worker stage content).start := by
    simp [Kept, total, machine, inBatches, Loop.held, State.queued]
  have hdelivers : Delivers stage last ↔ Kept last := by
    refine ⟨Delivers.kept, fun hkept ↦ ⟨hkept, hok.leaves, fun worker hin ↦ ?_, hok.sized.passed⟩⟩
    have hgo : last.shouldStop = 0 := by
      by_contra hstop
      exact hok.stops hstop hkept
    exact canPass hgo hin
  rw [hdelivers, hclean, and_iff_right hstart]

/-- One of two workers finds a message that cannot be decoded between its batches, and the other unpacks a
chunk. -/
def decodable : List (Wire ℕ) := [.item 1, .undecodable .other, .chunk [2, 3]]

def betweenBatches : List (Action Bool ℕ) :=
  [.test false, .get false false, .expire false, .call false, .test false, .get false false, .test true,
    .get true false, .get true false, .call true]

/-- A message that cannot be decoded comes between two batches: one worker meets it, and all items are passed. -/
theorem delivers_betweenBatches :
    ∃ last, (machine Bool ⟨false, 2, 30⟩ decodable).runFrom (machine Bool ⟨false, 2, 30⟩ decodable).start
        betweenBatches = some last ∧ last.passed = [(false, [1]), (true, [2, 3])] ∧
      (Delivers ⟨false, 2, 30⟩ last ↔
        ((machine Bool ⟨false, 2, 30⟩ decodable).restrict sound).runFrom
          (machine Bool ⟨false, 2, 30⟩ decodable).start betweenBatches = some last) :=
  ⟨_, rfl, rfl, delivers_iff ⟨false, 2, 30⟩ decodable betweenBatches _ rfl⟩

/-- The item before a message that cannot be decoded goes with it. -/
theorem not_delivers :
    ∃ last, (machine Unit ⟨false, 2, 30⟩ [.item 1, .undecodable .other, .item 2]).runFrom
        (machine Unit ⟨false, 2, 30⟩ [.item 1, .undecodable .other, .item 2]).start
        [.test (), .get () false, .get () false] = some last ∧
      last.passed = [] ∧ (last.loop ()).held = [] ∧ last.queued = [2] ∧
      ¬ Delivers ⟨false, 2, 30⟩ last := by
  refine ⟨_, rfl, rfl, rfl, rfl, fun hdelivers ↦ ?_⟩
  exact absurd hdelivers.kept (by decide)

end Runs

end GpuPipe.Undecodable
