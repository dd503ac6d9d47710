import GpuPipe.Library.Machine
import GpuPipe.Pipeline.Loop

/-!
# `pull` of a stage with a `run`

Any number of workers of one stage pull from its input queue while the upstream workers put items and
`End` sentinels there and, when they have put all items, set the done event. The two `_pull`s of the
source differ in their stop tests only, and nothing stops here. A get, the test of the event, a put
and the set of the event are steps of their own. `ended` and the flag of `polled` are history that no
branch reads.
-/

namespace GpuPipe.Pipeline

variable {Payload : Type}

/-- Where a worker is: in `run()` outside `pull`, at the head of `pull`'s loop, or behind a get that
raised `Empty`. The flag says that an item has been put since. -/
inductive PullPc
  | outside
  | looking
  | polled (put : Bool)
  deriving DecidableEq

/-- A worker with its `_InputChannel` buffer and the locals of `pull`; `ended` remembers that a `pull`
of it has returned `[]`. -/
structure Puller (Payload : Type) where
  pc : PullPc
  wanted : ℕ
  items : List Payload
  buffer : List Payload
  ended : Bool

structure PullState (Payload : Type) where
  queue : List (Message Payload)
  done : Bool
  puller : ℕ → Puller Payload

inductive PullMove
  | begin (wanted : ℕ)
  | get
  | empty
  | test
  | full
  deriving DecidableEq

inductive PullAction (Payload : Type)
  | put (payloads : List Payload)
  | putEnd
  | setDone
  | pull (id : ℕ) (move : PullMove)

def PullState.start : PullState Payload where
  queue := []
  done := false
  puller _ := { pc := .outside, wanted := 0, items := [], buffer := [], ended := false }

section Steps

variable (state : PullState Payload)

def PullState.setPuller (id : ℕ) (value : Puller Payload) : PullState Payload :=
  { state with puller := Function.update state.puller id value }

def Puller.notice (puller : Puller Payload) : Puller Payload :=
  match puller.pc with
  | .polled _ => { puller with pc := .polled true }
  | _ => puller

def stepPull (id : ℕ) (move : PullMove) : Option (PullState Payload) :=
  let puller := state.puller id
  match move, puller.pc with
  | .begin wanted, .outside =>
    if 0 < wanted then
      some (state.setPuller id { puller with pc := .looking, wanted := wanted, items := [] })
    else none
  | .get, .looking =>
    if puller.items.length < puller.wanted then
      match receive puller.buffer state.queue with
      | none => none
      | some (payload, buffer, took) =>
        -- `End` is skipped.
        some (PullState.setPuller { state with queue := if took then state.queue.tail else state.queue } id
          { puller with items := puller.items ++ payload.toList, buffer := buffer })
    else none
  | .empty, .looking =>
    if puller.items.length < puller.wanted && puller.buffer.isEmpty && state.queue.isEmpty then
      -- A partial batch is returned.
      some (state.setPuller id
        { puller with pc := if puller.items.isEmpty then .polled false else .outside })
    else none
  | .test, .polled _ =>
    if state.done then some (state.setPuller id { puller with pc := .outside, ended := true })
    else some (state.setPuller id { puller with pc := .looking })
  | .full, .looking =>
    if puller.wanted ≤ puller.items.length then some (state.setPuller id { puller with pc := .outside })
    else none
  | _, _ => none

/-- Upstream puts no item after it has set the event. -/
def stepPullSystem : PullAction Payload → Option (PullState Payload)
  | .put payloads =>
    if state.done || payloads.isEmpty then none
    else
      some { state with
        queue := state.queue ++ [.items payloads]
        puller := fun id ↦ (state.puller id).notice }
  | .putEnd => some { state with queue := state.queue ++ [.fin] }
  | .setDone => some { state with done := true }
  | .pull id move => stepPull state id move

end Steps

def pullMachine (Payload : Type) : Machine (PullState Payload) (PullAction Payload) where
  start := .start
  step := stepPullSystem

/-- No item is put between the get that raises `Empty` and the test that then sees the event set. -/
def noPutBetween (state : PullState Payload) : PullAction Payload → Bool
  | .pull id .test => !state.done || (state.puller id).pc != .polled true
  | _ => true

def PullState.waiting (state : PullState Payload) : List Payload := state.queue.flatMap Message.payloads

/-- A `pull` that returned `[]` was at the end. -/
structure AtEnd (state : PullState Payload) : Prop where
  polled : ∀ id, (state.puller id).pc = .polled false → state.waiting = []
  buffer : ∀ id put, (state.puller id).pc = .polled put → (state.puller id).buffer = []
  ended : ∀ id, (state.puller id).ended = true →
    state.done = true ∧ state.waiting = [] ∧ (state.puller id).buffer = []

variable {state next : PullState Payload}

theorem atEnd_start : AtEnd (PullState.start : PullState Payload) where
  polled _ h := by cases h
  buffer _ _ h := by cases h
  ended _ h := by cases h

/-- What a move of one worker does for the others, when it leaves no more items on the queue. -/
theorem AtEnd.setPuller (h : AtEnd state) {id : ℕ} {value : Puller Payload} {queue : List (Message Payload)}
    (fewer : state.waiting = [] → queue.flatMap Message.payloads = [])
    (polled : value.pc = .polled false → queue.flatMap Message.payloads = [])
    (buffer : ∀ put, value.pc = .polled put → value.buffer = [])
    (ended : value.ended = true →
      state.done = true ∧ queue.flatMap Message.payloads = [] ∧ value.buffer = []) :
    AtEnd (PullState.setPuller { state with queue := queue } id value) := by
  refine ⟨?_, ?_, ?_⟩
  · intro other pc
    by_cases same : other = id
    · subst same
      exact polled (by simpa [PullState.setPuller] using pc)
    · exact fewer (h.polled other (by simpa [PullState.setPuller, Function.update_of_ne same] using pc))
  · intro other put pc
    by_cases same : other = id
    · subst same
      simpa [PullState.setPuller] using buffer put (by simpa [PullState.setPuller] using pc)
    · simpa [PullState.setPuller, Function.update_of_ne same] using
        h.buffer other put (by simpa [PullState.setPuller, Function.update_of_ne same] using pc)
  · intro other isEnded
    by_cases same : other = id
    · subst same
      simpa [PullState.setPuller, PullState.waiting] using ended (by simpa [PullState.setPuller] using isEnded)
    · have old := h.ended other (by simpa [PullState.setPuller, Function.update_of_ne same] using isEnded)
      exact ⟨old.1, fewer old.2.1, by simpa [PullState.setPuller, Function.update_of_ne same] using old.2.2⟩

/-- A worker whose queue and buffer are empty gets at most an `End`. -/
theorem receive_of_empty {queue : List (Message Payload)} {payload : Option Payload} {buffer : List Payload}
    {took : Bool} (none : queue.flatMap Message.payloads = [])
    (received : receive [] queue = some (payload, buffer, took)) : buffer = [] := by
  match queue with
  | [] => cases received
  | .fin :: rest => cases received; rfl
  | .items [] :: rest => cases received
  | .items (first :: more) :: rest => simp [Message.payloads] at none

theorem flatMap_tail_eq_nil {queue : List (Message Payload)} (none : queue.flatMap Message.payloads = []) :
    queue.tail.flatMap Message.payloads = [] := by
  cases queue with
  | nil => rfl
  | cons head tail => exact (List.append_eq_nil_iff.mp none).2

/-- A pull that gives up has seen its queue empty and the event set, with no put between. -/
theorem AtEnd.pull (h : AtEnd state) {id : ℕ} {move : PullMove}
    (allowed : noPutBetween state (.pull id move) = true) (moves : stepPull state id move = some next) :
    AtEnd next := by
  unfold stepPull at moves
  dsimp only at moves
  split at moves
  · -- `pull` is called
    split at moves <;> cases moves
    refine h.setPuller (fun none ↦ none) (fun pc ↦ by cases pc) (fun _ pc ↦ by cases pc) (h.ended id)
  · -- a get
    rename_i pc
    split at moves
    · split at moves <;> cases moves
      rename_i payload buffer took received
      have fewer : state.waiting = [] →
          (if took then state.queue.tail else state.queue).flatMap Message.payloads = [] := by
        intro none
        split
        · exact flatMap_tail_eq_nil none
        · exact none
      refine h.setPuller fewer (fun polled ↦ ?_) (fun _ polled ↦ ?_) fun isEnded ↦ ?_
      · exact absurd (pc.symm.trans polled) (by simp)
      · exact absurd (pc.symm.trans polled) (by simp)
      · obtain ⟨done, none, empty⟩ := h.ended id isEnded
        rw [empty] at received
        exact ⟨done, fewer none, receive_of_empty none received⟩
    · cases moves
  · -- `Empty`
    split at moves <;> cases moves
    rename_i empty
    simp only [Bool.and_eq_true, List.isEmpty_iff] at empty
    refine h.setPuller (fun none ↦ none) (fun _ ↦ ?_) (fun _ _ ↦ empty.1.2) (h.ended id)
    rw [empty.2]
    rfl
  · -- the test of the event
    rename_i put pc
    split at moves <;> cases moves
    · rename_i done
      refine h.setPuller (fun none ↦ none) (fun pc ↦ by cases pc) (fun _ pc ↦ by cases pc) fun _ ↦ ?_
      have clean : put = false := by
        simpa [noPutBetween, done, pc] using allowed
      exact ⟨done, h.polled id (clean ▸ pc), h.buffer id put pc⟩
    · refine h.setPuller (fun none ↦ none) (fun pc ↦ by cases pc) (fun _ pc ↦ by cases pc) (h.ended id)
  · -- the batch is full
    split at moves <;> cases moves
    refine h.setPuller (fun none ↦ none) (fun pc ↦ by cases pc) (fun _ pc ↦ by cases pc) (h.ended id)
  · cases moves

/-- Upstream puts nothing behind the event, so that a queue once at its end stays there. -/
theorem AtEnd.step (h : AtEnd state) {action : PullAction Payload} (allowed : noPutBetween state action = true)
    (moves : stepPullSystem state action = some next) : AtEnd next := by
  cases action with
  | put payloads =>
    simp only [stepPullSystem] at moves
    split at moves <;> cases moves
    rename_i going
    simp only [Bool.or_eq_true, not_or, Bool.not_eq_true] at going
    -- Before the event is set no `pull` has returned `[]`.
    refine ⟨?_, ?_, ?_⟩
    · intro id pc
      simp only [Puller.notice] at pc
      split at pc
      · cases pc
      · rename_i other
        exact absurd pc (other false)
    · intro id put pc
      simp only [Puller.notice] at pc ⊢
      split
      · rename_i put' pc'
        exact h.buffer id put' pc'
      · rename_i other
        split at pc
        · rename_i put' pc'
          exact absurd pc' (other put')
        · exact absurd pc (other put)
    · intro id isEnded
      have old : (state.puller id).ended = true := by
        simp only [Puller.notice] at isEnded
        split at isEnded <;> exact isEnded
      rw [(h.ended id old).1] at going
      exact absurd going.1 (by decide)
  | putEnd =>
    cases moves
    have same : (state.queue ++ [Message.fin]).flatMap Message.payloads = state.waiting := by
      simp [PullState.waiting, Message.payloads]
    refine ⟨fun id pc ↦ same.trans (h.polled id pc), h.buffer, fun id isEnded ↦ ?_⟩
    obtain ⟨done, none, empty⟩ := h.ended id isEnded
    exact ⟨done, same.trans none, empty⟩
  | setDone =>
    cases moves
    exact ⟨h.polled, h.buffer, fun id isEnded ↦ ⟨rfl, (h.ended id isEnded).2⟩⟩
  | pull id move => exact h.pull allowed moves

/-- As long as no item is put between a get that raises `Empty` and a test that then sees the event
set: once a `pull` has returned `[]`, the event is set and no item is on the queue or in the puller's
buffer, in this state and in every later one. -/
theorem pull_ends_at_end (state : PullState Payload)
    (reachable : ((pullMachine Payload).restrict noPutBetween).Reachable state) (id : ℕ)
    (ended : (state.puller id).ended = true) :
    state.done = true ∧ state.waiting = [] ∧ (state.puller id).buffer = [] := by
  have atEnd : AtEnd state := by
    refine reachable.invariant AtEnd atEnd_start fun before action next atEnd moves ↦ ?_
    obtain ⟨allowed, moves⟩ := Machine.restrict_step moves
    exact atEnd.step allowed moves
  exact atEnd.ended id ended

/-- A chunk of two is pulled in two calls, and the third call returns `[]`. -/
def pullAll : List (PullAction ℕ) :=
  [.put [1, 2], .putEnd, .setDone, .pull 0 (.begin 1), .pull 0 .get, .pull 0 .full, .pull 0 (.begin 3), .pull 0 .get,
    .pull 0 .get, .pull 0 .empty, .pull 0 (.begin 1), .pull 0 .empty, .pull 0 .test]

/-- Two items are pulled, and the third call returns `[]`. -/
theorem pull_ends_at_end_pullAll : ∃ state : PullState ℕ,
    (pullMachine ℕ).runFrom .start pullAll = some state ∧ (state.puller 0).ended = true ∧
      state.done = true ∧ state.waiting = [] ∧ (state.puller 0).buffer = [] := by
  have ends : ∃ state : PullState ℕ, ((pullMachine ℕ).restrict noPutBetween).runFrom .start pullAll = some state ∧
      (state.puller 0).ended = true := ⟨_, rfl, rfl⟩
  obtain ⟨state, hrun, ended⟩ := ends
  exact ⟨state, Machine.runFrom_of_restrict hrun, ended, pull_ends_at_end state ⟨pullAll, hrun⟩ 0 ended⟩

/-- The last item is put and the event set between the get and the test. -/
theorem not_pull_ends_at_end : ¬ ∀ (state : PullState ℕ) (id : ℕ), (pullMachine ℕ).Reachable state →
    (state.puller id).ended = true → state.waiting = [] ∧ (state.puller id).buffer = [] := by
  intro always
  let actions : List (PullAction ℕ) :=
    [.pull 0 (.begin 1), .pull 0 .empty, .put [7], .putEnd, .setDone, .pull 0 .test]
  have ends : ∃ state : PullState ℕ, (pullMachine ℕ).runFrom .start actions = some state ∧
      (state.puller 0).ended = true ∧ state.waiting = [7] := ⟨_, rfl, rfl, rfl⟩
  obtain ⟨state, hrun, ended, waiting⟩ := ends
  have none := (always state 0 ⟨actions, hrun⟩ ended).1
  rw [waiting] at none
  cases none

end GpuPipe.Pipeline
