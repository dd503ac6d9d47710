import Mathlib.Data.List.Perm.Basic
import Mathlib.Data.List.Pairwise
import Mathlib.Data.List.Range
import GpuPipe.Pipeline.Completion

/-!
# Several readers of the final queue

`expected_consumers` processes read the final queue with a `PipeIterator` each, and the last worker of
the final stage puts one `End` for each of them, with a second's patience. The queue holds at most
`maxsize` messages. A put waits while the queue is full, and gives up only then.
-/

namespace GpuPipe.Pipeline

variable {Payload : Type}

/-- A `PipeIterator`: the buffer of its channel, what it has returned, and whether it has stopped. -/
structure Consumer (Payload : Type) where
  buffer : List Payload
  returned : List Payload
  ended : Bool

structure Served (Payload : Type) where
  pipe : State Payload
  consumer : ℕ → Consumer Payload

inductive ServedAction (Payload : Type)
  | pipe (action : Action Payload)
  | read (id : ℕ)

def Config.final (config : Config) : ℕ := config.depth - 1

def Served.start (config : Config) : Served Payload where
  pipe := .start config
  consumer _ := { buffer := [], returned := [], ended := false }

section Steps

variable (config : Config) (maxsize : ℕ) (state : Served Payload)

def full (queue : List (Message Payload)) : Bool := 0 < maxsize && maxsize ≤ queue.length

/-- A put on the final queue that gives up. -/
def Action.givesUp (final : ℕ) : Action Payload → Bool
  | .main stage _ (.putEnd accepted) => stage = final && !accepted
  | .main stage _ (.flushItem _ accepted) => stage = final && !accepted
  | _ => false

/-- A step of the pipeline; the queue grows only while it has room. -/
def stepPipe (action : Action Payload) : Option (Served Payload) :=
  match action with
  | .reader _ => none
  | action =>
    (step config state.pipe action).bind fun next ↦
      if full maxsize (state.pipe.queue config.final) then
        if (next.queue config.final).length ≤ (state.pipe.queue config.final).length then
          some { state with pipe := next }
        else none
      else if action.givesUp config.final then none
      else some { state with pipe := next }

/-- `PipeIterator.__next__`; a get that raises `Empty` is tried again. -/
def stepRead (id : ℕ) : Option (Served Payload) :=
  let consumer := state.consumer id
  if id < config.consumers && !consumer.ended then
    match receive consumer.buffer (state.pipe.queue config.final) with
    | none => none
    | some (payload, buffer, took) =>
      some
        { pipe := if took then state.pipe.take config.final else state.pipe
          consumer := Function.update state.consumer id
            { buffer := buffer
              returned := consumer.returned ++ payload.toList
              ended := payload.isNone } }
  else none

def stepServed : ServedAction Payload → Option (Served Payload)
  | .pipe action => stepPipe config maxsize state action
  | .read id => stepRead config state id

end Steps

def servedMachine (Payload : Type) (config : Config) (maxsize : ℕ) :
    Machine (Served Payload) (ServedAction Payload) where
  start := .start config
  step := stepServed config maxsize

def ServedAction.calm : ServedAction Payload → Bool
  | .pipe action => Pipeline.calm action
  | .read _ => true

/-- At the final stage no put of an `End` gives up, a pool's main thread waits for its threads, and
`on_park` has nothing to return once a worker has finished. -/
def delivers (config : Config) (state : Served Payload) : ServedAction Payload → Bool
  | .pipe (.main stage _ (.putEnd accepted)) => stage ≠ config.final || accepted
  | .pipe (.main stage slot .leave) => stage ≠ config.final || state.pipe.allEnded config stage slot
  | .pipe (.main stage _ (.release results)) =>
    stage ≠ config.final || (config.stage stage).threaded || results.isEmpty
  | _ => true

def Message.isEnd : Message Payload → Bool
  | .fin => true
  | .items _ => false

def Entry.isEnd : Entry Payload → Bool
  | .fin => true
  | _ => false

/-- Every reader gets its `End`: one for each was put, behind all payloads; each payload was returned
by one reader, or waits in one reader's buffer or on the queue; as many `End`s are on the queue as
readers have not stopped, and these can go on. -/
structure EveryEnd (config : Config) (state : Served Payload) : Prop where
  ends : (state.pipe.log config.final).countP Entry.isEnd = config.consumers
  behind : (state.pipe.log config.final).Pairwise fun first second ↦
    first.isEnd = true → second.payloads = []
  once : (((List.range config.consumers).flatMap fun id ↦
    (state.consumer id).returned ++ (state.consumer id).buffer) ++ state.pipe.waiting config.final).Perm
      (state.pipe.output config.final)
  available : (state.pipe.queue config.final).countP Message.isEnd =
    (List.range config.consumers).countP fun id ↦ !(state.consumer id).ended
  goes : ∀ id < config.consumers, (state.consumer id).ended = false → (stepRead config state id).isSome = true
  all : (∀ id < config.consumers, (state.consumer id).ended = true) →
    ((List.range config.consumers).flatMap fun id ↦ (state.consumer id).returned).Perm
      (state.pipe.output config.final)

/-! ## The final stage -/

section Final

variable {config : Config} {state next : State Payload} {stage slot thread : ℕ}

/-- The `End`s that a main thread has still to put, if it is the last of its stage to finish. -/
def Main.owes (workers ends : ℕ) : Main Payload → Option ℕ
  | .counted number => if number < workers then none else some ends
  | .ending left => some left
  | .signalling => some 0
  | _ => none

/-- What a stage's log, counter and event say of who puts its `End`s. -/
structure Ending (config : Config) (stage : ℕ) (state : State Payload) : Prop where
  few : state.count stage = 0 ∨ state.count stage < (config.stage stage).workers →
    (∀ slot, (state.slot (stage, slot)).main.owes (config.stage stage).workers (config.ends stage) = none) ∧
      (state.log stage).countP Entry.isEnd = 0 ∧ state.done stage = false
  all : 0 < state.count stage → (config.stage stage).workers ≤ state.count stage →
    (state.done stage = true ∧ (state.log stage).countP Entry.isEnd = config.ends stage ∧
      ∀ slot, (state.slot (stage, slot)).main.owes (config.stage stage).workers (config.ends stage) = none) ∨
    (state.done stage = false ∧ ∃ slot left,
      (state.slot (stage, slot)).main.owes (config.stage stage).workers (config.ends stage) = some left ∧
      (state.log stage).countP Entry.isEnd + left = config.ends stage ∧
      ∀ other ≠ slot,
        (state.slot (stage, other)).main.owes (config.stage stage).workers (config.ends stage) = none)

/-- What a main thread's step does for its stage's `End`s. -/
theorem stepMain_owes {move : MainMove Payload} (h : stepMain config state stage slot move = some next)
    (accepted : move ≠ .putEnd false) :
    ∃ value : Slot Payload, next.slot = Function.update state.slot (stage, slot) value ∧
      (((state.slot (stage, slot)).main.owes (config.stage stage).workers (config.ends stage) =
          value.main.owes (config.stage stage).workers (config.ends stage) ∧ next.count = state.count ∧
        (next.log stage).countP Entry.isEnd = (state.log stage).countP Entry.isEnd ∧
        next.done stage = state.done stage) ∨
      ((state.slot (stage, slot)).main = .counting ∧ value.main = .counted (state.count stage + 1) ∧
        next.count stage = state.count stage + 1 ∧ next.log = state.log ∧ next.done = state.done) ∨
      (∃ left, (state.slot (stage, slot)).main.owes (config.stage stage).workers (config.ends stage) = some (left + 1) ∧
        value.main.owes (config.stage stage).workers (config.ends stage) = some left ∧ next.count = state.count ∧
        (next.log stage).countP Entry.isEnd = (state.log stage).countP Entry.isEnd + 1 ∧ next.done = state.done) ∨
      ((state.slot (stage, slot)).main.owes (config.stage stage).workers (config.ends stage) = some 0 ∧
        value.main.owes (config.stage stage).workers (config.ends stage) = none ∧ next.count = state.count ∧
        (next.log stage).countP Entry.isEnd = (state.log stage).countP Entry.isEnd ∧ next.done stage = true)) := by
  cases stepMain_cases h with
  | flushItem payload hmain =>
    refine ⟨state.slot (stage, slot), by simp [State.send, State.make], .inl ⟨rfl, rfl, ?_, rfl⟩⟩
    simp [State.send, State.make, Entry.isEnd]
  | count hmain => exact ⟨_, rfl, .inr (.inl ⟨hmain, rfl, by simp [State.setSlot], rfl, rfl⟩)⟩
  | compareFew number hmain few => exact ⟨_, rfl, .inl ⟨by simp [hmain, Main.owes, few], rfl, rfl, rfl⟩⟩
  | compareAll number hmain all =>
    exact ⟨_, rfl, .inl ⟨by simp [hmain, Main.owes, Nat.not_lt.mpr all], rfl, rfl, rfl⟩⟩
  | putEnd left hmain =>
    exact ⟨_, rfl, .inr (.inr (.inl ⟨left, by simp [hmain, Main.owes], by simp [Main.owes], rfl,
      by simp [State.setMain, State.setSlot, Entry.isEnd], rfl⟩))⟩
  | endFull left hmain => exact absurd rfl accepted
  | setDone hmain =>
    exact ⟨_, rfl, .inr (.inr (.inr ⟨by simp [hmain, Main.owes], by simp [Main.owes], rfl,
      by simp [State.setMain, State.setSlot, Entry.isEnd], by simp [State.setMain, State.setSlot]⟩))⟩
  | parkFlush todo payload pending hmain =>
    refine ⟨_, rfl, .inl ⟨by simp [hmain, Main.owes], rfl, ?_, rfl⟩⟩
    simp [State.setMain, State.setSlot, State.send, Entry.isEnd]
  | leavePool hmain | leave hmain | flushFull _ hmain | flushed hmain | allEnds hmain | releasePool _ hmain
    | release _ hmain | parkSend _ _ _ hmain | parkDone hmain =>
    exact ⟨_, rfl, .inl ⟨by simp [hmain, Main.owes], rfl, rfl, rfl⟩⟩

/-- A main thread's step changes no other stage's counter, log or event. -/
theorem stepMain_other {move : MainMove Payload} (h : stepMain config state stage slot move = some next)
    {other : ℕ} (different : other ≠ stage) :
    next.count other = state.count other ∧ next.log other = state.log other ∧ next.done other = state.done other := by
  obtain ⟨-, -, houtput⟩ := stepMain_output h
  refine ⟨?_, ?_⟩
  · cases stepMain_cases h with
    | count hmain => simp [State.setSlot, different]
    | _ => rfl
  · rcases houtput with ⟨-, log, done⟩ | ⟨payloads, -, -, -, log, done⟩ | ⟨-, log, done⟩ | ⟨-, log, done⟩ <;>
      simp [log, done, State.send, different]

theorem ending_start : Ending config stage (State.start config : State Payload) where
  few _ := ⟨fun _ ↦ rfl, rfl, rfl⟩
  all some := absurd some (Nat.lt_irrefl 0)

theorem Ending.congr (h : Ending config stage state)
    (owes : ∀ slot, (next.slot (stage, slot)).main.owes (config.stage stage).workers (config.ends stage) =
      (state.slot (stage, slot)).main.owes (config.stage stage).workers (config.ends stage))
    (count : next.count stage = state.count stage)
    (ends : (next.log stage).countP Entry.isEnd = (state.log stage).countP Entry.isEnd)
    (done : next.done stage = state.done stage) : Ending config stage next where
  few := by simpa only [owes, count, ends, done] using h.few
  all := by simpa only [owes, count, ends, done] using h.all

/-- A worker that has not counted leaves the counter below the number of workers. -/
theorem Tally.count_lt (tally : Tally config state) (hslot : slot < (config.stage stage).workers)
    (hmain : (state.slot (stage, slot)).main = .counting) : state.count stage < (config.stage stage).workers := by
  by_contra full
  have counted := tally.all_counted (by omega) hslot
  rcases (tally.slots stage slot).counted counted with past | dead
  · simp [hmain, Main.past] at past
  · simp [hmain] at dead

/-- The thread that has `End`s to put is the one that does. -/
theorem Ending.token (h : Ending config stage state) {left : ℕ}
    (owes : (state.slot (stage, slot)).main.owes (config.stage stage).workers (config.ends stage) = some left) :
    0 < state.count stage ∧ (config.stage stage).workers ≤ state.count stage ∧ state.done stage = false ∧
      (state.log stage).countP Entry.isEnd + left = config.ends stage ∧
      ∀ other ≠ slot,
        (state.slot (stage, other)).main.owes (config.stage stage).workers (config.ends stage) = none := by
  have enough : ¬ (state.count stage = 0 ∨ state.count stage < (config.stage stage).workers) := by
    intro few
    rw [(h.few few).1 slot] at owes
    cases owes
  have positive : 0 < state.count stage := by omega
  have workers : (config.stage stage).workers ≤ state.count stage := by omega
  refine ⟨positive, workers, ?_⟩
  rcases h.all positive workers with ⟨-, -, none⟩ | ⟨done, owner, left', owes', ends, others⟩
  · rw [none slot] at owes
    cases owes
  · by_cases same : slot = owner
    · subst same
      rw [owes'] at owes
      cases owes
      exact ⟨done, ends, others⟩
    · rw [others slot same] at owes
      cases owes

/-- A main thread's step leaves one worker at most that owes `End`s, the last to finish. -/
theorem Ending.main (h : Ending config stage state) (tally : Tally config state)
    (hslot : slot < (config.stage stage).workers) {move : MainMove Payload}
    (hstep : stepMain config state stage slot move = some next) (accepted : move ≠ .putEnd false) :
    Ending config stage next := by
  obtain ⟨value, slots, effect⟩ := stepMain_owes hstep accepted
  have this : (next.slot (stage, slot)) = value := by rw [slots, Function.update_self]
  have others : ∀ other ≠ slot, next.slot (stage, other) = state.slot (stage, other) := by
    intro other different
    rw [slots, Function.update_of_ne (by simpa using different)]
  rcases effect with ⟨owes, count, ends, done⟩ | ⟨hmain, counted, count, log, done⟩ |
    ⟨left, owes, owes', count, ends, done⟩ | ⟨owes, owes', count, ends, done⟩
  · refine h.congr (fun other ↦ ?_) (congrFun count stage) ends done
    by_cases same : other = slot
    · rw [same, this, owes]
    · rw [others other same]
  · -- The thread adds itself to the counter; it is the last if that makes it full.
    have below := tally.count_lt hslot hmain
    obtain ⟨none, noEnds, notDone⟩ := h.few (.inr below)
    have mine : (next.slot (stage, slot)).main.owes (config.stage stage).workers (config.ends stage) =
        if state.count stage + 1 < (config.stage stage).workers then Option.none else some (config.ends stage) := by
      rw [this, counted, Main.owes]
    have rest : ∀ other ≠ slot,
        (next.slot (stage, other)).main.owes (config.stage stage).workers (config.ends stage) = Option.none := by
      intro other different
      rw [others other different, none other]
    constructor
    · intro few
      have still : state.count stage + 1 < (config.stage stage).workers := by omega
      refine ⟨fun other ↦ ?_, by rw [log, noEnds], by rw [done, notDone]⟩
      by_cases same : other = slot
      · rw [same, mine, if_pos still]
      · exact rest other same
    · intro _ full
      refine .inr ⟨by rw [done, notDone], slot, config.ends stage, ?_, by rw [log, noEnds, Nat.zero_add], rest⟩
      rw [mine, if_neg (by omega)]
  · -- It puts one of its `End`s.
    obtain ⟨positive, full, notDone, total, none⟩ := h.token owes
    constructor
    · intro few
      rw [count] at few
      omega
    · intro _ _
      refine .inr ⟨by rw [done, notDone], slot, left, by rw [this, owes'], by omega, fun other different ↦ ?_⟩
      rw [others other different, none other different]
  · -- It sets the event.
    obtain ⟨positive, full, -, total, none⟩ := h.token owes
    constructor
    · intro few
      rw [count] at few
      omega
    · intro _ _
      refine .inl ⟨done, by omega, fun other ↦ ?_⟩
      by_cases same : other = slot
      · rw [same, this, owes']
      · rw [others other same, none other same]

/-- What holds of the final stage: its threads have ended when a main thread goes on, nothing is put
behind an `End`, and the last worker puts the `End`s. -/
structure FinalStage (config : Config) (state : State Payload) : Prop where
  tally : Tally config state
  ended : ∀ slot, (state.slot (config.final, slot)).main ≠ .working →
    ∀ thread < config.loops config.final, ((state.slot (config.final, slot)).loop thread).pc = .ended
  released : ∀ slot todo pending, (state.slot (config.final, slot)).main = .parking todo pending →
    todo = [] ∧ pending = []
  ending : Ending config config.final state
  behind : (state.log config.final).Pairwise fun first second ↦ first.closes = true → second.payloads = []
  placed : state.done config.final = true → 0 < config.depth

theorem finalStage_start : FinalStage config (State.start config : State Payload) where
  tally := tally_start
  ended slot working := absurd rfl working
  released slot todo pending parking := by cases parking
  ending := ending_start
  behind := .nil
  placed done := by cases done

/-- What a step puts on the final queue. -/
inductive Puts (config : Config) (before after : State Payload) : Prop
  | nothing (log : after.log config.final = before.log config.final)
      (queue : after.queue config.final = before.queue config.final)
  | items (producer : Producer) (payloads : List Payload) (some : payloads ≠ [])
      (isOpen : ∀ entry ∈ before.log config.final, entry.closes = false)
      (log : after.log config.final = before.log config.final ++ [Entry.put producer payloads])
      (queue : after.queue config.final = before.queue config.final ++ [Message.items payloads])
  | fin (log : after.log config.final = before.log config.final ++ [Entry.fin])
      (queue : after.queue config.final = before.queue config.final ++ [Message.fin])
  | done (log : after.log config.final = before.log config.final ++ [Entry.done])
      (queue : after.queue config.final = before.queue config.final)

theorem apply_queue {outcome : Outcome Payload} {other : ℕ} (took : outcome.took = true → other ≠ stage - 1) :
    (state.apply stage slot thread outcome).queue other =
      state.queue other ++ if other = stage then (outcome.sent.map Message.items).toList else [] := by
  rcases outcome with ⟨loop, takes, sent, made, stops⟩
  have htaken : (if takes then state.take (stage - 1) else state).queue other = state.queue other := by
    cases takes
    · rfl
    · exact Function.update_of_ne (took rfl) _ _
  cases sent with
  | none =>
    show (if takes then state.take (stage - 1) else state).queue other = _
    simpa using htaken
  | some payloads =>
    show ((if takes then state.take (stage - 1) else state).send ⟨stage, slot, some thread⟩ payloads).queue other = _
    rcases eq_or_ne other stage with rfl | hne
    · simp [State.send, htaken]
    · simp [State.send, hne, htaken]

/-- A thread of the final stage that moves has a main thread that waits for it. -/
theorem FinalStage.working (h : FinalStage config state) {move : Move Payload} {outcome : Outcome Payload}
    (hthread : thread < config.loops config.final)
    (hloop : loopStep (config.stage config.final) (Config.root config.final) config.threshold
      (state.view config.final slot) ((state.slot (config.final, slot)).loop thread) move = some outcome) :
    (state.slot (config.final, slot)).main = .working := by
  by_contra hmain
  rw [loopStep_of_ended (h.ended slot hmain thread hthread)] at hloop
  cases hloop

theorem FinalStage.puts_thread (h : FinalStage config state) {move : Move Payload}
    (hstep : step config state (.thread stage slot thread move) = some next) : Puts config state next := by
  obtain ⟨hstage, hslot, hthread, outcome, hloop, rfl⟩ := step_thread_cases hstep
  have hfinal : outcome.took = true → config.final ≠ stage - 1 := by
    intro htook
    have hroot := root_of_took hloop htook
    rw [Config.root, decide_eq_false_iff_not] at hroot
    unfold Config.final
    omega
  rcases eq_or_ne config.final stage with rfl | hne
  · cases hsent : outcome.sent with
    | none =>
      refine .nothing ?_ ?_
      · simp [apply_log, hsent]
      · simp [apply_queue hfinal, hsent]
    | some payloads =>
      have hworking := h.working hthread hloop
      refine .items ⟨config.final, slot, some thread⟩ payloads ?_ ?_ ?_ ?_
      · rintro rfl
        exact sent_ne_nil hloop hsent
      · exact h.tally.stage_open hslot (by simp [hworking, Main.past]) (by simp [hworking])
      · simp [apply_log, hsent]
      · simp [apply_queue hfinal, hsent]
  · refine .nothing ?_ ?_
    · rw [apply_log, Function.update_of_ne hne]
    · rw [apply_queue hfinal, if_neg hne, List.append_nil]

theorem FinalStage.puts_main (h : FinalStage config state) {move : MainMove Payload}
    (hstep : step config state (.main stage slot move) = some next) : Puts config state next := by
  obtain ⟨-, hslot, hmain⟩ := step_main_cases hstep
  obtain ⟨-, -, houtput⟩ := stepMain_output hmain
  rcases eq_or_ne config.final stage with rfl | hne
  · rcases houtput with ⟨hqueue, hlog, -⟩ | ⟨payloads, hsome, hsends, hqueue, hlog, -⟩ | ⟨hqueue, hlog, -⟩ |
      ⟨hqueue, hlog, -⟩
    · exact .nothing (by rw [hlog]) (by rw [hqueue])
    · rcases hsends with hflushing | ⟨todo, payload, pending, hparking⟩
      · refine .items ⟨config.final, slot, none⟩ payloads hsome ?_ ?_ ?_
        · exact h.tally.stage_open hslot (by simp [hflushing, Main.past]) (by simp [hflushing])
        · simp [hlog, State.send]
        · simp [hqueue, State.send]
      · have hnone := (h.released slot _ _ hparking).2
        cases hnone
    · exact .fin (by simp [hlog]) (by simp [hqueue])
    · exact .done (by simp [hlog]) (by rw [hqueue])
  · rcases houtput with ⟨hqueue, hlog, -⟩ | ⟨payloads, -, -, hqueue, hlog, -⟩ | ⟨hqueue, hlog, -⟩ |
      ⟨hqueue, hlog, -⟩
    · exact .nothing (by rw [hlog]) (by rw [hqueue])
    · exact .nothing (by simp [hlog, State.send, hne]) (by simp [hqueue, State.send, hne])
    · exact .nothing (by simp [hlog, hne]) (by simp [hqueue, hne])
    · exact .nothing (by simp [hlog, hne]) (by rw [hqueue])

/-- Nothing that a step puts on the final queue is a payload behind an `End`. -/
theorem FinalStage.behind_of_puts (h : FinalStage config state) (puts : Puts config state next) :
    (next.log config.final).Pairwise fun first second ↦ first.closes = true → second.payloads = [] := by
  cases puts with
  | nothing log queue =>
    rw [log]
    exact h.behind
  | items producer payloads some isOpen log queue =>
    rw [log, List.pairwise_append]
    refine ⟨h.behind, List.pairwise_singleton _ _, ?_⟩
    intro entry hentry _ _ closes
    rw [isOpen entry hentry] at closes
    cases closes
  | fin log queue =>
    rw [log, List.pairwise_append]
    refine ⟨h.behind, List.pairwise_singleton _ _, ?_⟩
    intro _ _ last hlast _
    rw [List.mem_singleton.mp hlast]
    rfl
  | done log queue =>
    rw [log, List.pairwise_append]
    refine ⟨h.behind, List.pairwise_singleton _ _, ?_⟩
    intro _ _ last hlast _
    rw [List.mem_singleton.mp hlast]
    rfl

theorem FinalStage.step_thread (h : FinalStage config state) {move : Move Payload}
    (hstep : step config state (.thread stage slot thread move) = some next) : FinalStage config next := by
  have puts := h.puts_thread hstep
  have tally := h.tally.step rfl hstep
  obtain ⟨hstage, hslot, hthread, outcome, hloop, rfl⟩ := step_thread_cases hstep
  have mains : ∀ other, ((state.apply stage slot thread outcome).slot (config.final, other)).main =
      (state.slot (config.final, other)).main := by
    intro other
    rw [apply_slot]
    rcases eq_or_ne (config.final, other) (stage, slot) with heq | hne
    · rw [heq, Function.update_self]
    · rw [Function.update_of_ne hne]
  constructor
  · exact tally
  · intro other hmain
    rw [mains] at hmain
    rcases eq_or_ne (config.final, other) (stage, slot) with heq | hne
    · cases heq
      exact absurd (h.working hthread hloop) hmain
    · rw [apply_slot, Function.update_of_ne hne]
      exact h.ended other hmain
  · intro other todo pending hmain
    rw [mains] at hmain
    exact h.released other todo pending hmain
  · refine h.ending.congr (fun other ↦ by rw [mains]) (by rw [apply_count]) ?_ (by rw [apply_done])
    rw [apply_log]
    rcases eq_or_ne config.final stage with heq | hne
    · cases hsent : outcome.sent <;> simp [heq, Entry.isEnd]
    · rw [Function.update_of_ne hne]
  · exact h.behind_of_puts puts
  · rw [apply_done]
    exact h.placed

theorem FinalStage.step_main (h : FinalStage config state) {move : MainMove Payload}
    (hstep : step config state (.main stage slot move) = some next)
    (accepted : stage = config.final → move ≠ .putEnd false)
    (waits : stage = config.final → move = .leave → state.allEnded config stage slot = true)
    (released : ∀ results, stage = config.final → move = .release results →
      (config.stage stage).threaded = true ∨ results = []) : FinalStage config next := by
  have puts := h.puts_main hstep
  have tally := h.tally.step rfl hstep
  obtain ⟨hstage, hslot, hmain⟩ := step_main_cases hstep
  obtain ⟨value, slots, loops, -, leaves⟩ := stepMain_slot hmain
  constructor
  · exact tally
  · intro other working
    rw [slots] at working ⊢
    rcases eq_or_ne (config.final, other) (stage, slot) with heq | hne
    · cases heq
      rw [Function.update_self, loops]
      by_cases before : (state.slot (config.final, slot)).main = .working
      · exact allEnded_iff.mp (waits rfl (leaves before))
      · exact h.ended slot before
    · rw [Function.update_of_ne hne] at working ⊢
      exact h.ended other working
  · intro other todo pending parking
    rcases eq_or_ne (config.final, other) (stage, slot) with heq | hne
    · cases heq
      rcases stepMain_parking hmain parking with ⟨process, rfl, rfl⟩ | ⟨todo', pending', before, held⟩
      · rcases released todo rfl rfl with threaded | empty
        · rw [threaded] at process
          cases process
        · exact ⟨empty, rfl⟩
      · obtain ⟨rfl, rfl⟩ := h.released slot _ _ before
        simp at held
    · rw [slots, Function.update_of_ne hne] at parking
      exact h.released other todo pending parking
  · rcases eq_or_ne stage config.final with rfl | hne
    · exact h.ending.main h.tally hslot hmain (accepted rfl)
    · obtain ⟨count, log, done⟩ := stepMain_other hmain hne.symm
      refine h.ending.congr (fun other ↦ ?_) count (by rw [log]) done
      rw [slots, Function.update_of_ne (by simp [hne.symm])]
  · exact h.behind_of_puts puts
  · intro _
    omega

end Final

/-! ## The readers -/

theorem perm_flatMap_range (before after : ℕ → List Payload) {count id : ℕ} (hid : id < count)
    {extra : List Payload} (here : (after id).Perm (before id ++ extra))
    (others : ∀ other ≠ id, after other = before other) :
    ((List.range count).flatMap after).Perm ((List.range count).flatMap before ++ extra) := by
  induction count with
  | zero => exact absurd hid (Nat.not_lt_zero id)
  | succ count ih =>
    simp only [List.range_succ, List.flatMap_append, List.flatMap_singleton]
    rcases eq_or_ne id count with rfl | hne
    · have below : (List.range id).flatMap after = (List.range id).flatMap before := by
        refine List.flatMap_congr fun other hother ↦ others other ?_
        exact (List.mem_range.mp hother).ne
      rw [below, List.append_assoc]
      exact here.append_left _
    · rw [others count hne.symm]
      refine ((ih (by omega)).append_right _).trans ?_
      rw [List.append_assoc, List.append_assoc]
      exact List.perm_append_comm.append_left _

theorem countP_range_succ (before after : ℕ → Bool) {count id : ℕ} (hid : id < count)
    (was : before id = false) (now : after id = true) (others : ∀ other ≠ id, after other = before other) :
    (List.range count).countP after = (List.range count).countP before + 1 := by
  induction count with
  | zero => exact absurd hid (Nat.not_lt_zero id)
  | succ count ih =>
    simp only [List.range_succ, List.countP_append, List.countP_singleton]
    rcases eq_or_ne id count with rfl | hne
    · have below : (List.range id).countP after = (List.range id).countP before := by
        refine List.countP_congr fun other hother ↦ ?_
        rw [others other (List.mem_range.mp hother).ne]
      simp [below, was, now]
    · rw [ih (by omega), others count hne.symm]
      omega

/-- What holds of the readers and the final queue: no payload is lost or read twice, an `End` is on the
queue or has stopped one reader, and behind an `End` there is nothing to read. -/
structure Serving (config : Config) (state : Served Payload) : Prop where
  final : FinalStage config state.pipe
  carries : .items [] ∉ state.pipe.queue config.final
  behind : (state.pipe.queue config.final).Pairwise fun first second ↦
    first.isEnd = true → second.payloads = []
  once : (((List.range config.consumers).flatMap fun id ↦
    (state.consumer id).returned ++ (state.consumer id).buffer) ++ state.pipe.waiting config.final).Perm
      (state.pipe.output config.final)
  fins : (state.pipe.log config.final).countP Entry.isEnd =
    ((List.range config.consumers).countP fun id ↦ (state.consumer id).ended) +
      (state.pipe.queue config.final).countP Message.isEnd
  stopped : ∀ id < config.consumers, (state.consumer id).ended = true →
    state.pipe.waiting config.final = [] ∧ (state.consumer id).buffer = []

section Readers

variable {config : Config} {maxsize : ℕ} {state next : Served Payload}

theorem serving_start : Serving config (Served.start config : Served Payload) where
  final := finalStage_start
  carries := by simp [Served.start, State.start]
  behind := .nil
  once := by simp [Served.start, State.start, State.waiting, State.output]
  fins := by simp [Served.start, State.start]
  stopped id _ ended := by cases ended

/-- While the final stage is open no `End` is on its queue and no reader has stopped. -/
theorem Serving.running (h : Serving config state)
    (isOpen : ∀ entry ∈ state.pipe.log config.final, entry.closes = false) :
    (∀ message ∈ state.pipe.queue config.final, message.isEnd = false) ∧
      ∀ id < config.consumers, (state.consumer id).ended = false := by
  have none : (state.pipe.log config.final).countP Entry.isEnd = 0 := by
    rw [List.countP_eq_zero]
    intro entry hentry isEnd
    have closes := isOpen entry hentry
    cases entry <;> simp [Entry.isEnd, Entry.closes] at isEnd closes
  have fins := h.fins
  rw [none, eq_comm, Nat.add_eq_zero_iff, List.countP_eq_zero, List.countP_eq_zero] at fins
  refine ⟨fun message hmessage ↦ by simpa using fins.2 message hmessage, fun id hid ↦ ?_⟩
  simpa using fins.1 id (List.mem_range.mpr hid)

theorem Serving.puts (h : Serving config state) {pipe : State Payload} (final : FinalStage config pipe)
    (puts : Puts config state.pipe pipe) : Serving config { state with pipe := pipe } := by
  cases puts with
  | nothing log queue =>
    exact ⟨final, by simpa only [queue] using h.carries, by simpa only [queue] using h.behind,
      by simpa only [State.waiting, State.output, log, queue] using h.once,
      by simpa only [log, queue] using h.fins, by simpa only [State.waiting, queue] using h.stopped⟩
  | items producer payloads some isOpen log queue =>
    obtain ⟨noEnd, going⟩ := h.running isOpen
    refine ⟨final, ?_, ?_, ?_, ?_, ?_⟩
    · simp [queue, h.carries, some.symm]
    · rw [queue, List.pairwise_append]
      refine ⟨h.behind, List.pairwise_singleton _ _, fun message hmessage _ _ isEnd ↦ ?_⟩
      rw [noEnd message hmessage] at isEnd
      cases isEnd
    · have once := h.once.append_right payloads
      simpa [State.waiting, State.output, log, queue, Message.payloads, Entry.payloads] using once
    · simpa [log, queue, Entry.isEnd, Message.isEnd] using h.fins
    · intro id hid ended
      rw [going id hid] at ended
      cases ended
  | fin log queue =>
    refine ⟨final, ?_, ?_, ?_, ?_, ?_⟩
    · simp [queue, h.carries]
    · rw [queue, List.pairwise_append]
      refine ⟨h.behind, List.pairwise_singleton _ _, fun _ _ last hlast _ ↦ ?_⟩
      rw [List.mem_singleton.mp hlast]
      rfl
    · simpa [State.waiting, State.output, log, queue, Message.payloads, Entry.payloads] using h.once
    · simp [log, queue, Entry.isEnd, Message.isEnd, h.fins, Nat.add_assoc]
    · simpa [State.waiting, queue, Message.payloads] using h.stopped
  | done log queue =>
    refine ⟨final, ?_, ?_, ?_, ?_, ?_⟩
    · simpa [queue] using h.carries
    · simpa [queue] using h.behind
    · simpa [State.waiting, State.output, log, queue, Entry.payloads] using h.once
    · simpa [log, queue, Entry.isEnd] using h.fins
    · simpa [State.waiting, queue] using h.stopped

/-- A reader returns what its channel holds, or takes the first message of the queue. -/
theorem stepRead_cases {id : ℕ} (h : stepRead config state id = some next) :
    id < config.consumers ∧ (state.consumer id).ended = false ∧
      ((∃ payload rest, (state.consumer id).buffer = payload :: rest ∧ next.pipe = state.pipe ∧
        next.consumer = Function.update state.consumer id
          { buffer := rest, returned := (state.consumer id).returned ++ [payload], ended := false }) ∨
      (∃ payload rest queue, (state.consumer id).buffer = [] ∧
        state.pipe.queue config.final = .items (payload :: rest) :: queue ∧
        next.pipe = state.pipe.take config.final ∧ next.consumer = Function.update state.consumer id
          { buffer := rest, returned := (state.consumer id).returned ++ [payload], ended := false }) ∨
      ∃ queue, (state.consumer id).buffer = [] ∧ state.pipe.queue config.final = .fin :: queue ∧
        next.pipe = state.pipe.take config.final ∧ next.consumer = Function.update state.consumer id
          { buffer := [], returned := (state.consumer id).returned, ended := true }) := by
  simp only [stepRead] at h
  split at h
  · rename_i bounds
    simp only [Bool.and_eq_true, decide_eq_true_eq, Bool.not_eq_eq_eq_not, Bool.not_true] at bounds
    refine ⟨bounds.1, bounds.2, ?_⟩
    split at h
    · cases h
    · rename_i payload buffer took received
      cases h
      cases hbuffer : (state.consumer id).buffer with
      | cons first rest =>
        rw [hbuffer] at received
        cases received
        exact .inl ⟨first, _, rfl, rfl, rfl⟩
      | nil =>
        rw [hbuffer] at received
        cases hqueue : state.pipe.queue config.final with
        | nil =>
          rw [hqueue] at received
          cases received
        | cons message queue =>
          rw [hqueue] at received
          cases message with
          | fin =>
            cases received
            exact .inr (.inr ⟨queue, rfl, rfl, rfl, by simp⟩)
          | items payloads =>
            cases payloads with
            | nil => cases received
            | cons first rest =>
              cases received
              exact .inr (.inl ⟨first, _, queue, rfl, rfl, rfl, rfl⟩)
  · cases h

theorem FinalStage.take {pipe : State Payload} (h : FinalStage config pipe) {stage : ℕ} :
    FinalStage config (pipe.take stage) where
  tally := h.tally.congr rfl rfl rfl fun _ _ member _ ↦ member
  ended := h.ended
  released := h.released
  ending := h.ending.congr (fun _ ↦ rfl) rfl rfl rfl
  behind := h.behind
  placed := h.placed

/-- What a reader's take from the queue adds to what it holds. -/
theorem Serving.take (h : Serving config state) {id : ℕ} (hid : id < config.consumers)
    (going : (state.consumer id).ended = false) {message : Message Payload} {queue : List (Message Payload)}
    (hqueue : state.pipe.queue config.final = message :: queue) {value : Consumer Payload}
    (holds : value.returned ++ value.buffer =
      (state.consumer id).returned ++ (state.consumer id).buffer ++ message.payloads)
    (ends : value.ended = message.isEnd) (stops : message.isEnd = true → value.buffer = []) :
    Serving config
      { pipe := state.pipe.take config.final, consumer := Function.update state.consumer id value } := by
  have taken : (state.pipe.take config.final).queue config.final = queue := by simp [State.take, hqueue]
  have waits : state.pipe.waiting config.final =
      message.payloads ++ (state.pipe.take config.final).waiting config.final := by
    simp [State.waiting, taken, hqueue]
  have behind := h.behind
  rw [hqueue, List.pairwise_cons] at behind
  have carries := h.carries
  rw [hqueue, List.mem_cons, not_or] at carries
  refine ⟨h.final.take, ?_, ?_, ?_, ?_, ?_⟩
  · rw [taken]
    exact carries.2
  · rw [taken]
    exact behind.2
  · have held := perm_flatMap_range
      (fun other ↦ (state.consumer other).returned ++ (state.consumer other).buffer)
      (fun other ↦ (Function.update state.consumer id value other).returned ++
        (Function.update state.consumer id value other).buffer) hid
      (by rw [Function.update_self, holds]) (fun other different ↦ by rw [Function.update_of_ne different])
    have once := h.once
    rw [waits, ← List.append_assoc] at once
    exact (held.append_right _).trans once
  · have fins := h.fins
    rw [hqueue, List.countP_cons] at fins
    rw [taken]
    show (state.pipe.log config.final).countP Entry.isEnd = _
    rw [fins]
    cases hend : message.isEnd with
    | false =>
      have same : (fun other ↦ (Function.update state.consumer id value other).ended) =
          fun other ↦ (state.consumer other).ended := by
        funext other
        rcases eq_or_ne other id with rfl | different
        · rw [Function.update_self, ends, hend, going]
        · rw [Function.update_of_ne different]
      simp [same]
    | true =>
      rw [countP_range_succ (fun other ↦ (state.consumer other).ended)
        (fun other ↦ (Function.update state.consumer id value other).ended) hid going
        (by simp [ends, hend]) (fun other different ↦ by simp [different])]
      simp only [if_true]
      omega
  · intro other hother ended
    rcases eq_or_ne other id with rfl | different
    · -- This reader has stopped: what the `End` was in front of carries nothing.
      simp only [Function.update_self] at ended ⊢
      rw [ends] at ended
      refine ⟨?_, stops ended⟩
      rw [State.waiting, taken, List.flatMap_eq_nil_iff]
      exact fun later hlater ↦ behind.1 later hlater ended
    · simp only [Function.update_of_ne different] at ended ⊢
      obtain ⟨empty, buffer⟩ := h.stopped other hother ended
      rw [waits, List.append_eq_nil_iff] at empty
      exact ⟨empty.2, buffer⟩

/-- A reader that returns a payload of its buffer holds the same payloads. -/
theorem Serving.unpack (h : Serving config state) {id : ℕ} (going : (state.consumer id).ended = false)
    {value : Consumer Payload}
    (holds : value.returned ++ value.buffer = (state.consumer id).returned ++ (state.consumer id).buffer)
    (ends : value.ended = false) :
    Serving config { state with consumer := Function.update state.consumer id value } := by
  have held : ∀ other, (Function.update state.consumer id value other).returned ++
      (Function.update state.consumer id value other).buffer =
      (state.consumer other).returned ++ (state.consumer other).buffer := by
    intro other
    rcases eq_or_ne other id with rfl | different
    · rw [Function.update_self, holds]
    · rw [Function.update_of_ne different]
  have ended : ∀ other, (Function.update state.consumer id value other).ended = (state.consumer other).ended := by
    intro other
    rcases eq_or_ne other id with rfl | different
    · rw [Function.update_self, ends, going]
    · rw [Function.update_of_ne different]
  refine ⟨h.final, h.carries, h.behind, ?_, ?_, ?_⟩
  · simpa only [held] using h.once
  · simpa only [ended] using h.fins
  · intro other hother stopped
    rw [ended] at stopped
    rcases eq_or_ne other id with rfl | different
    · rw [going] at stopped
      cases stopped
    · simp only [Function.update_of_ne different]
      exact h.stopped other hother stopped

/-- What a reader takes it returns or buffers, and an `End` stops it with nothing left to read. -/
theorem Serving.read (h : Serving config state) {id : ℕ} (hstep : stepRead config state id = some next) :
    Serving config next := by
  obtain ⟨pipe, consumer⟩ := next
  obtain ⟨hid, going, effect⟩ := stepRead_cases hstep
  rcases effect with ⟨payload, rest, hbuffer, hpipe, hconsumer⟩ |
    ⟨payload, rest, queue, hbuffer, hqueue, hpipe, hconsumer⟩ | ⟨queue, hbuffer, hqueue, hpipe, hconsumer⟩
  · cases hpipe
    cases hconsumer
    exact h.unpack going (by simp [hbuffer]) rfl
  · cases hpipe
    cases hconsumer
    exact h.take hid going hqueue (by simp [hbuffer, Message.payloads]) rfl (by simp [Message.isEnd])
  · cases hpipe
    cases hconsumer
    exact h.take hid going hqueue (by simp [hbuffer, Message.payloads]) rfl (by simp)

theorem stepPipe_cases {action : Action Payload} (h : stepPipe config maxsize state action = some next) :
    (∀ move, action ≠ .reader move) ∧ step config state.pipe action = some next.pipe ∧
      next.consumer = state.consumer := by
  unfold stepPipe at h
  split at h
  · cases h
  · rename_i notReader
    refine ⟨notReader, ?_⟩
    rw [Option.bind_eq_some_iff] at h
    obtain ⟨pipe, hstep, h⟩ := h
    split at h
    · split at h <;> cases h
      exact ⟨hstep, rfl⟩
    · split at h <;> cases h
      exact ⟨hstep, rfl⟩

/-- What a step of the pipeline or of a reader preserves. -/
theorem Serving.step (h : Serving config state) {action : ServedAction Payload} (calm : action.calm = true)
    (allowed : delivers config state action = true) (hstep : stepServed config maxsize state action = some next) :
    Serving config next := by
  cases action with
  | read id => exact h.read hstep
  | pipe action =>
    obtain ⟨notReader, hpipe, hconsumer⟩ := stepPipe_cases hstep
    obtain ⟨pipe, consumer⟩ := next
    cases hconsumer
    cases action with
    | thread stage slot thread move => exact h.puts (h.final.step_thread hpipe) (h.final.puts_thread hpipe)
    | main stage slot move =>
      refine h.puts (h.final.step_main hpipe ?_ ?_ ?_) (h.final.puts_main hpipe)
      · rintro rfl rfl
        simp [delivers] at allowed
      · rintro rfl rfl
        simpa [delivers] using allowed
      · rintro results rfl rfl
        simpa [delivers] using allowed
    | reader move => exact absurd rfl (notReader move)
    | die stage slot => cases calm
    | respawn stage slot => cases calm

/-- A reader that has not stopped can go on once as many `End`s are on the queue as such readers. -/
theorem Serving.goes (h : Serving config state)
    (available : (state.pipe.queue config.final).countP Message.isEnd =
      (List.range config.consumers).countP fun id ↦ !(state.consumer id).ended)
    {id : ℕ} (hid : id < config.consumers) (going : (state.consumer id).ended = false) :
    (stepRead config state id).isSome = true := by
  have some : 0 < (state.pipe.queue config.final).countP Message.isEnd := by
    rw [available, List.countP_pos_iff]
    exact ⟨id, List.mem_range.mpr hid, by simp [going]⟩
  have receives : (receive (state.consumer id).buffer (state.pipe.queue config.final)).isSome = true := by
    cases (state.consumer id).buffer with
    | cons payload rest => rfl
    | nil =>
      have carries := h.carries
      cases hqueue : state.pipe.queue config.final with
      | nil => simp [hqueue] at some
      | cons message queue =>
        cases message with
        | fin => rfl
        | items payloads =>
          cases payloads with
          | nil => simp [hqueue] at carries
          | cons payload rest => rfl
  obtain ⟨⟨payload, buffer, took⟩, received⟩ := Option.isSome_iff_exists.mp receives
  simp [stepRead, hid, going, received]

theorem serving_of_reachable
    (h : ((servedMachine Payload config maxsize).restrict fun state action ↦
      action.calm && delivers config state action).Reachable state) : Serving config state := by
  refine h.invariant (Serving config) serving_start ?_
  intro state action next serving hstep
  obtain ⟨hallowed, hnext⟩ := Machine.restrict_step hstep
  rw [Bool.and_eq_true] at hallowed
  exact serving.step hallowed.1 hallowed.2 hnext

/-- The last worker of a stage that is done has put all its `End`s. -/
theorem Ending.ends_of_done {pipe : State Payload} {stage : ℕ} (h : Ending config stage pipe)
    (done : pipe.done stage = true) : (pipe.log stage).countP Entry.isEnd = config.ends stage := by
  by_cases few : pipe.count stage = 0 ∨ pipe.count stage < (config.stage stage).workers
  · rw [(h.few few).2.2] at done
    cases done
  · rcases h.all (by omega) (by omega) with ⟨-, ends, -⟩ | ⟨notDone, -⟩
    · exact ends
    · rw [notDone] at done
      cases done

/-- In every run in which no put of an `End` on the final queue gives up, each of the readers has an
`End` when the final stage is done, behind all payloads, and each payload goes to one of them. -/
theorem everyEnd_of_delivers (readers : 0 < config.consumers)
    (h : ((servedMachine Payload config maxsize).restrict fun state action ↦
      action.calm && delivers config state action).Reachable state)
    (done : state.pipe.done config.final = true) : EveryEnd config state := by
  have serving := serving_of_reachable h
  have ends : (state.pipe.log config.final).countP Entry.isEnd = config.consumers := by
    have placed := serving.final.placed done
    rw [serving.final.ending.ends_of_done done, Config.ends, Config.final, if_pos (by omega)]
  have available : (state.pipe.queue config.final).countP Message.isEnd =
      (List.range config.consumers).countP fun id ↦ !(state.consumer id).ended := by
    have total := List.length_eq_countP_add_countP (fun id ↦ (state.consumer id).ended)
      (l := List.range config.consumers)
    have fins := serving.fins
    simp only [List.length_range, Bool.not_eq_true, Bool.decide_eq_false] at total
    omega
  constructor
  · exact ends
  · refine serving.final.behind.imp fun behind isEnd ↦ behind ?_
    rename_i first second
    cases first <;> simp [Entry.isEnd, Entry.closes] at isEnd ⊢
  · exact serving.once
  · exact available
  · exact fun id hid going ↦ serving.goes available hid going
  · intro all
    have once := serving.once
    have empty := (serving.stopped 0 readers (all 0 readers)).1
    have buffers : ((List.range config.consumers).flatMap fun id ↦
        (state.consumer id).returned ++ (state.consumer id).buffer) =
        (List.range config.consumers).flatMap fun id ↦ (state.consumer id).returned := by
      refine List.flatMap_congr fun id hid ↦ ?_
      have hid := List.mem_range.mp hid
      rw [(serving.stopped id hid (all id hid)).2, List.append_nil]
    rwa [empty, List.append_nil, buffers] at once

end Readers

def twoReaders : Config where
  depth := 1
  stage := fun _ ↦ .plain false 1 1
  threshold := 1
  consumers := 2

/-- The queue holds two messages: the first reader takes the payload before the second `End` is put,
and both then read their `End`. -/
def bothEnds : List (ServedAction ℕ) :=
  (sourceRun 7 ++ finishRun 0 0).map ServedAction.pipe ++ [ServedAction.pipe (.main 0 0 (.putEnd true)), .read 0] ++
    (endRun 0 0).map ServedAction.pipe ++ [ServedAction.read 0, .read 1]

/-- One payload, two readers and room for two messages: one reader returns the payload, and both stop. -/
theorem everyEnd_bothEnds : ∃ state : Served ℕ,
    ((servedMachine ℕ twoReaders 2).restrict fun state action ↦
      action.calm && delivers twoReaders state action).runFrom (Served.start twoReaders) bothEnds = some state ∧
    (state.consumer 0).returned = [7] ∧ (state.consumer 1).ended = true ∧ EveryEnd twoReaders state := by
  have hends : ∃ state : Served ℕ, ((servedMachine ℕ twoReaders 2).restrict fun state action ↦
      action.calm && delivers twoReaders state action).runFrom (Served.start twoReaders) bothEnds = some state ∧
      (state.consumer 0).returned = [7] ∧ (state.consumer 1).ended = true ∧
      state.pipe.done twoReaders.final = true := ⟨_, rfl, rfl, rfl, rfl⟩
  obtain ⟨state, hrun, returned, ended, done⟩ := hends
  exact ⟨state, hrun, returned, ended, everyEnd_of_delivers (by decide) ⟨bothEnds, hrun⟩ done⟩

/-- The queue holds one message and nobody reads it for a second: the put of the first `End` gives up. -/
def noEnds : List (ServedAction ℕ) :=
  (sourceRun 7 ++ finishRun 0 0).map ServedAction.pipe ++
    [ServedAction.pipe (.main 0 0 (.putEnd false)), .pipe (.main 0 0 .setDone)]

/-- The put of the first `End` gives up on a full queue, and no reader ever gets one. -/
theorem not_everyEnd : ¬ ∀ (config : Config) (maxsize : ℕ) (state : Served ℕ), 0 < config.consumers →
    ((servedMachine ℕ config maxsize).restrict fun _ action ↦ action.calm).Reachable state →
    state.pipe.done config.final = true → EveryEnd config state := by
  intro everyEnd
  have hends : ∃ state : Served ℕ, ((servedMachine ℕ twoReaders 1).restrict fun _ action ↦ action.calm).runFrom
      (Served.start twoReaders) noEnds = some state ∧
      state.pipe.log twoReaders.final = [.put ⟨0, 0, some 0⟩ [7], .done] ∧
      state.pipe.done twoReaders.final = true := ⟨_, rfl, rfl, rfl⟩
  obtain ⟨state, hrun, log, done⟩ := hends
  have ends := (everyEnd twoReaders 1 state (by decide) ⟨noEnds, hrun⟩ done).ends
  rw [log] at ends
  cases ends

end GpuPipe.Pipeline
