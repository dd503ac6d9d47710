import GpuPipe.Pipeline.Counts

/-!
# End comes last

What a producer has made is what it has put, then what is still in its hands. A stage is closed
only at a full count, when every thread has ended with empty hands, so everything the stage
makes is on its output before the first `End` and nothing follows.
-/

namespace GpuPipe.Pipeline

variable {Payload : Type} {config : Config} {state next : State Payload} {stage slot thread : ℕ}

/-! ## Logs that are closed -/

/-- Everything these producers have made stands before the first closing entry, and only
closing entries follow it. -/
def Sealed (real : Producer → Prop) (log : List (Entry Payload)) (made : Producer → List Payload) : Prop :=
  ∀ before entry after, log = before ++ entry :: after → entry.closes = true →
    (∀ later ∈ after, later.payloads = []) ∧
      ∀ producer, real producer → made producer = before.flatMap (Entry.payloadsOf producer)

section Sealed

variable {real : Producer → Prop} {log : List (Entry Payload)} {made made' : Producer → List Payload}

theorem sealed_of_open (h : ∀ entry ∈ log, entry.closes = false) : Sealed real log made := by
  intro before entry after hlog hcloses
  have hopen : entry.closes = false := h entry (by simp [hlog])
  rw [hopen] at hcloses
  cases hcloses

theorem Sealed.congr (h : Sealed real log made) (hmade : ∀ producer, real producer → made' producer = made producer) :
    Sealed real log made' := by
  intro before entry after hlog hcloses
  obtain ⟨hafter, hbefore⟩ := h before entry after hlog hcloses
  refine ⟨hafter, fun producer hreal ↦ ?_⟩
  rw [hmade producer hreal, hbefore producer hreal]

theorem payloads_of_closes {entry : Entry Payload} (h : entry.closes = true) : entry.payloads = [] := by
  cases entry with
  | put producer payloads => cases h
  | fin => rfl
  | done => rfl

/-- A closing entry goes on a log that holds everything made. -/
theorem Sealed.close (h : Sealed real log made) {last : Entry Payload} (hlast : last.closes = true)
    (hmade : ∀ producer, real producer → made producer = log.flatMap (Entry.payloadsOf producer)) :
    Sealed real (log ++ [last]) made := by
  intro before entry after hlog hcloses
  rcases List.eq_nil_or_concat after with rfl | ⟨rest, final, rfl⟩
  · obtain ⟨rfl, -⟩ := List.append_inj' hlog rfl
    exact ⟨by simp, hmade⟩
  · have hsplit : log ++ [last] = (before ++ entry :: rest) ++ [final] := by
      rw [hlog]
      simp
    obtain ⟨hinit, hfinal⟩ := List.append_inj' hsplit rfl
    obtain ⟨hrest, hbefore⟩ := h before entry rest hinit hcloses
    refine ⟨fun later hlater ↦ ?_, hbefore⟩
    rw [List.concat_eq_append, List.mem_append] at hlater
    rcases hlater with hin | hin
    · exact hrest later hin
    · rw [List.mem_singleton.mp hin, ← List.singleton_inj.mp hfinal]
      exact payloads_of_closes hlast

end Sealed

/-! ## Workers that release their GPU -/

/-- `on_park` has nothing to return once a process worker has finished. -/
def parksEmpty (config : Config) : Action Payload → Bool
  | .main stage _ (.release results) => (config.stage stage).threaded || results.isEmpty
  | _ => true

def Released (state : State Payload) : Prop :=
  ∀ stage slot todo pending, (state.slot (stage, slot)).main = .parking todo pending → todo = [] ∧ pending = []

theorem released_start : Released (State.start config : State Payload) := by
  intro stage slot todo pending hmain
  cases hmain

theorem released_of_slot (h : Released state) {value : Slot Payload}
    (hslot : next.slot = Function.update state.slot (stage, slot) value)
    (hvalue : ∀ todo pending, value.main = .parking todo pending → todo = [] ∧ pending = []) : Released next := by
  intro stage' slot' todo pending hmain
  rw [hslot] at hmain
  rcases eq_or_ne (stage', slot') (stage, slot) with heq | hne
  · cases heq
    rw [Function.update_self] at hmain
    exact hvalue todo pending hmain
  · rw [Function.update_of_ne hne] at hmain
    exact h stage' slot' todo pending hmain

/-- A main thread has nothing to send after it has released its GPU empty-handed. -/
theorem released_main (h : Released state) {move : MainMove Payload}
    (hempty : parksEmpty config (.main stage slot move) = true)
    (hstep : stepMain config state stage slot move = some next) : Released next := by
  obtain ⟨value, hslot, -, -, -⟩ := stepMain_slot hstep
  apply released_of_slot h hslot
  intro todo pending hmain
  have hnext : (next.slot (stage, slot)).main = .parking todo pending := by rw [hslot, Function.update_self, hmain]
  rcases stepMain_parking hstep hnext with ⟨hthreaded, rfl, rfl⟩ | ⟨todo', pending', hbefore, hheld⟩
  · simpa [parksEmpty, hthreaded] using hempty
  · obtain ⟨rfl, rfl⟩ := h stage slot _ _ hbefore
    simp at hheld

/-- A parking main thread has nothing in its hands. -/
theorem released_step (h : Released state) {action : Action Payload} (hempty : parksEmpty config action = true)
    (hstep : step config state action = some next) : Released next := by
  cases action with
  | thread stage slot thread move =>
    obtain ⟨-, -, -, outcome, -, rfl⟩ := step_thread_cases hstep
    exact released_of_slot h apply_slot (h stage slot)
  | main stage slot move =>
    obtain ⟨-, -, hmain⟩ := step_main_cases hstep
    exact released_main h hempty hmain
  | reader move =>
    obtain ⟨hslot, -⟩ := stepReader_frame hstep
    rw [Released, hslot]
    exact h
  | die stage slot =>
    simp only [step] at hstep
    split at hstep <;> cases hstep
    exact released_of_slot h rfl (by simp)
  | respawn stage slot =>
    simp only [step] at hstep
    split at hstep <;> cases hstep
    exact released_of_slot h rfl (by simp [Slot.start])

/-! ## Outputs -/

/-- The threads and main threads of a stage's worker slots. -/
def Config.real (config : Config) (stage : ℕ) (producer : Producer) : Prop :=
  producer.stage = stage ∧ producer.slot < (config.stage stage).workers ∧
    ∀ thread, producer.thread = some thread → thread < config.loops stage

/-- All a stage makes is on its output before its first `End` and before its done event is set,
and it puts no payload after. -/
def EndLast (config : Config) (state : State Payload) (stage : ℕ) : Prop :=
  Sealed (config.real stage) (state.log stage) state.made

def State.put (state : State Payload) (producer : Producer) : List Payload :=
  (state.log producer.stage).flatMap (Entry.payloadsOf producer)

structure Outputs (state : State Payload) : Prop where
  threads : ∀ stage slot thread, state.made ⟨stage, slot, some thread⟩ =
    state.put ⟨stage, slot, some thread⟩ ++ (((state.slot (stage, slot)).loop thread).pending ++
      ((state.slot (stage, slot)).loop thread).pc.todo)
  mains : ∀ stage slot, state.made ⟨stage, slot, none⟩ = state.put ⟨stage, slot, none⟩

theorem outputs_start : Outputs (State.start config : State Payload) where
  threads stage slot thread := by
    simp only [State.start, State.put, Slot.start, Loop.start]
    split <;> rfl
  mains stage slot := rfl

def calm : Action Payload → Bool
  | .die _ _ | .respawn _ _ => false
  | _ => true

/-- Main threads wait for their pools; no move of a thread drops a payload, a full queue does not end a
`flush()`, and `on_park` has nothing to return once the worker has finished. -/
def orderly (config : Config) (state : State Payload) : Action Payload → Bool
  | .main stage slot .leave => state.allEnded config stage slot
  | .main _ _ (.flushItem _ accepted) => accepted
  | .main stage _ (.release results) => (config.stage stage).threaded || results.isEmpty
  | .thread stage slot _ move => move.keeps (state.slot (stage, slot)).stop
  | _ => true

theorem put_apply (outcome : Outcome Payload) (producer : Producer) :
    (state.apply stage slot thread outcome).put producer = state.put producer ++
      if producer = ⟨stage, slot, some thread⟩ then outcome.sent.getD [] else [] := by
  simp only [State.put, apply_log]
  rcases eq_or_ne producer.stage stage with hstage | hne
  · rw [hstage, Function.update_self, List.flatMap_append]
    congr 1
    cases outcome.sent with
    | none => simp
    | some payloads =>
      simp only [Option.map_some, Option.toList_some, List.flatMap_singleton, Entry.payloadsOf, Option.getD_some,
        eq_comm]
  · have hother : producer ≠ ⟨stage, slot, some thread⟩ := by
      rintro rfl
      exact hne rfl
    rw [Function.update_of_ne hne, if_neg hother, List.append_nil]

/-- A move that drops nothing leaves every result put, pending or still to be sent, in its order. -/
theorem Outputs.apply (h : Outputs state) {move : Move Payload} {outcome : Outcome Payload}
    (hkeeps : move.keeps (state.slot (stage, slot)).stop = true)
    (hloop : loopStep (config.stage stage) (Config.root stage) config.threshold (state.view stage slot)
      ((state.slot (stage, slot)).loop thread) move = some outcome) :
    Outputs (state.apply stage slot thread outcome) := by
  have houtput := output_step hkeeps hloop
  constructor
  · intro stage' slot' thread'
    rw [put_apply, apply_made, apply_slot]
    rcases eq_or_ne (stage', slot') (stage, slot) with heq | hne
    · cases heq
      rcases eq_or_ne thread' thread with rfl | hthread
      · simp only [Function.update_self, if_true]
        rw [h.threads, List.append_assoc, ← houtput, List.append_assoc]
      · simpa [hthread] using h.threads stage slot thread'
    · have hother : (⟨stage', slot', some thread'⟩ : Producer) ≠ ⟨stage, slot, some thread⟩ := by
        intro heq
        cases heq
        exact hne rfl
      simpa [hne, hother] using h.threads stage' slot' thread'
  · intro stage' slot'
    rw [put_apply, apply_made]
    simpa using h.mains stage' slot'

/-- A change of main threads and `thread_stop` changes no output. -/
theorem Outputs.update (h : Outputs state) {value : Slot Payload}
    (hslot : next.slot = Function.update state.slot (stage, slot) value)
    (hloop : value.loop = (state.slot (stage, slot)).loop)
    (hput : ∀ producer, next.put producer = state.put producer) (hmade : next.made = state.made) :
    Outputs next := by
  constructor
  · intro stage' slot' thread'
    rw [hput, hmade, hslot, h.threads]
    rcases eq_or_ne (stage', slot') (stage, slot) with heq | hne
    · cases heq
      rw [Function.update_self, hloop]
    · rw [Function.update_of_ne hne]
  · intro stage' slot'
    rw [hput, hmade, h.mains]

theorem Outputs.setSlot (h : Outputs state) {value : Slot Payload}
    (hloop : value.loop = (state.slot (stage, slot)).loop) : Outputs (state.setSlot stage slot value) := by
  refine h.update rfl hloop ?_ rfl
  intro producer
  rfl

/-- A main thread that makes a payload puts it at once. -/
theorem Outputs.flushItem (h : Outputs state) (payload : Payload) :
    Outputs ((state.send ⟨stage, slot, none⟩ [payload]).make ⟨stage, slot, none⟩ [payload]) := by
  have hput : ∀ producer, ((state.send ⟨stage, slot, none⟩ [payload]).make ⟨stage, slot, none⟩ [payload]).put producer =
      state.put producer ++ if producer = ⟨stage, slot, none⟩ then [payload] else [] := by
    intro producer
    simp only [State.put, State.make, State.send]
    rcases eq_or_ne producer.stage stage with hstage | hne
    · rw [hstage, Function.update_self, List.flatMap_append, List.flatMap_singleton]
      simp only [Entry.payloadsOf, eq_comm]
    · have hother : producer ≠ ⟨stage, slot, none⟩ := by
        rintro rfl
        exact hne rfl
      rw [Function.update_of_ne hne, if_neg hother, List.append_nil]
  constructor
  · intro stage' slot' thread'
    rw [hput]
    simpa [State.make, State.send] using h.threads stage' slot' thread'
  · intro stage' slot'
    rw [hput]
    simp only [State.make, State.send]
    rcases eq_or_ne (⟨stage', slot', none⟩ : Producer) ⟨stage, slot, none⟩ with heq | hne
    · cases heq
      rw [Function.update_self, if_pos rfl, h.mains]
    · rw [Function.update_of_ne hne, if_neg hne, List.append_nil, h.mains]

/-- A closing entry carries no payload. -/
theorem put_close {entry : Entry Payload} (hcloses : entry.closes = true)
    (hlog : next.log = Function.update state.log stage (state.log stage ++ [entry])) (producer : Producer) :
    next.put producer = state.put producer := by
  rw [State.put, State.put, hlog]
  rcases eq_or_ne producer.stage stage with hstage | hne
  · rw [hstage, Function.update_self, List.flatMap_append, List.flatMap_singleton]
    cases entry with
    | put other payloads => cases hcloses
    | fin => exact List.append_nil _
    | done => exact List.append_nil _
  · rw [Function.update_of_ne hne]

/-! ## One step -/

/-- A stage with a worker that has not counted is open. -/
theorem Tally.stage_open (h : Tally config state) (hslot : slot < (config.stage stage).workers)
    (hpast : (state.slot (stage, slot)).main.past = false) (halive : (state.slot (stage, slot)).main ≠ .dead) :
    ∀ entry ∈ state.log stage, entry.closes = false := by
  intro entry hentry
  by_contra hcloses
  rw [Bool.not_eq_false] at hcloses
  have hcounted := h.all_counted (h.closed stage entry hentry hcloses) hslot
  rcases (h.slots stage slot).counted hcounted with hpast' | hdead
  · rw [hpast] at hpast'
    cases hpast'
  · exact halive hdead

/-- At a full count everything the stage has made is on its output. -/
theorem Outputs.all_put (h : Outputs state) (hsettled : Settled config state) (htally : Tally config state)
    (hfull : (config.stage stage).workers ≤ state.count stage) {producer : Producer}
    (hreal : config.real stage producer) :
    state.made producer = (state.log stage).flatMap (Entry.payloadsOf producer) := by
  obtain ⟨other, slot, thread⟩ := producer
  obtain ⟨hstage, hslot, hthread⟩ := hreal
  change other = stage at hstage
  subst other
  cases thread with
  | none => exact h.mains stage slot
  | some thread =>
    have hmain := htally.not_working hfull hslot
    have hended := hsettled.ended stage slot hmain thread (hthread thread rfl)
    have hpending := (hsettled.sound stage slot thread).ended hended
    have hmade := h.threads stage slot thread
    simp only [hended, hpending, Pc.todo, List.append_nil] at hmade
    exact hmade

/-- What holds in every state of an orderly run. -/
structure Ordered (config : Config) (state : State Payload) : Prop where
  settled : Settled config state
  tally : Tally config state
  released : Released state
  outputs : Outputs state
  endLast : ∀ stage, EndLast config state stage

theorem ordered_start : Ordered config (State.start config : State Payload) where
  settled := settled_start
  tally := tally_start
  released := released_start
  outputs := outputs_start
  endLast stage := sealed_of_open fun entry hentry ↦ by cases hentry

/-- What a step leaves of other stages' logs and producers. -/
theorem endLast_of_other {other : ℕ} (h : EndLast config state other) (hne : other ≠ stage)
    (hlog : next.log other = state.log other)
    (hmade : ∀ producer, producer.stage ≠ stage → next.made producer = state.made producer) :
    EndLast config next other := by
  rw [EndLast, hlog]
  apply Sealed.congr h
  rintro producer ⟨rfl, -⟩
  exact hmade producer hne

/-- A thread moves while its stage is open. -/
theorem Ordered.endLast_apply (h : Ordered config state) {move : Move Payload} {outcome : Outcome Payload}
    (hslot : slot < (config.stage stage).workers) (hthread : thread < config.loops stage)
    (hloop : loopStep (config.stage stage) (Config.root stage) config.threshold (state.view stage slot)
      ((state.slot (stage, slot)).loop thread) move = some outcome) (other : ℕ) :
    EndLast config (state.apply stage slot thread outcome) other := by
  rcases eq_or_ne other stage with rfl | hne
  · have hworking := h.settled.working hthread hloop
    have hopen := h.tally.stage_open hslot (by simp [hworking, Main.past]) (by simp [hworking])
    apply sealed_of_open
    intro entry hentry
    rw [apply_log, Function.update_self, List.mem_append] at hentry
    rcases hentry with hbefore | hsent
    · exact hopen entry hbefore
    · rw [Option.mem_toList, Option.map_eq_some_iff] at hsent
      obtain ⟨payloads, -, rfl⟩ := hsent
      rfl
  · apply endLast_of_other (h.endLast other) hne
    · rw [apply_log, Function.update_of_ne hne]
    · intro producer hproducer
      rw [apply_made, Function.update_of_ne]
      rintro rfl
      exact hproducer rfl

/-- A closing entry goes on at a full count. -/
theorem Ordered.endLast_close (h : Ordered config state) {entry : Entry Payload}
    (hfull : (config.stage stage).workers ≤ state.count stage) (hcloses : entry.closes = true)
    (hlog : next.log = Function.update state.log stage (state.log stage ++ [entry]))
    (hmade : next.made = state.made) (other : ℕ) : EndLast config next other := by
  rcases eq_or_ne other stage with rfl | hne
  · rw [EndLast, hlog, Function.update_self, hmade]
    apply Sealed.close (h.endLast other) hcloses
    intro producer hreal
    exact h.outputs.all_put h.settled h.tally hfull hreal
  · apply endLast_of_other (h.endLast other) hne
    · rw [hlog, Function.update_of_ne hne]
    · intro producer _
      rw [hmade]

/-- A payload of a threaded worker's `flush()` goes on an open stage. -/
theorem Ordered.endLast_flushItem (h : Ordered config state) (hslot : slot < (config.stage stage).workers)
    (hmain : (state.slot (stage, slot)).main = .flushing) (payload : Payload) (other : ℕ) :
    EndLast config ((state.send ⟨stage, slot, none⟩ [payload]).make ⟨stage, slot, none⟩ [payload]) other := by
  rcases eq_or_ne other stage with rfl | hne
  · have hopen := h.tally.stage_open hslot (by simp [hmain, Main.past]) (by simp [hmain])
    apply sealed_of_open
    intro entry hentry
    simp only [State.make, State.send, Function.update_self, List.mem_append, List.mem_singleton] at hentry
    rcases hentry with hbefore | rfl
    · exact hopen entry hbefore
    · rfl
  · apply endLast_of_other (h.endLast other) hne
    · simp [State.make, State.send, hne]
    · intro producer hproducer
      simp only [State.make, State.send]
      rw [Function.update_of_ne]
      rintro rfl
      exact hproducer rfl

theorem make_nil (producer : Producer) : state.make producer [] = state := by
  simp [State.make]

/-- The outputs and the order of a stage's log after a step of a main thread. -/
theorem Ordered.main (h : Ordered config state) {move : MainMove Payload} (hslot : slot < (config.stage stage).workers)
    (horderly : orderly config state (.main stage slot move) = true)
    (hstep : stepMain config state stage slot move = some next) :
    Outputs next ∧ ∀ other, EndLast config next other := by
  have hvalue := h.tally.slots stage slot
  cases stepMain_cases hstep with
  | flushItem payload hmain => exact ⟨h.outputs.flushItem payload, h.endLast_flushItem hslot hmain payload⟩
  | flushFull payload hmain => simp [orderly] at horderly
  | count hmain => exact ⟨h.outputs.update rfl rfl (fun producer ↦ rfl) rfl, h.endLast⟩
  | putEnd left hmain =>
    have hfull := hvalue.ending _ hmain
    exact ⟨h.outputs.update rfl rfl (put_close rfl rfl) rfl, h.endLast_close hfull rfl rfl rfl⟩
  | setDone hmain =>
    have hfull := hvalue.signalling hmain
    exact ⟨h.outputs.update rfl rfl (put_close rfl rfl) rfl, h.endLast_close hfull rfl rfl rfl⟩
  | release results hmain hthreaded =>
    simp only [orderly, hthreaded, Bool.false_or, List.isEmpty_iff] at horderly
    subst horderly
    rw [make_nil]
    exact ⟨h.outputs.setSlot rfl, h.endLast⟩
  | parkSend _ _ _ hmain | parkFlush _ _ _ hmain =>
    have hnone := h.released stage slot _ _ hmain
    simp at hnone
  | _ => exact ⟨h.outputs.setSlot rfl, h.endLast⟩

theorem waits_of_orderly {action : Action Payload} (h : orderly config state action = true) :
    waits config state action = true := by
  unfold waits
  split
  · exact h
  · rfl

theorem parksEmpty_of_orderly {action : Action Payload} (h : orderly config state action = true) :
    parksEmpty config action = true := by
  unfold parksEmpty
  split
  · exact h
  · rfl

/-- What every step of an orderly run preserves. -/
theorem Ordered.step (h : Ordered config state) {action : Action Payload} (hcalm : calm action = true)
    (horderly : orderly config state action = true) (hstep : Pipeline.step config state action = some next) :
    Ordered config next := by
  have hsettled := h.settled.step (waits_of_orderly horderly) hstep
  have htally : Tally config next := by
    apply h.tally.step _ hstep
    cases action <;> simp_all [respawnsFresh, calm]
  have hreleased := released_step h.released (parksEmpty_of_orderly horderly) hstep
  cases action with
  | thread stage slot thread move =>
    obtain ⟨-, hslot, hthread, outcome, hloop, rfl⟩ := step_thread_cases hstep
    exact ⟨hsettled, htally, hreleased, h.outputs.apply horderly hloop, h.endLast_apply hslot hthread hloop⟩
  | main stage slot move =>
    obtain ⟨-, hslot, hmain⟩ := step_main_cases hstep
    obtain ⟨houtputs, hendLast⟩ := h.main hslot horderly hmain
    exact ⟨hsettled, htally, hreleased, houtputs, hendLast⟩
  | reader move =>
    obtain ⟨hslot, -, -, hlog, hmade⟩ := stepReader_frame hstep
    refine ⟨hsettled, htally, hreleased, ?_, ?_⟩
    · constructor
      · simpa only [State.put, hslot, hlog, hmade] using h.outputs.threads
      · simpa only [State.put, hlog, hmade] using h.outputs.mains
    · simpa only [EndLast, hlog, hmade] using h.endLast
  | die stage slot => cases hcalm
  | respawn stage slot => cases hcalm

theorem ordered_of_reachable
    (h : ((machine Payload config).restrict fun state action ↦ calm action && orderly config state action).Reachable
      state) : Ordered config state := by
  apply h.invariant (Ordered config)
  · exact ordered_start
  · intro state action next hstate hstep
    obtain ⟨hallowed, hnext⟩ := Machine.restrict_step hstep
    rw [Bool.and_eq_true] at hallowed
    exact hstate.step hallowed.1 hallowed.2 hnext

/-! ## End never overtakes payloads -/

/-- In an orderly run without deaths, every stage's payloads come before its first `End` and
its done event, and none after. -/
theorem end_last_of_orderly
    (h : ((machine Payload config).restrict fun state action ↦ calm action && orderly config state action).Reachable
      state) (stage : ℕ) : EndLast config state stage :=
  (ordered_of_reachable h).endLast stage

def oneWorker (threaded : Bool) : Config where
  depth := 1
  stage := fun _ ↦ .plain threaded 1 2
  threshold := 1
  consumers := 1

/-- A chunk that is not full is flushed before the `End`. -/
theorem end_last_partialChunk : ∃ state : State ℕ,
    ((machine ℕ (oneWorker false)).restrict fun state action ↦
      calm action && orderly (oneWorker false) state action).runFrom (State.start (oneWorker false))
      (sourceRun 7 ++ finishRun 0 0 ++ endRun 0 0) = some state ∧
    state.log 0 = [.put ⟨0, 0, some 0⟩ [7], .fin, .done] ∧ EndLast (oneWorker false) state 0 := by
  have hends : ∃ state : State ℕ, ((machine ℕ (oneWorker false)).restrict fun state action ↦
      calm action && orderly (oneWorker false) state action).runFrom (State.start (oneWorker false))
      (sourceRun 7 ++ finishRun 0 0 ++ endRun 0 0) = some state ∧
      state.log 0 = [.put ⟨0, 0, some 0⟩ [7], .fin, .done] := ⟨_, rfl, rfl⟩
  obtain ⟨state, hrun, hlog⟩ := hends
  exact ⟨state, hrun, hlog, end_last_of_orderly ⟨_, hrun⟩ 0⟩

/-- A source thread sets `thread_stop` with a partial chunk pending; its main thread goes on to
`_finish_worker` and puts `End`. -/
def endBeforeFlush : List (Action ℕ) :=
  [.thread 0 0 0 .call, .thread 0 0 0 (.returns [7] true), .thread 0 0 0 .send, .thread 0 0 0 .next,
    .main 0 0 .leave, .main 0 0 .flushed, .main 0 0 .count, .main 0 0 .compare, .main 0 0 (.putEnd true)]

/-- A thread sets `thread_stop` with a partial chunk pending, and the main thread puts `End` before the chunk is
flushed. -/
theorem not_end_last : ¬ ∀ (config : Config) (state : State ℕ) (stage : ℕ),
    ((machine ℕ config).restrict fun _ action ↦ calm action).Reachable state → EndLast config state stage := by
  intro hendLast
  have hends : ∃ state : State ℕ, ((machine ℕ (oneWorker true)).restrict fun _ action ↦ calm action).runFrom
      (State.start (oneWorker true)) endBeforeFlush = some state ∧ state.log 0 = [.fin] ∧
      state.made ⟨0, 0, some 0⟩ = [7] := ⟨_, rfl, rfl, rfl⟩
  obtain ⟨state, hrun, hlog, hmade⟩ := hends
  have hseal := hendLast (oneWorker true) state 0 ⟨endBeforeFlush, hrun⟩
  have hreal : (oneWorker true).real 0 ⟨0, 0, some 0⟩ :=
    ⟨rfl, by decide, by simp [Config.loops, oneWorker, Stage.plain, Stage.loops, Stage.custom]⟩
  have hput := (hseal [] .fin [] hlog rfl).2 ⟨0, 0, some 0⟩ hreal
  rw [hmade] at hput
  cases hput

end GpuPipe.Pipeline
