import GpuPipe.Pipeline.EndLast

/-!
# Completion loses nothing

A queue's payloads are taken in the order they were put. A queue that is empty of payloads
when its stage's done event is set stays so, because nothing is put on a closed stage. A loop
that leaves on an event that was set when it polled therefore leaves a drained queue behind.
-/

namespace GpuPipe.Pipeline

variable {Payload : Type} {config : Config} {state next : State Payload} {stage slot thread : ℕ}

/-! ## Payloads between a put and a take -/

def State.waiting (state : State Payload) (stage : ℕ) : List Payload :=
  (state.queue stage).flatMap Message.payloads

def State.output (state : State Payload) (stage : ℕ) : List Payload :=
  (state.log stage).flatMap Entry.payloads

theorem waiting_take (other : ℕ) : (state.take stage).taken other ++ (state.take stage).waiting other =
    state.taken other ++ state.waiting other := by
  simp only [State.take, State.waiting]
  rcases eq_or_ne other stage with rfl | hne
  · cases state.queue other with
    | nil => simp
    | cons message rest => simp
  · simp [hne]

theorem waiting_take_nil {other : ℕ} (h : state.waiting other = []) : (state.take stage).waiting other = [] := by
  simp only [State.take, State.waiting] at h ⊢
  rcases eq_or_ne other stage with rfl | hne
  · cases hqueue : state.queue other with
    | nil => simp
    | cons message rest =>
      rw [hqueue, List.flatMap_cons, List.append_eq_nil_iff] at h
      simpa [hqueue] using h.2
  · simpa [hne] using h

theorem waiting_send (producer : Producer) (payloads : List Payload) (other : ℕ) :
    (state.send producer payloads).waiting other =
      state.waiting other ++ if other = producer.stage then payloads else [] := by
  simp only [State.send, State.waiting]
  rcases eq_or_ne other producer.stage with rfl | hne
  · simp [Message.payloads]
  · simp [hne]

theorem output_send (producer : Producer) (payloads : List Payload) (other : ℕ) :
    (state.send producer payloads).output other =
      state.output other ++ if other = producer.stage then payloads else [] := by
  simp only [State.send, State.output]
  rcases eq_or_ne other producer.stage with rfl | hne
  · simp [Entry.payloads]
  · simp [hne]

/-- What a thread puts is added to what was taken and what waits. -/
theorem waiting_apply (outcome : Outcome Payload) (other : ℕ) :
    (state.apply stage slot thread outcome).taken other ++ (state.apply stage slot thread outcome).waiting other =
      state.taken other ++ state.waiting other ++ if other = stage then outcome.sent.getD [] else [] := by
  rcases outcome with ⟨loop, took, sent, made, stops⟩
  have htaken : (if took then state.take (stage - 1) else state).taken other ++
      (if took then state.take (stage - 1) else state).waiting other = state.taken other ++ state.waiting other := by
    cases took
    · rfl
    · exact waiting_take other
  cases sent with
  | none =>
    show (if took then state.take (stage - 1) else state).taken other ++
      (if took then state.take (stage - 1) else state).waiting other = _
    simpa using htaken
  | some payloads =>
    show (if took then state.take (stage - 1) else state).taken other ++
      ((if took then state.take (stage - 1) else state).send ⟨stage, slot, some thread⟩ payloads).waiting other = _
    rw [waiting_send, ← List.append_assoc, htaken]
    rfl

theorem output_apply (outcome : Outcome Payload) (other : ℕ) :
    (state.apply stage slot thread outcome).output other =
      state.output other ++ if other = stage then outcome.sent.getD [] else [] := by
  simp only [State.output, apply_log]
  rcases eq_or_ne other stage with rfl | hne
  · cases outcome.sent with
    | none => simp
    | some payloads => simp [Entry.payloads]
  · simp [hne]

theorem waiting_apply_nil {outcome : Outcome Payload} {other : ℕ} (h : state.waiting other = [])
    (hsent : other = stage → outcome.sent = none) : (state.apply stage slot thread outcome).waiting other = [] := by
  rcases outcome with ⟨loop, took, sent, made, stops⟩
  have htaken : (if took then state.take (stage - 1) else state).waiting other = [] := by
    cases took
    · exact h
    · exact waiting_take_nil h
  cases sent with
  | none => exact htaken
  | some payloads =>
    show ((if took then state.take (stage - 1) else state).send ⟨stage, slot, some thread⟩ payloads).waiting other = []
    rw [waiting_send, htaken, if_neg (fun heq ↦ by cases hsent heq)]
    rfl

/-- Every payload put has been taken or waits, and the reader has yielded or buffers what it took. -/
structure Flow (config : Config) (state : State Payload) : Prop where
  stages : ∀ stage, state.output stage = state.taken stage ++ state.waiting stage
  reader : state.reader.yielded ++ state.reader.buffer = state.taken (config.depth - 1)

theorem flow_start : Flow config (State.start config : State Payload) where
  stages _ := rfl
  reader := rfl

theorem taken_apply {outcome : Outcome Payload} {other : ℕ} (h : outcome.took = true → other ≠ stage - 1) :
    (state.apply stage slot thread outcome).taken other = state.taken other := by
  rcases outcome with ⟨loop, took, sent, made, stops⟩
  have htaken : (if took then state.take (stage - 1) else state).taken other = state.taken other := by
    cases took
    · rfl
    · exact Function.update_of_ne (h rfl) _ _
  cases sent <;> exact htaken

/-- What the reader takes it yields or buffers. -/
theorem Flow.stages_reader (h : Flow config state) {move : ReaderMove}
    (hstep : stepReader config state move = some next) : Flow config next := by
  simp only [stepReader] at hstep
  split at hstep
  · split at hstep
    · cases hstep
    · rename_i payload buffer took hreceive
      cases hstep
      have hspec := receive_spec hreceive
      constructor
      · intro stage
        have hflow : ∀ taken : State Payload, (taken = state.take (config.depth - 1) ∨ taken = state) →
            taken.output stage = taken.taken stage ++ taken.waiting stage := by
          rintro taken (rfl | rfl)
          · rw [waiting_take]
            exact h.stages stage
          · exact h.stages stage
        cases took
        · exact hflow state (.inr rfl)
        · exact hflow (state.take (config.depth - 1)) (.inl rfl)
      · have hreader := h.reader
        cases took
        · simp only [Bool.false_eq_true, if_false, List.append_nil, List.append_assoc] at hspec ⊢
          rw [hspec]
          exact hreader
        · simp only [if_true, List.append_assoc] at hspec ⊢
          rw [hspec, ← List.append_assoc, hreader]
          simp [State.take]
  · split at hstep <;> cases hstep
    exact ⟨h.stages, h.reader⟩
  · cases hstep
    exact ⟨h.stages, h.reader⟩
  · cases hstep

/-- Flow holds along every run, whatever dies. -/
theorem Flow.step (h : Flow config state) {action : Action Payload}
    (hstep : Pipeline.step config state action = some next) : Flow config next := by
  cases action with
  | thread stage slot thread move =>
    obtain ⟨hstage, -, -, outcome, hloop, rfl⟩ := step_thread_cases hstep
    constructor
    · intro other
      rw [output_apply, waiting_apply, h.stages]
    · have hfinal : outcome.took = true → config.depth - 1 ≠ stage - 1 := by
        intro htook
        have hroot := root_of_took hloop htook
        rw [Config.root, decide_eq_false_iff_not] at hroot
        omega
      rw [apply_reader, taken_apply hfinal]
      exact h.reader
  | main stage slot move =>
    obtain ⟨-, -, hmain⟩ := step_main_cases hstep
    obtain ⟨htaken, hreader, houtput⟩ := stepMain_output hmain
    refine ⟨fun other ↦ ?_, by rw [hreader, htaken]; exact h.reader⟩
    have hbefore := h.stages other
    rcases houtput with ⟨hqueue, hlog, -⟩ | ⟨payloads, -, -, hqueue, hlog, -⟩ | ⟨hqueue, hlog, -⟩ | ⟨hqueue, hlog, -⟩
    · rw [State.output, State.waiting, hqueue, hlog, htaken]
      exact hbefore
    · have hout : (state.send _ payloads).output other = _ := output_send ⟨stage, slot, none⟩ payloads other
      have hwait : (state.send _ payloads).waiting other = _ := waiting_send ⟨stage, slot, none⟩ payloads other
      rw [State.output, ← hlog] at hout
      rw [State.waiting, ← hqueue] at hwait
      rw [State.output, State.waiting, hout, hwait, htaken, hbefore, List.append_assoc]
    · simp only [State.output, State.waiting] at hbefore ⊢
      rw [hqueue, hlog, htaken]
      rcases eq_or_ne other stage with rfl | hne
      · simpa [Entry.payloads, Message.payloads] using hbefore
      · simpa [hne] using hbefore
    · simp only [State.output, State.waiting] at hbefore ⊢
      rw [hqueue, hlog, htaken]
      rcases eq_or_ne other stage with rfl | hne
      · simpa [Entry.payloads] using hbefore
      · simpa [hne] using hbefore
  | reader move => exact h.stages_reader hstep
  | die stage slot =>
    simp only [Pipeline.step] at hstep
    split at hstep <;> cases hstep
    exact ⟨h.stages, h.reader⟩
  | respawn stage slot =>
    simp only [Pipeline.step] at hstep
    split at hstep <;> cases hstep
    exact ⟨h.stages, h.reader⟩

/-! ## Drained queues -/

/-- A set event is in the log, and the stage has workers. -/
def Signalled (config : Config) (state : State Payload) : Prop :=
  ∀ stage, state.done stage = true → .done ∈ state.log stage ∧ 0 < (config.stage stage).workers

/-- The stage is done and no payload waits on its output. -/
def State.drained (state : State Payload) (stage : ℕ) : Prop :=
  state.done stage = true ∧ state.waiting stage = []

/-- What holds in every state of a run in which nothing dies, main threads wait for their pools
and workers release their GPUs empty-handed. -/
structure Steady (config : Config) (state : State Payload) : Prop where
  settled : Settled config state
  tally : Tally config state
  released : Released state
  flow : Flow config state
  signalled : Signalled config state

theorem steady_start : Steady config (State.start config : State Payload) where
  settled := settled_start
  tally := tally_start
  released := released_start
  flow := flow_start
  signalled stage hdone := by cases hdone

/-- A done stage is not open. -/
theorem Steady.not_done (h : Steady config state) (hslot : slot < (config.stage stage).workers)
    (hpast : (state.slot (stage, slot)).main.past = false) (halive : (state.slot (stage, slot)).main ≠ .dead) :
    state.done stage = false := by
  by_contra hdone
  rw [Bool.not_eq_false] at hdone
  have hopen := h.tally.stage_open hslot hpast halive .done (h.signalled stage hdone).1
  cases hopen

theorem Steady.signalled_step (h : Steady config state) {action : Action Payload} (hcalm : calm action = true)
    (hstep : Pipeline.step config state action = some next) : Signalled config next := by
  cases action with
  | thread stage slot thread move =>
    obtain ⟨-, -, -, outcome, -, rfl⟩ := step_thread_cases hstep
    intro other hdone
    rw [apply_done] at hdone
    obtain ⟨hlogged, hworkers⟩ := h.signalled other hdone
    refine ⟨?_, hworkers⟩
    rw [apply_log]
    rcases eq_or_ne other stage with rfl | hne
    · rw [Function.update_self]
      exact List.mem_append_left _ hlogged
    · rwa [Function.update_of_ne hne]
  | main stage slot move =>
    obtain ⟨-, hslot, hmain⟩ := step_main_cases hstep
    obtain ⟨-, -, houtput⟩ := stepMain_output hmain
    intro other hdone
    have hbefore := h.signalled other
    rcases eq_or_ne other stage with rfl | hne
    · refine ⟨?_, by omega⟩
      rcases houtput with ⟨-, hlog, hsame⟩ | ⟨payloads, -, -, -, hlog, hsame⟩ | ⟨-, hlog, hsame⟩ | ⟨-, hlog, -⟩
      · rw [hlog]
        exact (hbefore (hsame ▸ hdone)).1
      · simp only [hlog, send_log, Function.update_self]
        exact List.mem_append_left _ (hbefore (hsame ▸ hdone)).1
      · rw [hlog, Function.update_self]
        exact List.mem_append_left _ (hbefore (hsame ▸ hdone)).1
      · simp [hlog]
    · rcases houtput with ⟨-, hlog, hsame⟩ | ⟨payloads, -, -, -, hlog, hsame⟩ | ⟨-, hlog, hsame⟩ | ⟨-, hlog, hsame⟩
      · rw [hlog]
        exact hbefore (hsame ▸ hdone)
      · simp only [hlog, send_log, Function.update_of_ne hne]
        exact hbefore (hsame ▸ hdone)
      · rw [hlog, Function.update_of_ne hne]
        exact hbefore (hsame ▸ hdone)
      · rw [hlog, Function.update_of_ne hne]
        rw [hsame, Function.update_of_ne hne] at hdone
        exact hbefore hdone
  | reader move =>
    obtain ⟨-, -, hdone, hlog, -⟩ := stepReader_frame hstep
    rw [Signalled, hdone, hlog]
    exact h.signalled
  | die stage slot => cases hcalm
  | respawn stage slot => cases hcalm

/-- What every step without a death preserves. -/
theorem Steady.step (h : Steady config state) {action : Action Payload} (hcalm : calm action = true)
    (hwaits : waits config state action = true) (hempty : parksEmpty config action = true)
    (hstep : Pipeline.step config state action = some next) : Steady config next where
  settled := h.settled.step hwaits hstep
  tally := by
    apply h.tally.step _ hstep
    cases action <;> simp_all [respawnsFresh, calm]
  released := released_step h.released hempty hstep
  flow := h.flow.step hstep
  signalled := h.signalled_step hcalm hstep

/-- A drained queue stays drained. -/
theorem Steady.drained_step (h : Steady config state) {action : Action Payload} (hcalm : calm action = true)
    {other : ℕ} (hdrained : state.drained other) (hstep : Pipeline.step config state action = some next) :
    next.drained other := by
  obtain ⟨hdone, hwaiting⟩ := hdrained
  cases action with
  | thread stage slot thread move =>
    obtain ⟨-, hslot, hthread, outcome, hloop, rfl⟩ := step_thread_cases hstep
    refine ⟨by rwa [apply_done], waiting_apply_nil hwaiting ?_⟩
    rintro rfl
    have hworking := h.settled.working hthread hloop
    have hopen := h.not_done hslot (by simp [hworking, Main.past]) (by simp [hworking])
    rw [hopen] at hdone
    cases hdone
  | main stage slot move =>
    obtain ⟨-, hslot, hmain⟩ := step_main_cases hstep
    obtain ⟨-, -, houtput⟩ := stepMain_output hmain
    rcases houtput with ⟨hqueue, -, hsame⟩ | ⟨payloads, -, hsends, hqueue, -, hsame⟩ | ⟨hqueue, -, hsame⟩ |
      ⟨hqueue, -, hsame⟩
    · exact ⟨by rwa [hsame], by rwa [State.waiting, hqueue]⟩
    · rcases hsends with hflushing | ⟨todo, payload, pending, hparking⟩
      · refine ⟨by rwa [hsame], ?_⟩
        have hne : other ≠ stage := by
          rintro rfl
          have hopen := h.not_done hslot (by simp [hflushing, Main.past]) (by simp [hflushing])
          rw [hopen] at hdone
          cases hdone
        have hwait : (state.send _ payloads).waiting other = _ := waiting_send ⟨stage, slot, none⟩ payloads other
        rw [State.waiting, ← hqueue] at hwait
        rw [State.waiting, hwait, hwaiting, if_neg hne]
        rfl
      · -- A parking worker has nothing to put.
        have hnone := h.released stage slot _ _ hparking
        simp at hnone
    · refine ⟨by rwa [hsame], ?_⟩
      rw [State.waiting] at hwaiting ⊢
      rw [hqueue]
      rcases eq_or_ne other stage with rfl | hne
      · simpa [Message.payloads] using hwaiting
      · simpa [hne] using hwaiting
    · refine ⟨?_, by rwa [State.waiting, hqueue]⟩
      rw [hsame]
      rcases eq_or_ne other stage with rfl | hne
      · simp
      · simpa [hne] using hdone
  | reader move =>
    obtain ⟨-, -, hsame, -, -⟩ := stepReader_frame hstep
    refine ⟨by rwa [hsame], ?_⟩
    simp only [Pipeline.step, stepReader] at hstep
    split at hstep
    · split at hstep
      · cases hstep
      · rename_i took _
        cases hstep
        cases took
        · exact hwaiting
        · exact waiting_take_nil hwaiting
    · split at hstep <;> cases hstep
      exact hwaiting
    · cases hstep
      exact hwaiting
    · cases hstep
  | die stage slot => cases hcalm
  | respawn stage slot => cases hcalm

/-! ## Leaving on the event -/

/-- No process dies, nothing raises, and the pipe does not drain. -/
def smooth : Action Payload → Bool
  | .thread _ _ _ .raises | .thread _ _ _ .getRaises | .thread _ _ _ .sendRaises | .thread _ _ _ (.uncounted _)
  | .thread _ _ _ (.flushRaises _) | .thread _ _ _ .drains | .thread _ _ _ (.drained _) => false
  | action => calm action

/-- A loop and the reader leave only on an event that was set when they last polled. -/
def heeds (config : Config) (state : State Payload) : Action Payload → Bool
  | .thread stage slot thread .test =>
    match ((state.slot (stage, slot)).loop thread).pc with
    | .polled wasDone => wasDone ||
      !(state.done (stage - 1) && config.threshold ≤ ((state.slot (stage, slot)).loop thread).empties)
    | _ => true
  | .reader .test =>
    match state.reader.pc with
    | .polled wasDone => wasDone || !(state.done (config.depth - 1) && 5 ≤ state.reader.empties)
    | _ => true
  | _ => true

theorem calm_of_smooth {action : Action Payload} (h : smooth action = true) : calm action = true := by
  unfold smooth at h
  split at h
  case h_8 => exact h
  all_goals cases h

/-- Whoever has left, or polled with the event set, has left a drained queue behind. -/
structure Exits (config : Config) (state : State Payload) : Prop where
  called : ∀ stage slot thread pulled, ((state.slot (stage, slot)).loop thread).pc ≠ .running pulled
  polled : ∀ stage slot thread, ((state.slot (stage, slot)).loop thread).pc = .polled true →
    state.drained (stage - 1)
  left : ∀ stage slot thread, stage ≠ 0 → ((state.slot (stage, slot)).loop thread).pc.left = true →
    state.drained (stage - 1)
  readerPolled : ∀ wasDone, state.reader.pc = .polled wasDone →
    state.reader.buffer = [] ∧ (wasDone = true → state.drained (config.depth - 1))
  returned : state.reader.pc = .returned → state.reader.buffer = [] ∧ state.drained (config.depth - 1)

theorem exits_start (hcall : ∀ stage, config.custom stage = false) :
    Exits config (State.start config : State Payload) where
  called stage slot thread pulled := by simp [State.start, Slot.start, Loop.start, hcall]
  polled stage slot thread hpc := by simp [State.start, Slot.start, Loop.start, hcall] at hpc
  left stage slot thread _ hpc := by simp [State.start, Slot.start, Loop.start, hcall, Pc.left] at hpc
  readerPolled wasDone hpc := by cases hpc
  returned hpc := by cases hpc

/-- A thread's move keeps what its exits say. -/
theorem Exits.apply (h : Exits config state) (hsteady : Steady config state) {move : Move Payload}
    {outcome : Outcome Payload} (hthread : thread < config.loops stage)
    (hsmooth : smooth (.thread stage slot thread move) = true)
    (hheeds : heeds config state (.thread stage slot thread move) = true)
    (hloop : loopStep (config.stage stage) (Config.root stage) config.threshold (state.view stage slot)
      ((state.slot (stage, slot)).loop thread) move = some outcome)
    (hdrained : ∀ other, state.drained other → (state.apply stage slot thread outcome).drained other) :
    Exits config (state.apply stage slot thread outcome) := by
  have hworking := hsteady.settled.working hthread hloop
  have hcalled := called_step hloop (h.called stage slot thread)
  have hpolled : outcome.loop.pc = .polled true → state.drained (stage - 1) := by
    intro hpc
    obtain ⟨hinput, hset⟩ := empty_of_polled hloop hpc
    exact ⟨hset.symm, by rw [State.waiting, show state.queue (stage - 1) = [] from hinput]; rfl⟩
  have hleft : stage ≠ 0 → outcome.loop.pc.left = true → state.drained (stage - 1) := by
    intro hstage hpc
    by_cases hbefore : ((state.slot (stage, slot)).loop thread).pc.left = true
    · exact h.left stage slot thread hstage hbefore
    · have hgets : move ≠ .getRaises := by
        rintro rfl
        cases hsmooth
      have hfinish : move ≠ .finish := by
        rintro rfl
        cases loopStep_cases hloop with
        | finish pulled hrunning => exact h.called stage slot thread pulled hrunning
      have hdrains : move ≠ .drains := by
        rintro rfl
        cases hsmooth
      obtain ⟨rfl, wasDone, hpc', hdone, hempties⟩ := test_of_left hgets hfinish hdrains
        (hsteady.settled.stop stage slot hworking) (by simpa [Config.root] using hstage)
        (hsteady.settled.sound stage slot thread) hloop (by simpa using hbefore) hpc
      have hset : wasDone = true := by
        have hdone' : state.done (stage - 1) = true := hdone
        simpa [heeds, hpc', hdone', hempties] using hheeds
      rw [hset] at hpc'
      exact h.polled stage slot thread hpc'
  have hloops : ∀ stage' slot' thread', (((state.apply stage slot thread outcome).slot (stage', slot')).loop thread' =
      (state.slot (stage', slot')).loop thread') ∨ (stage' = stage ∧
        ((state.apply stage slot thread outcome).slot (stage', slot')).loop thread' = outcome.loop) := by
    intro stage' slot' thread'
    rw [apply_slot]
    rcases eq_or_ne (stage', slot') (stage, slot) with heq | hne
    · cases heq
      rcases eq_or_ne thread' thread with rfl | hne'
      · right
        simp
      · left
        simp [hne']
    · left
      simp [hne]
  constructor
  · intro stage' slot' thread' pulled
    rcases hloops stage' slot' thread' with hsame | ⟨-, hnew⟩
    · rw [hsame]
      exact h.called stage' slot' thread' pulled
    · rw [hnew]
      exact hcalled pulled
  · intro stage' slot' thread' hpc
    apply hdrained
    rcases hloops stage' slot' thread' with hsame | ⟨rfl, hnew⟩
    · rw [hsame] at hpc
      exact h.polled stage' slot' thread' hpc
    · rw [hnew] at hpc
      exact hpolled hpc
  · intro stage' slot' thread' hstage hpc
    apply hdrained
    rcases hloops stage' slot' thread' with hsame | ⟨rfl, hnew⟩
    · rw [hsame] at hpc
      exact h.left stage' slot' thread' hstage hpc
    · rw [hnew] at hpc
      exact hleft hstage hpc
  · intro wasDone hpc
    rw [apply_reader] at hpc ⊢
    obtain ⟨hbuffer, hset⟩ := h.readerPolled wasDone hpc
    exact ⟨hbuffer, fun hwas ↦ hdrained _ (hset hwas)⟩
  · intro hpc
    rw [apply_reader] at hpc ⊢
    obtain ⟨hbuffer, hfinal⟩ := h.returned hpc
    exact ⟨hbuffer, hdrained _ hfinal⟩

/-- Steps that leave the threads and the reader alone. -/
theorem Exits.congr (h : Exits config state)
    (hloop : ∀ stage slot, (next.slot (stage, slot)).loop = (state.slot (stage, slot)).loop)
    (hreader : next.reader = state.reader) (hdrained : ∀ other, state.drained other → next.drained other) :
    Exits config next := by
  constructor
  · simpa only [hloop] using h.called
  · intro stage slot thread hpc
    rw [hloop] at hpc
    exact hdrained _ (h.polled stage slot thread hpc)
  · intro stage slot thread hstage hpc
    rw [hloop] at hpc
    exact hdrained _ (h.left stage slot thread hstage hpc)
  · intro wasDone hpc
    rw [hreader] at hpc ⊢
    obtain ⟨hbuffer, hset⟩ := h.readerPolled wasDone hpc
    exact ⟨hbuffer, fun hwas ↦ hdrained _ (hset hwas)⟩
  · intro hpc
    rw [hreader] at hpc ⊢
    obtain ⟨hbuffer, hfinal⟩ := h.returned hpc
    exact ⟨hbuffer, hdrained _ hfinal⟩

theorem Exits.reader (h : Exits config state) {move : ReaderMove} (hheeds : heeds config state (.reader move) = true)
    (hstep : stepReader config state move = some next)
    (hdrained : ∀ other, state.drained other → next.drained other) : Exits config next := by
  have hslot : next.slot = state.slot := (stepReader_frame hstep).1
  have hreader : (∀ wasDone, next.reader.pc = .polled wasDone →
      next.reader.buffer = [] ∧ (wasDone = true → state.drained (config.depth - 1))) ∧
      (next.reader.pc = .returned → next.reader.buffer = [] ∧ state.drained (config.depth - 1)) := by
    simp only [stepReader] at hstep
    split at hstep
    · rename_i hpc
      split at hstep
      · cases hstep
      · cases hstep
        simp [hpc]
    · split at hstep
      · rename_i hbuffer hqueue
        cases hstep
        simp only [ReaderPc.polled.injEq, reduceCtorEq, false_implies, and_true]
        rintro wasDone rfl
        exact ⟨hbuffer, fun hset ↦ ⟨hset, by rw [State.waiting, hqueue]; rfl⟩⟩
      · cases hstep
    · rename_i wasDone hpc
      cases hstep
      obtain ⟨hbuffer, hset⟩ := h.readerPolled wasDone hpc
      refine ⟨fun wasDone' hpc' ↦ ?_, fun hpc' ↦ ?_⟩
      · dsimp only at hpc'
        split at hpc' <;> cases hpc'
      · dsimp only at hpc'
        split at hpc'
        · rename_i hdone
          refine ⟨hbuffer, hset ?_⟩
          simpa [heeds, hpc, hdone] using hheeds
        · cases hpc'
    · cases hstep
  constructor
  · rw [hslot]
    exact h.called
  · intro stage slot thread hpc
    rw [hslot] at hpc
    exact hdrained _ (h.polled stage slot thread hpc)
  · intro stage slot thread hstage hpc
    rw [hslot] at hpc
    exact hdrained _ (h.left stage slot thread hstage hpc)
  · intro wasDone hpc
    obtain ⟨hbuffer, hset⟩ := hreader.1 wasDone hpc
    exact ⟨hbuffer, fun hwas ↦ hdrained _ (hset hwas)⟩
  · intro hpc
    obtain ⟨hbuffer, hfinal⟩ := hreader.2 hpc
    exact ⟨hbuffer, hdrained _ hfinal⟩

/-- Nobody leaves before what comes to him has been drained, step by step. -/
theorem Exits.step (h : Exits config state) (hsteady : Steady config state) {action : Action Payload}
    (hsmooth : smooth action = true) (hheeds : heeds config state action = true)
    (hstep : Pipeline.step config state action = some next) : Exits config next := by
  have hcalm := calm_of_smooth hsmooth
  have hdrained : ∀ other, state.drained other → next.drained other := by
    intro other hother
    exact hsteady.drained_step hcalm hother hstep
  cases action with
  | thread stage slot thread move =>
    obtain ⟨-, -, hthread, outcome, hloop, rfl⟩ := step_thread_cases hstep
    exact h.apply hsteady hthread hsmooth hheeds hloop hdrained
  | main stage slot move =>
    obtain ⟨-, -, hmain⟩ := step_main_cases hstep
    obtain ⟨value, hslot, hloop, -, -⟩ := stepMain_slot hmain
    apply h.congr _ (stepMain_output hmain).2.1 hdrained
    intro stage' slot'
    rw [hslot]
    rcases eq_or_ne (stage', slot') (stage, slot) with heq | hne
    · cases heq
      rw [Function.update_self, hloop]
    · rw [Function.update_of_ne hne]
  | reader move => exact h.reader hheeds hstep hdrained
  | die stage slot => cases hcalm
  | respawn stage slot => cases hcalm

/-! ## Completion -/

/-- All that a stage has put has been taken by the time the next stage is done, and all that
the last stage has put has been yielded by the time the reader returns. -/
def Complete (config : Config) (state : State Payload) : Prop :=
  (∀ stage, stage + 1 < config.depth → state.done (stage + 1) = true →
    state.taken stage = state.output stage) ∧
  (state.reader.pc = .returned → state.reader.yielded = state.output (config.depth - 1))

def lossless (config : Config) (state : State Payload) (action : Action Payload) : Bool :=
  waits config state action && parksEmpty config action && heeds config state action

/-- Whoever is done has left a drained queue behind, and a drained queue has been taken whole. -/
theorem Exits.complete (h : Exits config state) (hsteady : Steady config state) : Complete config state := by
  constructor
  · intro stage _ hdone
    have hslot := (hsteady.signalled (stage + 1) hdone).2
    have hfull := hsteady.tally.done (stage + 1) hdone
    have hthread : 0 < config.loops (stage + 1) := Stage.loops_pos _ _
    have hended := hsteady.settled.ended (stage + 1) 0 (hsteady.tally.not_working hfull hslot) 0 hthread
    have hdrained := h.left (stage + 1) 0 0 (Nat.succ_ne_zero stage) (by simp [hended, Pc.left])
    calc
      state.taken stage = state.taken stage ++ state.waiting stage := by
        rw [show state.waiting stage = [] from hdrained.2, List.append_nil]
      _ = state.output stage := (hsteady.flow.stages stage).symm
  · intro hreturned
    obtain ⟨hbuffer, hdrained⟩ := h.returned hreturned
    calc
      state.reader.yielded = state.taken (config.depth - 1) := by
        rw [← hsteady.flow.reader, hbuffer, List.append_nil]
      _ = state.taken (config.depth - 1) ++ state.waiting (config.depth - 1) := by
        rw [hdrained.2, List.append_nil]
      _ = state.output (config.depth - 1) := (hsteady.flow.stages _).symm

/-- In a run of call loops without deaths or exceptions, if main threads wait for their pools,
finished workers release their GPUs empty-handed, and whoever leaves does so on an event that
was set at its last empty poll, then completion loses nothing. -/
theorem complete_of_lossless (hcall : ∀ stage, config.custom stage = false)
    (h : ((machine Payload config).restrict fun state action ↦
      smooth action && lossless config state action).Reachable state) : Complete config state := by
  have hinv := h.invariant (fun state ↦ Steady config state ∧ Exits config state)
    ⟨steady_start, exits_start hcall⟩ (by
      rintro state action next ⟨hsteady, hexits⟩ hstep
      obtain ⟨hallowed, hnext⟩ := Machine.restrict_step hstep
      simp only [lossless, Bool.and_eq_true] at hallowed
      obtain ⟨hsmooth, ⟨hwaits, hempty⟩, hheeds⟩ := hallowed
      exact ⟨hsteady.step (calm_of_smooth hsmooth) hwaits hempty hnext, hexits.step hsteady hsmooth hheeds hnext⟩)
  exact hinv.2.complete hinv.1

/-- Two stages of one process worker each; loops leave at the first empty poll. -/
def twoStages : Config where
  depth := 2
  stage := fun _ ↦ .plain false 1 0
  threshold := 1
  consumers := 1

def throughBoth : List (Action ℕ) :=
  sourceRun 7 ++ finishRun 0 0 ++ endRun 0 0 ++
    [Action.thread 1 0 0 .get, .thread 1 0 0 .call, .thread 1 0 0 (.returns [8] false), .thread 1 0 0 .send,
      .thread 1 0 0 .flush, .thread 1 0 0 .next, .thread 1 0 0 .get] ++
    pollRun 1 0 ++ finishRun 1 0 ++ endRun 1 0 ++ [Action.reader .get, .reader .get] ++
    (List.replicate 5 [Action.reader .empty, .reader .test]).flatten

/-- One payload through two stages: it is yielded before the generator ends. -/
theorem complete_throughBoth : ∃ state : State ℕ,
    ((machine ℕ twoStages).restrict fun state action ↦ smooth action && lossless twoStages state action).runFrom
      (State.start twoStages) throughBoth = some state ∧
    state.done 1 = true ∧ state.reader.pc = .returned ∧ Complete twoStages state := by
  have hends : ∃ state : State ℕ, ((machine ℕ twoStages).restrict fun state action ↦
      smooth action && lossless twoStages state action).runFrom (State.start twoStages) throughBoth = some state ∧
      state.done 1 = true ∧ state.reader.pc = .returned := ⟨_, rfl, rfl, rfl⟩
  obtain ⟨state, hrun, hdone, hreturned⟩ := hends
  refine ⟨state, hrun, hdone, hreturned, complete_of_lossless ?_ ⟨throughBoth, hrun⟩⟩
  intro stage
  rfl

/-- The second stage polls an empty queue; the source then puts its payload, finishes and sets
its event; the second stage tests the event and leaves. -/
def putBetweenPollAndTest : List (Action ℕ) :=
  [Action.thread 1 0 0 .empty] ++ sourceRun 7 ++ finishRun 0 0 ++ endRun 0 0 ++ [Action.thread 1 0 0 .test] ++
    finishRun 1 0 ++ endRun 1 0

/-- A payload put between the last empty poll and the test of the event is left on the queue. -/
theorem not_complete : ¬ ∀ (config : Config) (state : State ℕ), (∀ stage, config.custom stage = false) →
    ((machine ℕ config).restrict fun _ action ↦ smooth action).Reachable state → Complete config state := by
  intro hcomplete
  have hends : ∃ state : State ℕ, ((machine ℕ twoStages).restrict fun _ action ↦ smooth action).runFrom
      (State.start twoStages) putBetweenPollAndTest = some state ∧ state.done 1 = true ∧
      state.taken 0 = [] ∧ state.output 0 = [7] := ⟨_, rfl, rfl, rfl, rfl⟩
  obtain ⟨state, hrun, hdone, htaken, houtput⟩ := hends
  have hstate := hcomplete twoStages state (fun _ ↦ rfl) ⟨putBetweenPollAndTest, hrun⟩
  have htook := hstate.1 0 (by decide) hdone
  rw [htaken, houtput] at htook
  cases htook

end GpuPipe.Pipeline
