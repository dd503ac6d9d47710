import Mathlib.Data.Finset.Card
import GpuPipe.Pipeline.Process

/-!
# The end counter counts worker slots

The threads of a process whose main thread has moved on have all ended, and the end counter is
the number of slots that have added themselves. Both hold whatever dies, as long as a main
thread waits for its threads and no slot that has counted is respawned.
-/

namespace GpuPipe.Pipeline

variable {Payload : Type} {config : Config} {state next : State Payload} {stage slot thread : ℕ}

/-! ## Threads of a process that has moved on -/

/-- The main thread of a pool goes on only when all its threads have ended. -/
def waits (config : Config) (state : State Payload) : Action Payload → Bool
  | .main stage slot .leave => state.allEnded config stage slot
  | _ => true

structure Settled (config : Config) (state : State Payload) : Prop where
  ended : ∀ stage slot, (state.slot (stage, slot)).main ≠ .working →
    ∀ thread, thread < config.loops stage → ((state.slot (stage, slot)).loop thread).pc = .ended
  sound : ∀ stage slot thread, ((state.slot (stage, slot)).loop thread).Sound (Config.root stage)
  stop : ∀ stage slot, (state.slot (stage, slot)).main = .working → (state.slot (stage, slot)).stop = true →
    Config.root stage = true

theorem settled_start : Settled config (State.start config : State Payload) where
  ended stage slot hmain := absurd rfl hmain
  sound stage slot thread := sound_start _
  stop stage slot _ hstop := by cases hstop

/-- A process whose thread moves is still working. -/
theorem Settled.working (h : Settled config state) {move : Move Payload} {outcome : Outcome Payload}
    (hthread : thread < config.loops stage)
    (hloop : loopStep (config.stage stage) (Config.root stage) config.threshold (state.view stage slot)
      ((state.slot (stage, slot)).loop thread) move = some outcome) :
    (state.slot (stage, slot)).main = .working := by
  by_contra hmain
  have hended := h.ended stage slot hmain thread hthread
  rw [loopStep_of_ended hended] at hloop
  cases hloop

theorem Settled.apply (h : Settled config state) {move : Move Payload} {outcome : Outcome Payload}
    (hthread : thread < config.loops stage)
    (hloop : loopStep (config.stage stage) (Config.root stage) config.threshold (state.view stage slot)
      ((state.slot (stage, slot)).loop thread) move = some outcome) :
    Settled config (state.apply stage slot thread outcome) := by
  have hworking := h.working hthread hloop
  have hsound := h.sound stage slot thread
  constructor
  · intro stage' slot' hmain thread' hthread'
    rcases eq_or_ne (stage', slot') (stage, slot) with heq | hne
    · rw [apply_slot, heq, Function.update_self] at hmain
      exact absurd hworking hmain
    · rw [apply_slot, Function.update_of_ne hne] at hmain ⊢
      exact h.ended stage' slot' hmain thread' hthread'
  · intro stage' slot' thread'
    rcases eq_or_ne (stage', slot') (stage, slot) with heq | hne
    · cases heq
      rw [apply_slot, Function.update_self]
      rcases eq_or_ne thread' thread with rfl | hthread'
      · simpa using hsound.step hloop
      · simpa [hthread'] using h.sound stage slot thread'
    · rw [apply_slot, Function.update_of_ne hne]
      exact h.sound stage' slot' thread'
  · intro stage' slot' hmain hstop
    rcases eq_or_ne (stage', slot') (stage, slot) with heq | hne
    · cases heq
      rw [apply_slot, Function.update_self, Bool.or_eq_true] at hstop
      rcases hstop with hstop | hstops
      · exact h.stop stage slot hworking hstop
      · exact root_of_stops hsound hloop hstops
    · rw [apply_slot, Function.update_of_ne hne] at hmain hstop
      exact h.stop stage' slot' hmain hstop

/-- A slot whose threads have all ended may change everything but its threads. -/
theorem Settled.update (h : Settled config state) {value : Slot Payload}
    (hslot : next.slot = Function.update state.slot (stage, slot) value)
    (hended : value.main ≠ .working → ∀ thread, thread < config.loops stage → (value.loop thread).pc = .ended)
    (hsound : ∀ thread, (value.loop thread).Sound (Config.root stage))
    (hstop : value.main = .working → value.stop = true → Config.root stage = true) :
    Settled config next := by
  constructor
  · intro stage' slot' hmain
    rcases eq_or_ne (stage', slot') (stage, slot) with heq | hne
    · cases heq
      rw [hslot, Function.update_self] at hmain ⊢
      exact hended hmain
    · rw [hslot, Function.update_of_ne hne] at hmain ⊢
      exact h.ended stage' slot' hmain
  · intro stage' slot'
    rcases eq_or_ne (stage', slot') (stage, slot) with heq | hne
    · cases heq
      rw [hslot, Function.update_self]
      exact hsound
    · rw [hslot, Function.update_of_ne hne]
      exact h.sound stage' slot'
  · intro stage' slot' hmain hstop'
    rcases eq_or_ne (stage', slot') (stage, slot) with heq | hne
    · cases heq
      rw [hslot, Function.update_self] at hmain hstop'
      exact hstop hmain hstop'
    · rw [hslot, Function.update_of_ne hne] at hmain hstop'
      exact h.stop stage' slot' hmain hstop'

/-- A main thread goes on only after the threads of its pool, whatever the others do. -/
theorem Settled.step (h : Settled config state) {action : Action Payload}
    (hwaits : waits config state action = true) (hstep : Pipeline.step config state action = some next) :
    Settled config next := by
  cases action with
  | thread stage slot thread move =>
    obtain ⟨-, -, hthread, outcome, hloop, rfl⟩ := step_thread_cases hstep
    exact h.apply hthread hloop
  | main stage slot move =>
    obtain ⟨-, -, hmain⟩ := step_main_cases hstep
    obtain ⟨value, hslot, hloop, hvalue, hleave⟩ := stepMain_slot hmain
    apply h.update hslot
    · intro _
      rw [hloop]
      by_cases hworking : (state.slot (stage, slot)).main = .working
      · rw [hleave hworking] at hwaits
        exact allEnded_iff.mp hwaits
      · exact h.ended stage slot hworking
    · rw [hloop]
      exact h.sound stage slot
    · intro hworking
      exact absurd hworking hvalue
  | reader move =>
    obtain ⟨hslot, -⟩ := stepReader_frame hstep
    constructor
    · rw [hslot]
      exact h.ended
    · rw [hslot]
      exact h.sound
    · rw [hslot]
      exact h.stop
  | die stage slot =>
    simp only [Pipeline.step] at hstep
    split at hstep <;> cases hstep
    apply h.update rfl
    · intro _ thread _
      rfl
    · intro thread
      exact sound_gone
    · intro hworking
      cases hworking
  | respawn stage slot =>
    simp only [Pipeline.step] at hstep
    split at hstep <;> cases hstep
    apply h.update rfl
    · intro hmain
      exact absurd rfl hmain
    · intro thread
      exact sound_start _
    · intro _ hstop
      cases hstop

/-! ## The counter -/

/-- Slots of a stage that have added themselves to its end counter. -/
def State.countedSlots (config : Config) (state : State Payload) (stage : ℕ) : Finset ℕ :=
  (Finset.range (config.stage stage).workers).filter fun slot ↦ (state.slot (stage, slot)).counted = true

theorem mem_countedSlots : slot ∈ state.countedSlots config stage ↔
    slot < (config.stage stage).workers ∧ (state.slot (stage, slot)).counted = true := by
  rw [State.countedSlots, Finset.mem_filter, Finset.mem_range]

/-- What a slot knows of its stage's counter: it has counted once its main thread is past it,
a number it read is not above the counter, and it ends the stage only at a full count. -/
structure Slot.Tally (workers count : ℕ) (value : Slot Payload) : Prop where
  past : value.main.past = true → value.counted = true
  counted : value.counted = true → value.main.past = true ∨ value.main = .dead
  number : ∀ number, value.main = .counted number → number ≤ count
  ending : ∀ left, value.main = .ending left → workers ≤ count
  signalling : value.main = .signalling → workers ≤ count

theorem Slot.Tally.mono {workers count count' : ℕ} {value : Slot Payload} (h : value.Tally workers count)
    (hle : count ≤ count') : value.Tally workers count' where
  past := h.past
  counted := h.counted
  number number hmain := (h.number number hmain).trans hle
  ending left hmain := (h.ending left hmain).trans hle
  signalling hmain := (h.signalling hmain).trans hle

/-- The counter is the number of slots that have counted, and a stage is ended only at a full
count. -/
structure Tally (config : Config) (state : State Payload) : Prop where
  slots : ∀ stage slot, (state.slot (stage, slot)).Tally (config.stage stage).workers (state.count stage)
  total : ∀ stage, state.count stage = (state.countedSlots config stage).card
  closed : ∀ stage, ∀ entry ∈ state.log stage, entry.closes = true →
    (config.stage stage).workers ≤ state.count stage
  done : ∀ stage, state.done stage = true → (config.stage stage).workers ≤ state.count stage

theorem tally_start : Tally config (State.start config : State Payload) where
  slots stage slot := by constructor <;> simp [State.start, Slot.start, Main.past]
  total stage := by simp [State.countedSlots, State.start, Slot.start]
  closed stage entry hentry := by cases hentry
  done stage hdone := by cases hdone

/-- Once the counter is full, every slot has counted. -/
theorem Tally.all_counted (h : Tally config state) (hfull : (config.stage stage).workers ≤ state.count stage)
    (hslot : slot < (config.stage stage).workers) : (state.slot (stage, slot)).counted = true := by
  have hcard : (state.countedSlots config stage).card = (Finset.range (config.stage stage).workers).card := by
    apply le_antisymm
    · exact Finset.card_filter_le _ _
    · rw [← h.total stage, Finset.card_range]
      exact hfull
  exact Finset.filter_card_eq hcard slot (Finset.mem_range.mpr hslot)

/-- At a full count every worker of the stage has left its loop. -/
theorem Tally.not_working (h : Tally config state) (hfull : (config.stage stage).workers ≤ state.count stage)
    (hslot : slot < (config.stage stage).workers) : (state.slot (stage, slot)).main ≠ .working := by
  intro hworking
  rcases (h.slots stage slot).counted (h.all_counted hfull hslot) with hpast | hdead
  · simp [hworking, Main.past] at hpast
  · simp [hworking] at hdead

/-- A step of one slot that keeps the counter, and ends the stage only at a full count. -/
theorem Tally.update (h : Tally config state) {value : Slot Payload}
    (hslot : next.slot = Function.update state.slot (stage, slot) value)
    (hcount : next.count = state.count)
    (hsame : value.counted = (state.slot (stage, slot)).counted)
    (hvalue : value.Tally (config.stage stage).workers (state.count stage))
    (hclosed : ∀ other, ∀ entry ∈ next.log other, entry.closes = true →
      entry ∈ state.log other ∨ (config.stage other).workers ≤ state.count other)
    (hdone : ∀ other, next.done other = true →
      state.done other = true ∨ (config.stage other).workers ≤ state.count other) :
    Tally config next := by
  constructor
  · intro stage' slot'
    rw [hcount, hslot]
    rcases eq_or_ne (stage', slot') (stage, slot) with heq | hne
    · cases heq
      rw [Function.update_self]
      exact hvalue
    · rw [Function.update_of_ne hne]
      exact h.slots stage' slot'
  · intro stage'
    have hslots : ∀ slot', (next.slot (stage', slot')).counted = (state.slot (stage', slot')).counted := by
      intro slot'
      rcases eq_or_ne (stage', slot') (stage, slot) with heq | hne
      · cases heq
        rw [hslot, Function.update_self, hsame]
      · rw [hslot, Function.update_of_ne hne]
    rw [hcount, h.total stage']
    simp only [State.countedSlots, hslots]
  · intro stage' entry hentry hcloses
    rw [hcount]
    rcases hclosed stage' entry hentry hcloses with hbefore | hfull
    · exact h.closed stage' entry hbefore hcloses
    · exact hfull
  · intro stage' hdone'
    rw [hcount]
    rcases hdone stage' hdone' with hbefore | hfull
    · exact h.done stage' hbefore
    · exact hfull

/-- Threads put only payloads. -/
theorem Tally.apply (h : Tally config state) {outcome : Outcome Payload} :
    Tally config (state.apply stage slot thread outcome) := by
  have hvalue := h.slots stage slot
  apply h.update apply_slot apply_count rfl
  · exact ⟨hvalue.past, hvalue.counted, hvalue.number, hvalue.ending, hvalue.signalling⟩
  · intro other entry hentry hcloses
    left
    rw [apply_log] at hentry
    rcases eq_or_ne other stage with rfl | hne
    · rw [Function.update_self, List.mem_append] at hentry
      rcases hentry with hbefore | hsent
      · exact hbefore
      · rw [Option.mem_toList, Option.map_eq_some_iff] at hsent
        obtain ⟨payloads, -, rfl⟩ := hsent
        cases hcloses
    · rwa [Function.update_of_ne hne] at hentry
  · intro other hdone
    rw [apply_done] at hdone
    exact .inl hdone

/-- A slot that has not counted adds itself. -/
theorem Tally.count (h : Tally config state) (hslot : slot < (config.stage stage).workers)
    (hmain : (state.slot (stage, slot)).main = .counting) :
    Tally config (State.setSlot
      { state with count := Function.update state.count stage (state.count stage + 1) } stage slot
      { state.slot (stage, slot) with main := .counted (state.count stage + 1), counted := true }) := by
  have hfresh : slot ∉ state.countedSlots config stage := by
    intro hmem
    have hcounted : (state.slot (stage, slot)).counted = true := (mem_countedSlots.mp hmem).2
    rcases (h.slots stage slot).counted hcounted with hpast | hdead
    · simp [hmain, Main.past] at hpast
    · simp [hmain] at hdead
  have hmore : ∀ other, state.count other ≤ Function.update state.count stage (state.count stage + 1) other := by
    intro other
    rcases eq_or_ne other stage with rfl | hne
    · simp
    · simp [hne]
  constructor
  · intro stage' slot'
    rcases eq_or_ne (stage', slot') (stage, slot) with heq | hne
    · cases heq
      constructor <;> simp [Main.past]
    · rw [setSlot_slot, Function.update_of_ne hne]
      exact (h.slots stage' slot').mono (hmore stage')
  · intro stage'
    rcases eq_or_ne stage' stage with rfl | hne
    · have hinsert : (State.countedSlots config (State.setSlot
          { state with count := Function.update state.count stage' (state.count stage' + 1) } stage' slot
          { state.slot (stage', slot) with main := .counted (state.count stage' + 1), counted := true }) stage') =
          insert slot (state.countedSlots config stage') := by
        ext other
        rw [Finset.mem_insert, mem_countedSlots, mem_countedSlots, setSlot_slot]
        rcases eq_or_ne other slot with rfl | hother
        · simpa using hslot
        · simp [hother]
      rw [hinsert, Finset.card_insert_of_notMem hfresh, ← h.total stage']
      simp
    · have hslots : ∀ slot', (stage', slot') ≠ (stage, slot) := by
        intro slot' heq
        exact hne (congrArg Prod.fst heq)
      simpa [State.countedSlots, hne, hslots] using h.total stage'
  · intro stage' entry hentry hcloses
    exact (h.closed stage' entry hentry hcloses).trans (hmore stage')
  · intro stage' hdone
    exact (h.done stage' hdone).trans (hmore stage')

/-- A step that only moves the main thread on. -/
theorem Tally.setSlot (h : Tally config state) {value : Slot Payload}
    (hsame : value.counted = (state.slot (stage, slot)).counted)
    (hpast : value.main.past = (state.slot (stage, slot)).main.past)
    (halive : (state.slot (stage, slot)).main ≠ .dead) (hnumber : ∀ number, value.main ≠ .counted number)
    (hending : ∀ left, value.main = .ending left → (config.stage stage).workers ≤ state.count stage)
    (hsignalling : value.main = .signalling → (config.stage stage).workers ≤ state.count stage) :
    Tally config (state.setSlot stage slot value) := by
  have hvalue := h.slots stage slot
  refine h.update rfl rfl hsame ?_ ?_ ?_
  · constructor
    · intro hmain
      rw [hsame]
      exact hvalue.past (hpast ▸ hmain)
    · intro hcounted
      rcases hvalue.counted (hsame ▸ hcounted) with hbefore | hdead
      · exact .inl (hpast.trans hbefore)
      · exact absurd hdead halive
    · intro number hmain
      exact absurd hmain (hnumber number)
    · exact hending
    · exact hsignalling
  · intro other entry hentry _
    exact .inl hentry
  · intro other hdone
    exact .inl hdone

/-- What a step appends to the queues and the log without a closing entry is no concern of the
counter. -/
theorem Tally.congr (h : Tally config state) (hslot : next.slot = state.slot) (hcount : next.count = state.count)
    (hdone : next.done = state.done)
    (hclosed : ∀ other, ∀ entry ∈ next.log other, entry.closes = true → entry ∈ state.log other) :
    Tally config next := by
  constructor
  · rw [hslot, hcount]
    exact h.slots
  · intro stage'
    rw [hcount, h.total stage']
    simp only [State.countedSlots, hslot]
  · intro stage' entry hentry hcloses
    rw [hcount]
    exact h.closed stage' entry (hclosed stage' entry hentry hcloses) hcloses
  · rw [hdone, hcount]
    exact h.done

theorem Tally.send (h : Tally config state) (producer : Producer) (payloads : List Payload) :
    Tally config (state.send producer payloads) := by
  refine h.congr rfl rfl rfl ?_
  intro other entry hentry hcloses
  simp only [State.send] at hentry
  rcases eq_or_ne other producer.stage with rfl | hne
  · rw [Function.update_self, List.mem_append, List.mem_singleton] at hentry
    rcases hentry with hbefore | rfl
    · exact hbefore
    · cases hcloses
  · rwa [Function.update_of_ne hne] at hentry

theorem Tally.make (h : Tally config state) (producer : Producer) (payloads : List Payload) :
    Tally config (state.make producer payloads) :=
  h.congr rfl rfl rfl fun _ _ hentry _ ↦ hentry

/-- An entry that ends a stage is put at a full count. -/
theorem Tally.close (h : Tally config state) {entry : Entry Payload} {queue : ℕ → List (Message Payload)}
    {done : ℕ → Bool} (hfull : (config.stage stage).workers ≤ state.count stage)
    (hdone : ∀ other, done other = true → state.done other = true ∨ other = stage) :
    Tally config { state with
      queue := queue
      done := done
      log := Function.update state.log stage (state.log stage ++ [entry]) } := by
  refine ⟨h.slots, h.total, ?_, ?_⟩
  · intro stage' entry' hentry hcloses
    rcases eq_or_ne stage' stage with rfl | hne
    · exact hfull
    · simp only [Function.update_of_ne hne] at hentry
      exact h.closed stage' entry' hentry hcloses
  · intro stage' hdone'
    rcases hdone stage' hdone' with hbefore | rfl
    · exact h.done stage' hbefore
    · exact hfull

theorem Tally.main (h : Tally config state) {move : MainMove Payload} (hslot : slot < (config.stage stage).workers)
    (hstep : stepMain config state stage slot move = some next) : Tally config next := by
  have hvalue := h.slots stage slot
  cases stepMain_cases hstep with
  | flushItem payload hmain => exact (h.send _ _).make _ _
  | flushFull payload hmain => apply (h.make _ _).setSlot <;> simp [State.make, hmain, Main.past]
  | count hmain => exact h.count hslot hmain
  | compareAll number hmain hall =>
    have hfull : (config.stage stage).workers ≤ state.count stage := hall.trans (hvalue.number number hmain)
    apply h.setSlot <;> simp [hmain, Main.past, hfull]
  | putEnd left hmain =>
    have hfull := hvalue.ending _ hmain
    refine (h.close hfull fun _ hdone ↦ .inl hdone).setSlot ?_ ?_ ?_ ?_ ?_ ?_ <;> simp [hmain, Main.past, hfull]
  | endFull left hmain | allEnds hmain =>
    have hfull := hvalue.ending _ hmain
    apply h.setSlot <;> simp [hmain, Main.past, hfull]
  | setDone hmain =>
    have hfull := hvalue.signalling hmain
    refine (h.close hfull fun other hdone ↦ ?_).setSlot ?_ ?_ ?_ ?_ ?_ ?_
    · rcases eq_or_ne other stage with rfl | hne
      · exact .inr rfl
      · exact .inl (by rwa [Function.update_of_ne hne] at hdone)
    all_goals simp [hmain, Main.past, hfull]
  | release results hmain => apply (h.make _ _).setSlot <;> simp [State.make, hmain, Main.past]
  | parkFlush todo payload pending hmain => apply (h.send _ _).setSlot <;> simp [State.send, hmain, Main.past]
  | leavePool hmain | leave hmain | flushed hmain | compareFew _ hmain | releasePool _ hmain | parkSend _ _ _ hmain
    | parkDone hmain =>
    apply h.setSlot <;> simp [hmain, Main.past]

/-- No slot that has added itself to the counter is respawned. -/
def respawnsFresh (state : State Payload) : Action Payload → Bool
  | .respawn stage slot => !(state.slot (stage, slot)).counted
  | _ => true

/-- No step counts a slot twice, unless a slot that has counted is respawned. -/
theorem Tally.step (h : Tally config state) {action : Action Payload} (hfresh : respawnsFresh state action = true)
    (hstep : Pipeline.step config state action = some next) : Tally config next := by
  cases action with
  | thread stage slot thread move =>
    obtain ⟨-, -, -, outcome, -, rfl⟩ := step_thread_cases hstep
    exact h.apply
  | main stage slot move =>
    obtain ⟨-, hslot, hmain⟩ := step_main_cases hstep
    exact h.main hslot hmain
  | reader move =>
    obtain ⟨hslot, hcount, hdone, hlog, -⟩ := stepReader_frame hstep
    apply h.congr hslot hcount hdone
    intro other entry hentry _
    rwa [hlog] at hentry
  | die stage slot =>
    simp only [Pipeline.step] at hstep
    split at hstep <;> cases hstep
    refine h.update rfl rfl rfl ?_ ?_ ?_
    · constructor <;> simp [Main.past]
    · intro other entry hentry _
      exact .inl hentry
    · intro other hdone
      exact .inl hdone
  | respawn stage slot =>
    simp only [Pipeline.step] at hstep
    split at hstep <;> cases hstep
    simp only [respawnsFresh, Bool.not_eq_eq_eq_not, Bool.not_true] at hfresh
    refine h.update rfl rfl rfl ?_ ?_ ?_
    · constructor <;> simp [Slot.start, Main.past, hfresh]
    · intro other entry hentry _
      exact .inl hentry
    · intro other hdone
      exact .inl hdone

/-! ## Input that threads hold -/

def Quiet (state : State Payload) : Prop :=
  ∀ stage slot thread, ((state.slot (stage, slot)).loop thread).Quiet (Config.root stage)

/-- Every slot of the stage has counted, and none of its threads holds a payload or can move. -/
def Finished (config : Config) (state : State Payload) (stage : ℕ) : Prop :=
  ∀ slot, slot < (config.stage stage).workers → (state.slot (stage, slot)).counted = true ∧
    ∀ thread, thread < config.loops stage →
      ((state.slot (stage, slot)).loop thread).buffer = [] ∧
      ((state.slot (stage, slot)).loop thread).pending = [] ∧
      ∀ move, step config state (.thread stage slot thread move) = none

/-- At a full count nothing of the stage holds a payload or moves. -/
theorem Settled.finished (h : Settled config state) (htally : Tally config state) (hquiet : Quiet state)
    (hfull : (config.stage stage).workers ≤ state.count stage) : Finished config state stage := by
  intro slot hslot
  have hmain := htally.not_working hfull hslot
  refine ⟨htally.all_counted hfull hslot, fun thread hthread ↦ ?_⟩
  have hended := h.ended stage slot hmain thread hthread
  refine ⟨(hquiet stage slot thread).left (by rw [hended, Pc.left]), (h.sound stage slot thread).ended hended, ?_⟩
  intro move
  by_contra hstep
  obtain ⟨next, hnext⟩ := Option.ne_none_iff_exists'.mp hstep
  obtain ⟨-, -, -, outcome, hloop, -⟩ := step_thread_cases hnext
  rw [loopStep_of_ended hended] at hloop
  cases hloop

def twoWorkers : Config where
  depth := 2
  stage := fun stage ↦ .plain false (stage + 1) 0
  threshold := 1
  consumers := 1

end GpuPipe.Pipeline
