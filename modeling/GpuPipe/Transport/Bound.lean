import Mathlib.Algebra.Order.Ring.Rat
import GpuPipe.Lifecycle.Start
import GpuPipe.Transport.Channel

/-!
# How much an edge holds

`outqn=` counts items, the queue of an edge counts messages. A start scales the one down to the other
by the number of items a chunk may hold, but never below one slot. The ring asks its item count for room,
and a put and a pop store the count after the offset that the message depends on; a process killed between
the two stores leaves the count one off.
-/

namespace GpuPipe.Channel

/-- The store of the count that the process with the ring's lock has still to make. -/
inductive Owed
  | add
  | subtract
  deriving DecidableEq

/-- A queue with its item count beside what is really in it. -/
structure Edge (Producer Reader Payload : Type*) where
  state : State Producer Reader Payload
  count : ℕ
  owed : Option Owed

/-- A step of the channels, in which a put or a pop stores its offset; the store of the count that follows;
the death of a process between the two; and a pop that finds nothing, which sets the count right. -/
inductive Turn (Producer Reader Payload : Type*)
  | act (action : Action Producer Reader Payload)
  | count
  | die
  | resync

section Turns

variable {Producer Reader Payload : Type*} [DecidableEq Producer] [DecidableEq Reader]
  (chunkSize maxsize : ℕ) (chunkS : ℚ) (edge : Edge Producer Reader Payload)

/-- A step of the channels; `owed` is what it leaves its process to store. It is not the channels' own
`maxsize` but the count that a put asks for room. -/
def Edge.act (action : Action Producer Reader Payload) (owed : Option Owed) :
    Option (Edge Producer Reader Payload) :=
  (step chunkSize 0 chunkS edge.state action).map fun next ↦ ⟨next, edge.count, owed⟩

def Edge.step : Turn Producer Reader Payload → Option (Edge Producer Reader Payload)
  | .act (.placed producer) =>
    if edge.owed = none ∧ (maxsize = 0 ∨ edge.count < maxsize) then
      edge.act chunkSize chunkS (.placed producer) (some .add)
    else none
  | .act (.get reader) =>
    match edge.state.buffer reader with
    -- what is in the reader's own buffer is off the queue
    | _ :: _ => edge.act chunkSize chunkS (.get reader) edge.owed
    | [] => if edge.owed = none then edge.act chunkSize chunkS (.get reader) (some .subtract) else none
  | .act action => edge.act chunkSize chunkS action edge.owed
  | .count =>
    match edge.owed with
    | some .add => some { edge with count := edge.count + 1, owed := none }
    | some .subtract => some { edge with count := edge.count - 1, owed := none }
    | none => none
  | .die => edge.owed.map fun _ ↦ { edge with owed := none }
  | .resync =>
    if edge.owed = none ∧ edge.state.queue.waiting = [] then some { edge with count := 0 } else none

end Turns

def edgeMachine (Producer Reader Payload : Type*) [DecidableEq Producer] [DecidableEq Reader]
    (chunkSize maxsize : ℕ) (chunkS : ℚ) :
    Machine (Edge Producer Reader Payload) (Turn Producer Reader Payload) where
  start := ⟨(machine Producer Reader Payload chunkSize 0 chunkS).start, 0, none⟩
  step := Edge.step chunkSize maxsize chunkS

section Runs

variable {Producer Reader Payload : Type*} [DecidableEq Producer] [DecidableEq Reader]
  {chunkSize maxsize : ℕ} {chunkS : ℚ} {state next : State Producer Reader Payload}
  {action : Action Producer Reader Payload}

/-- The clock does not go back within a call. -/
def steady (_ : State Producer Reader Payload) : Action Producer Reader Payload → Bool
  | .send _ _ now later => now ≤ later
  | _ => true

/-- Besides, no producer is killed between its two stores. -/
def counted (edge : Edge Producer Reader Payload) : Turn Producer Reader Payload → Bool
  | .act action => steady edge.state action
  | .die => edge.owed ≠ some .add
  | _ => true

def State.unread (state : State Producer Reader Payload) : List (Stamped Producer Payload) :=
  state.queue.waiting.flatMap Message.items

omit [DecidableEq Producer] in
/-- A reader takes messages off the front of the queue and touches no producer. -/
theorem get_frame {reader : Reader} (h : get state reader = some next) :
    next.channel = state.channel ∧ next.hand = state.hand ∧
      next.queue.waiting <:+ state.queue.waiting := by
  rw [get] at h
  split at h
  case h_1 =>
    cases h
    exact ⟨rfl, rfl, List.suffix_rfl⟩
  case h_5 => cases h
  all_goals
    rename_i hwaiting
    cases h
    refine ⟨rfl, rfl, ?_⟩
    rw [hwaiting]
    exact List.suffix_cons _ _

theorem Edge.act_step {edge next : Edge Producer Reader Payload} {owed : Option Owed}
    (h : edge.act chunkSize chunkS action owed = some next) :
    Channel.step chunkSize 0 chunkS edge.state action = some next.state ∧ next.count = edge.count ∧
      next.owed = owed := by
  rw [Edge.act, Option.map_eq_some_iff] at h
  obtain ⟨state, hstep, rfl⟩ := h
  exact ⟨hstep, rfl, rfl⟩

/-- What a turn of a counted run does to the queue, its count and the store of it that is owed. -/
inductive Edge.Turned (maxsize : ℕ) (edge next : Edge Producer Reader Payload) : Prop
  | call (hwaiting : next.state.queue.waiting = edge.state.queue.waiting) (hcount : next.count = edge.count)
      (howed : next.owed = edge.owed)
  | publish (hidle : edge.owed = none) (hroom : maxsize = 0 ∨ edge.count < maxsize)
      (hwaiting : next.state.queue.waiting.length = edge.state.queue.waiting.length + 1)
      (hcount : next.count = edge.count) (howed : next.owed = some .add)
  | pop (hidle : edge.owed = none)
      (hwaiting : edge.state.queue.waiting.length = next.state.queue.waiting.length + 1)
      (hcount : next.count = edge.count) (howed : next.owed = some .subtract)
  | add (howes : edge.owed = some .add) (hnext : next = { edge with count := edge.count + 1, owed := none })
  | subtract (howes : edge.owed = some .subtract)
      (hnext : next = { edge with count := edge.count - 1, owed := none })
  | die (howes : edge.owed = some .subtract) (hnext : next = { edge with owed := none })
  | resync (hidle : edge.owed = none) (hempty : edge.state.queue.waiting = [])
      (hnext : next = { edge with count := 0 })

omit [DecidableEq Producer] in
/-- A reader whose buffer is empty takes one message off the queue. -/
theorem get_pops {reader : Reader} (hbuffer : state.buffer reader = [])
    (h : get state reader = some next) :
    state.queue.waiting.length = next.queue.waiting.length + 1 := by
  rw [get, hbuffer] at h
  split at h
  case h_1 hitems =>
    cases hitems
  case h_5 => cases h
  all_goals
    rename_i hwaiting
    cases h
    rw [hwaiting, List.length_cons]

omit [DecidableEq Producer] in
theorem get_buffered {reader : Reader} {item : Stamped Producer Payload}
    {rest : List (Stamped Producer Payload)} (hbuffer : state.buffer reader = item :: rest)
    (h : get state reader = some next) : next.queue.waiting = state.queue.waiting := by
  rw [get, hbuffer] at h
  cases h
  rfl

/-- What a turn does to the queue and its count. -/
theorem Edge.step_turned {edge next : Edge Producer Reader Payload} {turn : Turn Producer Reader Payload}
    (hcounted : counted edge turn = true) (h : edge.step chunkSize maxsize chunkS turn = some next) : edge.Turned maxsize next := by
  cases turn with
  | act action =>
    cases action with
    | placed producer =>
      simp only [Edge.step] at h
      split at h
      · rename_i hroom
        obtain ⟨hstep, hcount, howed⟩ := act_step h
        simp only [Channel.step, true_or, if_true] at hstep
        split at hstep
        · refine .publish hroom.1 hroom.2 ?_ hcount howed
          rw [Option.some.injEq] at hstep
          rw [← hstep, List.length_append, List.length_singleton]
        · cases hstep
      · cases h
    | get reader =>
      simp only [Edge.step] at h
      split at h
      · rename_i item rest hbuffer
        obtain ⟨hstep, hcount, howed⟩ := act_step h
        exact .call (get_buffered hbuffer hstep) hcount howed
      · rename_i hbuffer
        split at h
        · rename_i hidle
          obtain ⟨hstep, hcount, howed⟩ := act_step h
          exact .pop hidle (get_pops hbuffer hstep) hcount howed
        · cases h
    | send | maybeFlush | flush | putDirect =>
      simp only [Edge.step] at h
      obtain ⟨hstep, hcount, howed⟩ := act_step h
      refine .call ?_ hcount howed
      simp only [Channel.step] at hstep
      split at hstep
      · rw [Option.some.injEq] at hstep
        rw [← hstep]
        rfl
      · cases hstep
  | count =>
    simp only [Edge.step] at h
    split at h
    · rename_i howes
      cases h
      exact .add howes rfl
    · rename_i howes
      cases h
      exact .subtract howes rfl
    · cases h
  | die =>
    rw [Edge.step, Option.map_eq_some_iff] at h
    obtain ⟨owed, howes, rfl⟩ := h
    refine .die ?_ rfl
    cases owed with
    | add => simp [counted, howes] at hcounted
    | subtract => exact howes
  | resync =>
    simp only [Edge.step] at h
    split at h
    · rename_i hempty
      cases h
      exact .resync hempty.1 hempty.2 rfl
    · cases h

/-- The count is not below what is in the queue, but for the store that is owed. -/
def Covers (count waiting : ℕ) : Option Owed → Prop
  | none => waiting ≤ count
  | some .add => waiting ≤ count + 1
  | some .subtract => waiting + 1 ≤ count

/-- The queue has no more messages than its count says, nor than slots. -/
structure Fits (maxsize : ℕ) (edge : Edge Producer Reader Payload) : Prop where
  covers : Covers edge.count edge.state.queue.waiting.length edge.owed
  room : maxsize = 0 ∨ edge.state.queue.waiting.length ≤ maxsize

theorem Fits.turn {edge next : Edge Producer Reader Payload} {turn : Turn Producer Reader Payload}
    (h : Fits maxsize edge) (hcounted : counted edge turn = true)
    (hstep : edge.step chunkSize maxsize chunkS turn = some next) : Fits maxsize next := by
  obtain ⟨hcovers, hroom⟩ := h
  cases Edge.step_turned hcounted hstep with
  | call hwaiting hcount howed =>
    rw [← hwaiting, ← hcount, ← howed] at hcovers
    rw [← hwaiting] at hroom
    exact ⟨hcovers, hroom⟩
  | publish hidle hfree hwaiting hcount howed =>
    rw [hidle, Covers] at hcovers
    refine ⟨?_, ?_⟩
    · rw [howed, Covers]
      omega
    · omega
  | pop hidle hwaiting hcount howed =>
    rw [hidle, Covers] at hcovers
    refine ⟨?_, ?_⟩
    · rw [howed, Covers]
      omega
    · omega
  | add howes hnext =>
    subst hnext
    rw [howes] at hcovers
    exact ⟨hcovers, hroom⟩
  | subtract howes hnext =>
    subst hnext
    rw [howes, Covers] at hcovers
    exact ⟨Nat.le_sub_one_of_lt hcovers, hroom⟩
  | die howes hnext =>
    subst hnext
    rw [howes] at hcovers
    exact ⟨Nat.le_of_succ_le hcovers, hroom⟩
  | resync hidle hempty hnext =>
    subst hnext
    refine ⟨?_, hroom⟩
    rw [hidle, Covers, hempty]
    exact Nat.le_refl 0

/-- In every state of a counted run the messages on the queue are no more than its slots. -/
theorem fits_of_reachable {edge : Edge Producer Reader Payload}
    (h : ((edgeMachine Producer Reader Payload chunkSize maxsize chunkS).restrict counted).Reachable edge) :
    Fits maxsize edge := by
  have hstart : Fits maxsize
      ((edgeMachine Producer Reader Payload chunkSize maxsize chunkS).restrict counted).start :=
    ⟨Nat.le_refl 0, .inr (Nat.zero_le _)⟩
  refine h.invariant (Fits maxsize) hstart fun edge turn next hedge hstep ↦ ?_
  obtain ⟨hcounted, hnext⟩ := Machine.restrict_step hstep
  exact hedge.turn hcounted hnext

/-- For the channels a turn is one of their own steps, on a queue without a bound, or nothing. -/
theorem Edge.step_state {edge next : Edge Producer Reader Payload} {turn : Turn Producer Reader Payload}
    (h : edge.step chunkSize maxsize chunkS turn = some next) :
    next.state = edge.state ∨
      ∃ action, turn = .act action ∧ Channel.step chunkSize 0 chunkS edge.state action = some next.state := by
  cases turn with
  | act action =>
    refine .inr ⟨action, rfl, ?_⟩
    cases action with
    | placed =>
      simp only [Edge.step] at h
      split at h
      · exact (act_step h).1
      · cases h
    | get =>
      simp only [Edge.step] at h
      split at h
      · exact (act_step h).1
      · split at h
        · exact (act_step h).1
        · cases h
    | send | maybeFlush | flush | putDirect => exact (act_step h).1
  | count =>
    refine .inl ?_
    simp only [Edge.step] at h
    split at h <;> cases h <;> rfl
  | die =>
    rw [Edge.step, Option.map_eq_some_iff] at h
    obtain ⟨owed, -, rfl⟩ := h
    exact .inl rfl
  | resync =>
    simp only [Edge.step] at h
    split at h
    · cases h
      exact .inl rfl
    · cases h

/-- The channels of an edge run as they do on a queue without a bound. -/
theorem state_of_reachable {edge : Edge Producer Reader Payload}
    (h : ((edgeMachine Producer Reader Payload chunkSize maxsize chunkS).restrict counted).Reachable edge) :
    ((machine Producer Reader Payload chunkSize 0 chunkS).restrict steady).Reachable edge.state := by
  refine h.invariant (fun edge ↦
    ((machine Producer Reader Payload chunkSize 0 chunkS).restrict steady).Reachable edge.state) .refl ?_
  intro edge turn next hedge hstep
  obtain ⟨hcounted, hnext⟩ := Machine.restrict_step hstep
  obtain hsame | ⟨action, rfl, haction⟩ := Edge.step_state hnext
  · rw [hsame]
    exact hedge
  · have hsteady : steady edge.state action = true := hcounted
    have hrestricted : ((machine Producer Reader Payload chunkSize 0 chunkS).restrict steady).step edge.state
        action = some next.state := by
      simp only [Machine.restrict, hsteady, if_true]
      exact haction
    exact hedge.tail hrestricted

theorem stocked_of_reachable
    (h : ((machine Producer Reader Payload chunkSize maxsize chunkS).restrict steady).Reachable state) :
    Stocked chunkSize state := by
  refine h.invariant (Stocked chunkSize) ?_ fun _ _ _ hstate hstep ↦
    hstate.effect (step_effect (Machine.restrict_step hstep).2)
  constructor
  · exact fun producer ↦ ⟨nofun, .inl rfl⟩
  · exact fun producer ↦ ⟨nofun, nofun⟩
  · exact nofun

/-- Messages of at most `size` items in at most `slots` slots. -/
theorem length_flatMap_le {Item : Type*} {messages : List (Message Item)} {size slots : ℕ}
    (hsize : ∀ message ∈ messages, message.items.length ≤ size) (hslots : messages.length ≤ slots) :
    (messages.flatMap Message.items).length ≤ slots * size := by
  have hitems : (messages.flatMap Message.items).length ≤ messages.length * size := by
    induction messages with
    | nil => simp
    | cons message rest ih =>
      have hrest := ih (fun other hother ↦ hsize other (List.mem_cons_of_mem _ hother))
        ((Nat.le_succ _).trans hslots)
      have hmessage := hsize message List.mem_cons_self
      rw [List.flatMap_cons, List.length_append, List.length_cons, Nat.succ_mul]
      omega
  exact hitems.trans (Nat.mul_le_mul_right size hslots)

theorem Message.Sized.length_le {Item : Type*} {message : Message Item} (h : message.Sized chunkSize) :
    message.items.length ≤ max 1 chunkSize := by
  cases message with
  | bare item => exact le_max_left _ _
  | chunk items => exact h.2.trans (le_max_right _ _)

/-- Every channel is empty between its calls, and no message has more than one item. -/
structure Singles (state : State Producer Reader Payload) : Prop where
  pending : ∀ producer, (state.channel producer).pending = []
  hand : ∀ producer, (handItems (state.hand producer)).length ≤ 1
  waiting : ∀ message ∈ state.queue.waiting, message.items.length ≤ 1

omit [DecidableEq Reader] in
theorem Singles.make (h : Singles state) {producer : Producer}
    {made : OutputChannel (Stamped Producer Payload) × Option (Message (Stamped Producer Payload))}
    (new : List (Stamped Producer Payload)) (hpending : made.1.pending = [])
    (hhand : (handItems made.2).length ≤ 1) : Singles (state.make producer made new) where
  pending := (Function.forall_update_iff _ fun _ (channel : OutputChannel (Stamped Producer Payload)) ↦
      channel.pending = []).mpr
    ⟨hpending, fun other _ ↦ h.pending other⟩
  hand := (Function.forall_update_iff _ fun _ hand ↦ (handItems hand).length ≤ 1).mpr
    ⟨hhand, fun other _ ↦ h.hand other⟩
  waiting := h.waiting

omit [DecidableEq Producer] in
theorem flush_empty {channel : OutputChannel (Stamped Producer Payload)} (h : channel.pending = []) :
    channel.flush = (channel, none) := by
  simp [OutputChannel.flush, h]

omit [DecidableEq Producer] in
theorem maybeFlush_empty {channel : OutputChannel (Stamped Producer Payload)} (h : channel.pending = [])
    (now : ℚ) : channel.maybeFlush chunkS now = (channel, none) := by
  simp [OutputChannel.maybeFlush, h]

omit [DecidableEq Producer] in
/-- An age limit of zero is reached at once. -/
theorem send_single {channel : OutputChannel (Stamped Producer Payload)} (h : channel.pending = [])
    (hchunk : chunkS ≤ 0) (item : Stamped Producer Payload) {now later : ℚ} (hclock : now ≤ later) :
    (channel.send chunkSize chunkS item now later).1.pending = [] ∧
      (handItems (channel.send chunkSize chunkS item now later).2).length ≤ 1 := by
  rw [OutputChannel.send]
  split
  · exact ⟨h, by simp⟩
  · have hage : chunkS ≤ later - now := hchunk.trans (sub_nonneg.mpr hclock)
    simp [h, hage, OutputChannel.flush]

/-- Without chunks every channel is empty between its calls. -/
theorem Singles.step (h : Singles state) (hchunk : chunkS ≤ 0)
    (hsteady : steady state action = true)
    (hstep : step chunkSize maxsize chunkS state action = some next) : Singles next := by
  cases action with
  | send producer payload now later =>
    simp only [Channel.step] at hstep
    split at hstep
    · cases hstep
      obtain ⟨hpending, hhand⟩ := send_single (h.pending producer) hchunk
        (state.stamp producer false payload) (of_decide_eq_true hsteady)
      exact h.make _ hpending hhand
    · cases hstep
  | maybeFlush producer now =>
    simp only [Channel.step, maybeFlush_empty (h.pending producer)] at hstep
    split at hstep
    · cases hstep
      exact h.make _ (h.pending producer) (Nat.zero_le _)
    · cases hstep
  | flush producer =>
    simp only [Channel.step, flush_empty (h.pending producer)] at hstep
    split at hstep
    · cases hstep
      exact h.make _ (h.pending producer) (Nat.zero_le _)
    · cases hstep
  | putDirect producer payload =>
    simp only [Channel.step] at hstep
    split at hstep
    · cases hstep
      exact h.make _ (h.pending producer) le_rfl
    · cases hstep
  | placed producer =>
    simp only [Channel.step] at hstep
    split at hstep
    · rename_i message hhand
      split at hstep
      · cases hstep
        refine ⟨h.pending, ?_, ?_⟩
        · exact (Function.forall_update_iff _ fun _ hand ↦ (handItems hand).length ≤ 1).mpr
            ⟨Nat.zero_le _, fun other _ ↦ h.hand other⟩
        · intro other hother
          rw [List.mem_append, List.mem_singleton] at hother
          rcases hother with hother | rfl
          · exact h.waiting other hother
          · have hlength := h.hand producer
            rwa [hhand] at hlength
      · cases hstep
    · cases hstep
  | get reader =>
    obtain ⟨hchannel, hhand, hwaiting⟩ := get_frame hstep
    refine ⟨?_, ?_, fun message hmessage ↦ h.waiting message (hwaiting.subset hmessage)⟩
    · rw [hchannel]
      exact h.pending
    · rw [hhand]
      exact h.hand

/-- So it is in every state of a run. -/
theorem singles_of_reachable (hchunk : chunkS ≤ 0)
    (h : ((machine Producer Reader Payload chunkSize maxsize chunkS).restrict steady).Reachable state) :
    Singles state := by
  have hstart : Singles ((machine Producer Reader Payload chunkSize maxsize chunkS).restrict steady).start :=
    ⟨fun _ ↦ rfl, fun _ ↦ Nat.zero_le _, fun _ hmessage ↦ nomatch hmessage⟩
  refine h.invariant Singles hstart fun _ _ _ hstate hstep ↦ ?_
  obtain ⟨hsteady, hnext⟩ := Machine.restrict_step hstep
  exact hstate.step hchunk hsteady hnext

variable (Reader maxsize) in
/-- Sends in quick succession pile up in the channel. -/
theorem reachable_pending (hage : 0 < chunkS) (producer : Producer) (payload : Payload) (count : ℕ)
    (hcount : count < chunkSize) :
    ∃ state, ((edgeMachine Producer Reader Payload chunkSize maxsize chunkS).restrict counted).Reachable
        ⟨state, 0, none⟩ ∧
      (state.channel producer).pending.length = count ∧ (state.channel producer).oldest = 0 ∧
      state.hand producer = none ∧ state.queue.waiting = [] := by
  induction count with
  | zero => exact ⟨_, .refl, rfl, rfl, rfl, rfl⟩
  | succ count ih =>
    obtain ⟨state, hreachable, hlength, holdest, hidle, hwaiting⟩ := ih (Nat.lt_of_succ_lt hcount)
    let item := state.stamp producer false payload
    let channel : OutputChannel (Stamped Producer Payload) := ⟨(state.channel producer).pending ++ [item], 0⟩
    have hsend : (state.channel producer).send chunkSize chunkS item 0 0 = (channel, none) := by
      have hfull : ¬ chunkSize ≤ (state.channel producer).pending.length + 1 := by omega
      simp [OutputChannel.send, channel, holdest, hfull, hage, Nat.ne_zero_of_lt hcount]
    have hstep : ((edgeMachine Producer Reader Payload chunkSize maxsize chunkS).restrict counted).step
        ⟨state, 0, none⟩ (.act (.send producer payload 0 0)) =
          some ⟨state.make producer (channel, none) [item], 0, none⟩ := by
      simp [Machine.restrict, counted, steady, edgeMachine, Edge.step, Edge.act, step, hidle, hsend, item]
    refine ⟨state.make producer (channel, none) [item], hreachable.tail hstep, ?_, ?_, ?_, hwaiting⟩
    · simp [State.make, channel, hlength]
    · simp [State.make, channel]
    · simp [State.make]

variable (Reader) in
/-- One slot holds a whole chunk. -/
theorem reachable_chunk (hage : 0 < chunkS) (hchunk : 0 < chunkSize) (hslot : 0 < maxsize)
    (producer : Producer) (payload : Payload) :
    ∃ edge, ((edgeMachine Producer Reader Payload chunkSize maxsize chunkS).restrict counted).Reachable edge ∧
      edge.state.unread.length = chunkSize := by
  obtain ⟨state, hreachable, hlength, holdest, hidle, hwaiting⟩ :=
    reachable_pending Reader maxsize hage producer payload (chunkSize - 1)
      (Nat.sub_lt hchunk Nat.one_pos)
  let item := state.stamp producer false payload
  let items := (state.channel producer).pending ++ [item]
  have hitems : items.length = chunkSize := by
    simp only [items, List.length_append, List.length_singleton]
    omega
  have hsend : (state.channel producer).send chunkSize chunkS item 0 0 = (⟨[], 0⟩, some (.chunk items)) := by
    have hfull : chunkSize ≤ (state.channel producer).pending.length + 1 := by omega
    simp [OutputChannel.send, OutputChannel.flush, items, holdest, hfull, hchunk.ne']
  let sent := state.make producer (⟨[], 0⟩, some (.chunk items)) [item]
  have hsent : ((edgeMachine Producer Reader Payload chunkSize maxsize chunkS).restrict counted).step
      ⟨state, 0, none⟩ (.act (.send producer payload 0 0)) = some ⟨sent, 0, none⟩ := by
    simp [Machine.restrict, counted, steady, edgeMachine, Edge.step, Edge.act, step, hidle, hsend, item, sent]
  have hplaced : ((edgeMachine Producer Reader Payload chunkSize maxsize chunkS).restrict counted).step
      ⟨sent, 0, none⟩ (.act (.placed producer)) = some ⟨{ sent with
        hand := Function.update sent.hand producer none
        queue := { sent.queue with waiting := sent.queue.waiting ++ [.chunk items] } }, 0, some .add⟩ := by
    simp [Machine.restrict, counted, steady, edgeMachine, Edge.step, Edge.act, step, sent, State.make, hslot]
  refine ⟨_, (hreachable.tail hsent).tail hplaced, ?_⟩
  simp [State.unread, sent, State.make, hwaiting, hitems]

end Runs

section Edge

open Start (Job chunkEff capacity)

variable {Producer Payload : Type*} [DecidableEq Producer]

/-- As long as no producer is killed between its two stores, `outqn` bounds the unread items of an edge exactly
when a chunk is no larger, or no chunk is ever kept waiting to fill up. -/
theorem unread_le_iff (Reader : Type*) [DecidableEq Reader] (producer : Producer) (payload : Payload)
    (jobs : List Job) (i : ℕ) (job : Job) (outqn : ℕ) (chunkS : ℚ) (hjob : jobs[i]? = some job)
    (houtqn : job.outqn = some outqn) (hpos : 1 ≤ outqn) :
    (∀ edge, ((edgeMachine Producer Reader Payload (chunkEff jobs i) (capacity jobs i) chunkS).restrict
      counted).Reachable edge → edge.state.unread.length ≤ outqn) ↔ chunkEff jobs i ≤ outqn ∨ chunkS ≤ 0 := by
  obtain ⟨hslot, hslots⟩ := Start.capacity_le hjob houtqn hpos
  constructor
  · intro hbound
    by_contra hneither
    obtain ⟨hlarge, hage⟩ := not_or.mp hneither
    have hchunk : 0 < chunkEff jobs i := by omega
    obtain ⟨edge, hreachable, hlength⟩ :=
      reachable_chunk Reader (not_le.mp hage) hchunk hslot producer payload
    have hle := hbound edge hreachable
    omega
  · intro hcondition edge hreachable
    have hstate := state_of_reachable hreachable
    have hfits : edge.state.queue.waiting.length ≤ capacity jobs i := by
      rcases (fits_of_reachable hreachable).room with hzero | hfits
      · omega
      · exact hfits
    rcases hcondition with hchunk | hage
    · have hsizes : ∀ message ∈ edge.state.queue.waiting,
          message.items.length ≤ max 1 (chunkEff jobs i) := fun message hmessage ↦
        ((stocked_of_reachable hstate).sizes message (List.mem_append_right _ hmessage)).length_le
      calc
        edge.state.unread.length ≤ capacity jobs i * max 1 (chunkEff jobs i) := length_flatMap_le hsizes hfits
        _ ≤ outqn := Start.capacity_mul_le hjob houtqn hpos hchunk
    · calc
        edge.state.unread.length ≤ capacity jobs i * 1 :=
          length_flatMap_le (singles_of_reachable hage hstate).waiting hfits
        _ ≤ outqn := by rwa [Nat.mul_one]

/-- Two slots for chunks of four hold eight items. -/
theorem unread_le_iff_two :
    (∀ edge, ((edgeMachine Unit Unit ℕ 4 2 (1 / 100)).restrict counted).Reachable edge →
      edge.state.unread.length ≤ 8) ↔ 4 ≤ 8 ∨ (1 / 100 : ℚ) ≤ 0 :=
  unread_le_iff Unit () 7 [⟨true, some 8, some 4, 0, false, false, 1⟩] 0
    ⟨true, some 8, some 4, 0, false, false, 1⟩ 8 (1 / 100) rfl rfl (by decide)

/-- `outqn=2` and `chunk=3`: one slot with three items. A producer killed between its stores of `tail` and
`count` lets one more message in, here with `outqn=1` and no chunks. -/
theorem not_unread_le :
    chunkEff [⟨true, some 2, some 3, 0, false, false, 1⟩] 0 = 3 ∧
    capacity [⟨true, some 2, some 3, 0, false, false, 1⟩] 0 = 1 ∧
    (¬∀ edge, (edgeMachine Unit Unit ℕ 3 1 (1 / 100)).Reachable edge → edge.state.unread.length ≤ 2) ∧
    ¬∀ edge, (edgeMachine Bool Unit ℕ 0 1 (1 / 100)).Reachable edge → edge.state.unread.length ≤ 1 := by
  have hchunk : ((edgeMachine Unit Unit ℕ 3 1 (1 / 100)).runFrom (edgeMachine Unit Unit ℕ 3 1 (1 / 100)).start
      [.act (.send () 7 0 0), .act (.send () 8 0 0), .act (.send () 9 0 0), .act (.placed ()), .count]).map
        (fun edge ↦ edge.state.unread.length) = some 3 := by decide +kernel
  have hdeath : ((edgeMachine Bool Unit ℕ 0 1 (1 / 100)).runFrom (edgeMachine Bool Unit ℕ 0 1 (1 / 100)).start
      [.act (.send false 7 0 0), .act (.placed false), .die, .act (.send true 8 0 0), .act (.placed true)]).map
        (fun edge ↦ edge.state.unread.length) = some 2 := by decide +kernel
  refine ⟨by decide, by decide, fun hbound ↦ ?_, fun hbound ↦ ?_⟩
  · obtain ⟨edge, hedge, hlength⟩ := Option.map_eq_some_iff.mp hchunk
    have hle := hbound edge ⟨_, hedge⟩
    omega
  · obtain ⟨edge, hedge, hlength⟩ := Option.map_eq_some_iff.mp hdeath
    have hle := hbound edge ⟨_, hedge⟩
    omega

end Edge

end GpuPipe.Channel
