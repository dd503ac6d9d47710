import Mathlib.Data.Multiset.Basic
import GpuPipe.Library.Machine
import GpuPipe.Library.Totals

/-!
# Workers that start held

`_scavenge_hold_wait` as the workers of one stage run it beside each other. Every read of a shared word
and every operation on the input queue is a step. The workers that are not held take messages and
finish when they like; upstream, back edges, the scavenger and a stop act at any time. The stage has an
input queue and its workers do not die.
-/

namespace GpuPipe.Hold

variable {Payload : Type}

/-- A message of the input queue: `End`, or anything else, a chunk included. -/
inductive Message (Payload : Type)
  | fin
  | item (payload : Payload)
  deriving DecidableEq

/-- The next statement of a worker. `returning` is about to put back what it took. -/
inductive Pc (Payload : Type)
  | head
  | looking
  | asking
  | counting
  | getting
  | returning (payload : Payload)
  | sleeping
  | working
  | over
  | finished
  deriving DecidableEq

/-- The stage of `n` workers. `arrived` and `taken` are history: the items put on the queue from
outside, and those that loaded workers took. -/
structure State (n : ℕ) (Payload : Type) where
  hold : Fin n → Bool
  pc : Fin n → Pc Payload
  shouldStop : Bool
  upstreamDone : Bool
  queue : List (Message Payload)
  counter : ℕ
  arrived : Multiset Payload
  taken : Multiset Payload

inductive Action (n : ℕ) (Payload : Type)
  | move (worker : Fin n)
  | take (worker : Fin n)
  | finish (worker : Fin n)
  | arrive (message : Message Payload)
  | upstreamDone
  | setHold (worker : Fin n) (value : Bool)
  | stop

/-- The workers on busy GPUs start in `_scavenge_hold_wait`, the others load. -/
def State.start {n : ℕ} (busy : Fin n → Bool) : State n Payload where
  hold := busy
  pc := fun worker ↦ if busy worker then .head else .working
  shouldStop := false
  upstreamDone := false
  queue := []
  counter := 0
  arrived := 0
  taken := 0

def Message.payload : Message Payload → Multiset Payload
  | .fin => 0
  | .item payload => {payload}

section Steps

variable {n : ℕ} (maxsize : ℕ) (state : State n Payload)

def State.goto (worker : Fin n) (pc : Pc Payload) : State n Payload :=
  { state with pc := Function.update state.pc worker pc }

@[simp] theorem goto_pc (worker : Fin n) (pc : Pc Payload) :
    (state.goto worker pc).pc = Function.update state.pc worker pc := rfl

def State.full : Bool := maxsize ≠ 0 && maxsize ≤ state.queue.length

/-- The next statement of a worker in `_scavenge_hold_wait`, or its count when the stream is over. -/
def move (worker : Fin n) : Option (State n Payload) :=
  match state.pc worker with
  | .head => some (state.goto worker (if state.hold worker then .looking else .working))
  | .looking => some (state.goto worker (if state.shouldStop then .over else .asking))
  | .asking => some (state.goto worker (if state.upstreamDone then .counting else .sleeping))
  | .counting => some (state.goto worker (if n - 1 ≤ state.counter then .getting else .sleeping))
  | .getting =>
    match state.queue with
    | [] => some (state.goto worker .over)
    | .fin :: rest => some (State.goto { state with queue := rest } worker .head)
    | .item payload :: rest => some (State.goto { state with queue := rest } worker (.returning payload))
  | .returning payload =>
    if state.full maxsize then none
    else some (State.goto { state with queue := state.queue ++ [.item payload] } worker .sleeping)
  | .sleeping => some (state.goto worker .head)
  | .over => some (State.goto { state with counter := state.counter + 1 } worker .finished)
  | .working | .finished => none

def step : Action n Payload → Option (State n Payload)
  | .move worker => move maxsize state worker
  | .take worker =>
    match state.pc worker, state.queue with
    | .working, message :: rest => some { state with queue := rest, taken := state.taken + message.payload }
    | _, _ => none
  | .finish worker =>
    match state.pc worker with
    | .working => some (State.goto { state with counter := state.counter + 1 } worker .finished)
    | _ => none
  | .arrive message =>
    if state.full maxsize then none
    else
      some { state with
        queue := state.queue ++ [message]
        arrived := state.arrived + message.payload }
  | .upstreamDone => some { state with upstreamDone := true }
  | .setHold worker value => some { state with hold := Function.update state.hold worker value }
  | .stop => some { state with shouldStop := true }

end Steps

def machine {n : ℕ} (Payload : Type) (maxsize : ℕ) (busy : Fin n → Bool) :
    Machine (State n Payload) (Action n Payload) where
  start := .start busy
  step := step maxsize

section Waiting

variable {n maxsize : ℕ} {busy : Fin n → Bool} {state next last : State n Payload} {worker : Fin n}
  {action : Action n Payload}

def Pc.waits : Pc Payload → Bool
  | .working | .over | .finished => false
  | _ => true

/-- What a worker has taken off the queue and must put back. -/
def Pc.hand : Pc Payload → Multiset Payload
  | .returning payload => {payload}
  | _ => 0

/-- The worker waits, and the scavenger has not released it. -/
def State.held (state : State n Payload) (worker : Fin n) : Prop :=
  state.hold worker = true ∧ (state.pc worker).waits = true

/-- The stream has ended for the stage but for its held workers. -/
structure StreamOver (state : State n Payload) : Prop where
  upstream : state.upstreamDone = true
  queue : state.queue = []
  running : state.shouldStop = false
  others : ∀ worker, state.held worker ∨ state.pc worker = .finished

/-- The worker's next poll makes `_scavenge_hold_wait` return False: its own steps take it there, and
however the held workers' steps interleave, no poll it begins ends in the sleep or in `load`. -/
def NextPollLeaves (maxsize : ℕ) (busy : Fin n → Bool) (state : State n Payload) (worker : Fin n) : Prop :=
  (∃ count last, (machine Payload maxsize busy).runFrom state (List.replicate count (.move worker)) =
    some last ∧ last.pc worker = .over) ∧
  ∀ (before during : List (Fin n)) (middle last : State n Payload),
    (machine Payload maxsize busy).runFrom state (before.map .move) = some middle →
    middle.pc worker = .head →
    (machine Payload maxsize busy).runFrom middle (during.map .move) = some last →
    last.pc worker ≠ .sleeping ∧ last.pc worker ≠ .working

/-! ## What the workers hold -/

/-- A worker's part of the end counter. -/
def Pc.count : Pc Payload → ℕ
  | .finished => 1
  | _ => 0

def payloads (queue : List (Message Payload)) : Multiset Payload := (queue.map Message.payload).sum

/-- The counter counts the finished workers, a worker takes from the queue only when all its siblings
have finished, and every item that came is on the queue, in a held worker's hand or with a worker. -/
structure Inv (state : State n Payload) : Prop where
  counter : state.counter = ∑ worker, (state.pc worker).count
  alone : ∀ worker, state.pc worker = .getting ∨ (∃ payload, state.pc worker = .returning payload) →
    n - 1 ≤ state.counter
  kept : state.arrived = state.taken + payloads state.queue + ∑ worker, (state.pc worker).hand

theorem inv_start : Inv (State.start busy : State n Payload) where
  counter := by
    rw [Finset.sum_eq_zero]
    · rfl
    · intro worker _
      simp only [State.start]
      split <;> rfl
  alone worker hpc := by
    simp only [State.start] at hpc
    split at hpc <;> simp at hpc
  kept := by
    rw [Finset.sum_eq_zero]
    · rfl
    · intro worker _
      simp only [State.start]
      split <;> rfl

/-- A worker goes on: its count and its hand change with the counter and the queue. -/
theorem Inv.goto (h : Inv state) {middle : State n Payload} {pc : Pc Payload} (hpc : middle.pc = state.pc)
    (hcounter : middle.counter + (state.pc worker).count = state.counter + pc.count)
    (hmore : state.counter ≤ middle.counter)
    (halone : pc = .getting ∨ (∃ payload, pc = .returning payload) → n - 1 ≤ middle.counter)
    (harrived : middle.arrived = state.arrived) (htaken : middle.taken = state.taken)
    (hqueue : payloads middle.queue + pc.hand = payloads state.queue + (state.pc worker).hand) :
    Inv (middle.goto worker pc) where
  counter := by
    have hsum := sum_update_comp Pc.count state.pc worker pc
    have hbefore := h.counter
    simp only [State.goto, hpc]
    omega
  alone other hother := by
    rcases eq_or_ne other worker with rfl | hne
    · simp only [State.goto, Function.update_self] at hother
      exact halone hother
    · simp only [State.goto, hpc, Function.update_of_ne hne] at hother
      exact (h.alone other hother).trans hmore
  kept := by
    have hsum := sum_update_comp Pc.hand state.pc worker pc
    have hboth : payloads middle.queue + ∑ other, (Function.update state.pc worker pc other).hand +
          (pc.hand + (state.pc worker).hand) =
        payloads state.queue + ∑ other, (state.pc other).hand + (pc.hand + (state.pc worker).hand) := by
      calc _ = payloads middle.queue + pc.hand +
            (∑ other, (Function.update state.pc worker pc other).hand + (state.pc worker).hand) := by abel
        _ = payloads state.queue + (state.pc worker).hand +
            (∑ other, (state.pc other).hand + pc.hand) := by rw [hqueue, hsum]
        _ = _ := by abel
    have hsame := add_right_cancel hboth
    simp only [State.goto, hpc, harrived, htaken, h.kept, add_assoc]
    rw [hsame]

/-- A worker goes on with nothing in its hand before or after, and does not come to the queue. -/
theorem Inv.pass (h : Inv state) {pc : Pc Payload} (hcount : (state.pc worker).count = pc.count)
    (hhand : (state.pc worker).hand = pc.hand)
    (halone : pc = .getting ∨ (∃ payload, pc = .returning payload) → n - 1 ≤ state.counter) :
    Inv (state.goto worker pc) := by
  apply h.goto rfl
  · rw [hcount]
  · exact le_rfl
  · exact halone
  · rfl
  · rfl
  · rw [hhand]

/-- A worker that has nothing in its hand counts itself. -/
theorem Inv.finish (h : Inv state) (hcount : (state.pc worker).count = 0) (hhand : (state.pc worker).hand = 0) :
    Inv (State.goto { state with counter := state.counter + 1 } worker .finished) := by
  apply h.goto
  · rfl
  · rw [hcount]
    rfl
  · exact Nat.le_succ _
  · simp
  · rfl
  · rfl
  · rw [hhand]
    rfl

/-- A statement of one worker takes no item twice and counts him once. -/
theorem Inv.move (h : Inv state) (hstep : Hold.move maxsize state worker = some next) : Inv next := by
  simp only [Hold.move] at hstep
  split at hstep
  case h_1 hpc =>
    cases hstep
    split <;> exact h.pass (by rw [hpc]; rfl) (by rw [hpc]; rfl) (by simp)
  case h_2 hpc =>
    cases hstep
    split <;> exact h.pass (by rw [hpc]; rfl) (by rw [hpc]; rfl) (by simp)
  case h_3 hpc =>
    cases hstep
    split <;> exact h.pass (by rw [hpc]; rfl) (by rw [hpc]; rfl) (by simp)
  case h_4 hpc =>
    cases hstep
    split
    · exact h.pass (by rw [hpc]; rfl) (by rw [hpc]; rfl) fun _ ↦ ‹_›
    · exact h.pass (by rw [hpc]; rfl) (by rw [hpc]; rfl) (by simp)
  case h_5 hpc =>
    have halone := h.alone worker (.inl hpc)
    split at hstep
    · cases hstep
      exact h.pass (by rw [hpc]; rfl) (by rw [hpc]; rfl) (by simp)
    · rename_i rest hqueue
      cases hstep
      apply h.goto
      · rfl
      · rw [hpc]
        rfl
      · exact le_rfl
      · simp
      · rfl
      · rfl
      · rw [hpc, hqueue]
        simp [payloads, Message.payload, Pc.hand]
    · rename_i payload rest hqueue
      cases hstep
      apply h.goto
      · rfl
      · rw [hpc]
        rfl
      · exact le_rfl
      · exact fun _ ↦ halone
      · rfl
      · rfl
      · rw [hpc, hqueue]
        simp [payloads, Message.payload, Pc.hand, add_comm]
  case h_6 payload hpc =>
    split at hstep <;> cases hstep
    apply h.goto
    · rfl
    · rw [hpc]
      rfl
    · exact le_rfl
    · simp
    · rfl
    · rfl
    · rw [hpc]
      simp [payloads, Message.payload, Pc.hand]
  case h_7 hpc =>
    cases hstep
    exact h.pass (by rw [hpc]; rfl) (by rw [hpc]; rfl) (by simp)
  case h_8 hpc =>
    cases hstep
    exact h.finish (by rw [hpc]; rfl) (by rw [hpc]; rfl)
  case h_9 => cases hstep
  case h_10 => cases hstep

/-- A step that moves no worker. -/
theorem Inv.congr (h : Inv state) (hpc : next.pc = state.pc) (hcounter : next.counter = state.counter)
    (hkept : next.arrived + state.taken + payloads state.queue =
      state.arrived + next.taken + payloads next.queue) : Inv next where
  counter := by
    rw [hcounter, hpc]
    exact h.counter
  alone worker hworker := by
    rw [hpc] at hworker
    rw [hcounter]
    exact h.alone worker hworker
  kept := by
    have hbefore := h.kept
    rw [hpc]
    have hboth : next.arrived + (state.taken + payloads state.queue) =
        next.taken + payloads next.queue + ∑ worker, (state.pc worker).hand +
          (state.taken + payloads state.queue) := by
      rw [← add_assoc, hkept, hbefore]
      abel
    exact add_right_cancel hboth

/-- What every step, of workers or of others, preserves. -/
theorem Inv.step (h : Inv state) (hstep : Hold.step maxsize state action = some next) : Inv next := by
  cases action with
  | move worker => exact h.move hstep
  | take worker =>
    simp only [Hold.step] at hstep
    split at hstep
    · rename_i message rest hpc hqueue
      cases hstep
      apply h.congr
      · rfl
      · rfl
      · rw [hqueue]
        simp only [payloads, List.map_cons, List.sum_cons]
        abel
    · cases hstep
  | finish worker =>
    simp only [Hold.step] at hstep
    split at hstep
    · rename_i hpc
      cases hstep
      exact h.finish (by rw [hpc]; rfl) (by rw [hpc]; rfl)
    · cases hstep
  | arrive message =>
    simp only [Hold.step] at hstep
    split at hstep <;> cases hstep
    apply h.congr
    · rfl
    · rfl
    · simp only [payloads, List.map_append, List.map_singleton, List.sum_append, List.sum_singleton]
      abel
  | upstreamDone | setHold worker value | stop =>
    cases hstep
    exact h.congr rfl rfl rfl

theorem inv_of_reachable (h : (machine Payload maxsize busy).Reachable state) : Inv state := by
  apply h.invariant Inv
  · exact inv_start
  · intro state action next hstate hstep
    exact hstate.step hstep

/-! ## The end of the stream -/

theorem Pc.count_of_waits {pc : Pc Payload} (h : pc.waits = true) : pc.count = 0 := by
  cases pc <;> first | rfl | cases h

/-- With all but one worker finished, the counter is one short. -/
theorem Inv.counter_of_alone (h : Inv state) (hpc : (state.pc worker).count = 0)
    (hothers : ∀ other, other ≠ worker → state.pc other = .finished) : state.counter = n - 1 := by
  rw [h.counter, ← Finset.add_sum_erase _ _ (Finset.mem_univ worker), hpc, zero_add,
    Finset.sum_congr rfl (g := fun _ ↦ 1), Finset.sum_const, Finset.card_erase_of_mem (Finset.mem_univ worker)]
  · simp
  · intro other hother
    rw [hothers other (Finset.ne_of_mem_erase hother)]
    rfl

/-- With two workers not finished, the counter is two short. -/
theorem Inv.counter_of_two (h : Inv state) {other : Fin n} (hne : other ≠ worker)
    (hpc : (state.pc worker).count = 0) (hother : (state.pc other).count = 0) : state.counter + 1 < n := by
  have hmem : other ∈ Finset.univ.erase worker := Finset.mem_erase.mpr ⟨hne, Finset.mem_univ other⟩
  have hrest : ∑ each ∈ (Finset.univ.erase worker).erase other, (state.pc each).count ≤
      ((Finset.univ.erase worker).erase other).card • 1 := by
    apply Finset.sum_le_card_nsmul
    intro each _
    cases state.pc each <;> simp [Pc.count]
  have hcard : ((Finset.univ.erase worker).erase other).card + 2 = n := by
    have hfirst := Finset.card_erase_add_one (Finset.mem_univ worker)
    have hsecond := Finset.card_erase_add_one hmem
    rw [Finset.card_univ, Fintype.card_fin] at hfirst
    omega
  rw [h.counter, ← Finset.add_sum_erase _ _ (Finset.mem_univ worker), hpc,
    ← Finset.add_sum_erase _ _ hmem, hother]
  simp only [smul_eq_mul, mul_one] at hrest
  omega

/-- The one worker that has not finished, in the state that its poll has to see. -/
structure LastHeld (state : State n Payload) (worker : Fin n) : Prop where
  hold : state.hold worker = true
  upstream : state.upstreamDone = true
  queue : state.queue = []
  running : state.shouldStop = false
  counter : state.counter = n - 1
  others : ∀ other, other ≠ worker → state.pc other = .finished

theorem LastHeld.goto (h : LastHeld state worker) (pc : Pc Payload) : LastHeld (state.goto worker pc) worker where
  hold := h.hold
  upstream := h.upstream
  queue := h.queue
  running := h.running
  counter := h.counter
  others other hne := by
    rw [goto_pc, Function.update_of_ne hne]
    exact h.others other hne

/-- Where the last held worker goes next. -/
def Pc.onward : Pc Payload → Pc Payload
  | .sleeping => .head
  | .head => .looking
  | .looking => .asking
  | .asking => .counting
  | .counting => .getting
  | _ => .over

/-- How many statements are left of its wait. -/
def Pc.left : Pc Payload → ℕ
  | .sleeping => 6
  | .head => 5
  | .looking => 4
  | .asking => 3
  | .counting => 2
  | .getting => 1
  | _ => 0

/-- The last held worker moves on to the place that `onward` gives. -/
theorem LastHeld.move (h : LastHeld state worker) (hpc : 0 < (state.pc worker).left) :
    Hold.move maxsize state worker = some (state.goto worker (state.pc worker).onward) := by
  simp only [Hold.move]
  split <;> simp_all [Pc.left, Pc.onward, h.hold, h.upstream, h.queue, h.running, h.counter]

theorem left_onward {pc : Pc Payload} (h : 0 < pc.left) : pc.onward.left + 1 = pc.left := by
  cases pc <;> first | rfl | cases h

theorem over_of_onward {pc : Pc Payload} (h : 0 < pc.left) (hnone : pc.onward.left = 0) : pc.onward = .over := by
  cases pc <;> simp_all [Pc.left, Pc.onward]

/-- Its own moves take the last held worker out of the wait. -/
theorem LastHeld.leaves (h : LastHeld state worker) (hpc : 0 < (state.pc worker).left ∨ state.pc worker = .over) :
    ∃ count last, (machine Payload maxsize busy).runFrom state (List.replicate count (.move worker)) = some last ∧
      last.pc worker = .over := by
  induction hleft : (state.pc worker).left generalizing state with
  | zero =>
    rw [hleft] at hpc
    exact ⟨0, state, rfl, hpc.resolve_left (lt_irrefl 0)⟩
  | succ left ih =>
    have hpos : 0 < (state.pc worker).left := by omega
    have honward := left_onward hpos
    obtain ⟨count, last, hrun, hover⟩ := ih (h.goto (state.pc worker).onward)
      (by
        rw [goto_pc, Function.update_self]
        rcases Nat.eq_zero_or_pos (state.pc worker).onward.left with hzero | hmore
        · exact .inr (over_of_onward hpos hzero)
        · exact .inl hmore)
      (by
        rw [goto_pc, Function.update_self]
        omega)
    refine ⟨count + 1, last, ?_, hover⟩
    rw [List.replicate_succ]
    exact Machine.runFrom_step (h.move hpos) hrun

theorem move_pc_of_ne (h : Hold.move maxsize state worker = some next) {other : Fin n} (hne : other ≠ worker) :
    next.pc other = state.pc other := by
  simp only [Hold.move] at h
  split at h
  case h_5 =>
    split at h <;> cases h <;> rw [goto_pc, Function.update_of_ne hne]
  case h_6 =>
    split at h <;> cases h
    rw [goto_pc, Function.update_of_ne hne]
  case h_9 | h_10 => cases h
  all_goals
    cases h
    rw [goto_pc, Function.update_of_ne hne]

theorem move_of_finished (h : state.pc worker = .finished) : Hold.move maxsize state worker = none := by
  simp only [Hold.move, h]

/-- Where the poll of the last held worker can be from the head of the loop on. -/
def Pc.leaves : Pc Payload → Bool
  | .head | .looking | .asking | .counting | .getting | .over => true
  | _ => false

/-- The same, or in the sleep before that poll. -/
def Pc.nears (pc : Pc Payload) : Bool :=
  match pc with
  | .sleeping => true
  | _ => pc.leaves

theorem onward_leaves {pc : Pc Payload} (h : pc.leaves = true) (hover : pc ≠ .over) :
    0 < pc.left ∧ pc.onward.leaves = true := by
  cases pc <;> simp_all [Pc.leaves, Pc.left, Pc.onward]

theorem onward_nears {pc : Pc Payload} (h : pc.nears = true) (hover : pc ≠ .over) :
    0 < pc.left ∧ pc.onward.nears = true := by
  cases pc <;> simp_all [Pc.nears, Pc.leaves, Pc.left, Pc.onward]

/-- The worker has counted itself, or is the last held one at one of these places. -/
def Ending (places : Pc Payload → Bool) (state : State n Payload) (worker : Fin n) : Prop :=
  state.pc worker = .finished ∨ LastHeld state worker ∧ places (state.pc worker) = true

section Ending

variable {places : Pc Payload → Bool}
  (honward : ∀ pc, places pc = true → pc ≠ .over → 0 < pc.left ∧ places pc.onward = true)
include honward

theorem Ending.move {other : Fin n} (h : Ending places state worker)
    (hstep : Hold.move maxsize state other = some next) : Ending places next worker := by
  rcases eq_or_ne other worker with rfl | hne
  · rcases h with hfinished | ⟨hlast, hplace⟩
    · rw [move_of_finished hfinished] at hstep
      cases hstep
    · by_cases hover : state.pc other = .over
      · left
        simp only [Hold.move, hover] at hstep
        cases hstep
        rw [goto_pc, Function.update_self]
      · right
        obtain ⟨hleft, hplace'⟩ := honward _ hplace hover
        rw [hlast.move hleft] at hstep
        cases hstep
        refine ⟨hlast.goto _, ?_⟩
        rwa [goto_pc, Function.update_self]
  · rcases h with hfinished | ⟨hlast, -⟩
    · left
      rw [move_pc_of_ne hstep hne.symm, hfinished]
    · rw [move_of_finished (hlast.others other hne)] at hstep
      cases hstep

/-- Whatever the others do, the last held worker stays on its way out. -/
theorem Ending.run (h : Ending places state worker) {moves : List (Fin n)}
    (hrun : (machine Payload maxsize busy).runFrom state (moves.map .move) = some last) :
    Ending places last worker := by
  induction moves generalizing state with
  | nil =>
    cases hrun
    exact h
  | cons other rest ih =>
    rw [List.map_cons, Machine.runFrom_cons, Option.bind_eq_some_iff] at hrun
    obtain ⟨middle, hmiddle, hrest⟩ := hrun
    exact ih (h.move honward hmiddle) hrest

end Ending

/-- The one worker that is left, with nothing to put back, leaves at its next poll. -/
theorem LastHeld.nextPollLeaves (h : LastHeld state worker) (hpc : (state.pc worker).nears = true) :
    NextPollLeaves maxsize busy state worker := by
  constructor
  · apply h.leaves
    by_cases hover : state.pc worker = .over
    · exact .inr hover
    · exact .inl (onward_nears hpc hover).1
  · intro before during middle last hbefore hhead hduring
    have hmiddle : Ending Pc.nears middle worker :=
      Ending.run (fun _ ↦ onward_nears) (.inr ⟨h, hpc⟩) hbefore
    have hlast : LastHeld middle worker := by
      rcases hmiddle with hfinished | ⟨hlast, -⟩
      · rw [hhead] at hfinished
        cases hfinished
      · exact hlast
    have hend : Ending Pc.leaves last worker :=
      Ending.run (fun _ ↦ onward_leaves) (.inr ⟨hlast, by rw [hhead]; rfl⟩) hduring
    rcases hend with hfinished | ⟨-, hleaves⟩
    · rw [hfinished]
      exact ⟨nofun, nofun⟩
    · constructor <;> intro hpc' <;> rw [hpc'] at hleaves <;> cases hleaves

/-- A waiting worker whose polls end in the sleep: two of its siblings' counts are missing, or it takes
an item and puts it back each time. -/
def Turning (state : State n Payload) (worker : Fin n) : Prop :=
  match state.pc worker with
  | .head | .looking | .asking | .counting | .sleeping =>
    state.counter + 1 < n ∨ ∃ payload, state.queue = [.item payload]
  | .getting => ∃ payload, state.queue = [.item payload]
  | .returning _ => state.queue = []
  | .working | .over | .finished => False

/-- A worker whose poll has failed the test goes round, as long as it is held. -/
theorem Turning.move (h : Turning state worker) (hhold : state.hold worker = true) (hrunning : state.shouldStop = false)
    (hstep : Hold.move maxsize state worker = some next) :
    Turning next worker ∧ next.hold worker = true ∧ next.shouldStop = false := by
  simp only [Hold.move] at hstep
  simp only [Turning] at h
  split at hstep <;> rename_i hpc <;> simp only [hpc] at h
  case h_1 | h_2 =>
    cases hstep
    refine ⟨?_, hhold, hrunning⟩
    simpa [Turning, State.goto, hhold, hrunning] using h
  case h_3 =>
    cases hstep
    refine ⟨?_, hhold, hrunning⟩
    rw [Turning, goto_pc, Function.update_self]
    cases state.upstreamDone <;> exact h
  case h_4 =>
    cases hstep
    refine ⟨?_, hhold, hrunning⟩
    rw [Turning, goto_pc, Function.update_self]
    by_cases hcount : n - 1 ≤ state.counter
    · rw [if_pos hcount]
      exact h.resolve_left (by omega)
    · rw [if_neg hcount]
      exact h
  case h_5 =>
    obtain ⟨payload, hqueue⟩ := h
    simp only [hqueue] at hstep
    cases hstep
    refine ⟨?_, hhold, hrunning⟩
    rw [Turning, goto_pc, Function.update_self]
    rfl
  case h_6 payload =>
    split at hstep <;> cases hstep
    refine ⟨?_, hhold, hrunning⟩
    rw [Turning, goto_pc, Function.update_self]
    right
    exact ⟨payload, by simp [State.goto, h]⟩
  case h_7 =>
    cases hstep
    refine ⟨?_, hhold, hrunning⟩
    rw [Turning, goto_pc, Function.update_self]
    exact h

theorem Turning.not_leaves (h : Turning state worker) (hhold : state.hold worker = true)
    (hrunning : state.shouldStop = false) : ¬ NextPollLeaves maxsize busy state worker := by
  rintro ⟨⟨count, last, hrun, hover⟩, -⟩
  induction count generalizing state with
  | zero =>
    cases hrun
    rw [Turning, hover] at h
    exact h
  | succ count ih =>
    rw [List.replicate_succ, Machine.runFrom_cons, Option.bind_eq_some_iff] at hrun
    obtain ⟨middle, hmiddle, hrest⟩ := hrun
    obtain ⟨hturning, hhold', hrunning'⟩ := h.move hhold hrunning hmiddle
    exact ih hturning hhold' hrunning' hrest

/-- One held worker, and nothing in its hand. -/
def OneHeld (state : State n Payload) : Prop :=
  (∀ worker worker', state.held worker → state.held worker' → worker = worker') ∧
    ∀ worker payload, state.pc worker ≠ .returning payload

/-- One held worker with nothing in its hand is the last that has not finished. -/
theorem Inv.lastHeld (h : Inv state) (hstream : StreamOver state) (hheld : state.held worker)
    (hone : OneHeld state) : LastHeld state worker ∧ (state.pc worker).nears = true := by
  obtain ⟨hunique, hnone⟩ := hone
  have hothers : ∀ other, other ≠ worker → state.pc other = .finished := by
    intro other hne
    rcases hstream.others other with hother | hfinished
    · exact absurd (hunique other worker hother hheld) hne
    · exact hfinished
  have hcounter := h.counter_of_alone (Pc.count_of_waits hheld.2) hothers
  refine ⟨⟨hheld.1, hstream.upstream, hstream.queue, hstream.running, hcounter, hothers⟩, ?_⟩
  have hwaits := hheld.2
  have hreturning := hnone worker
  revert hwaits hreturning
  cases state.pc worker <;> simp [Pc.waits, Pc.nears, Pc.leaves]

/-- With a second held worker the poll fails the test. -/
theorem Inv.turning_of_two (h : Inv state) {other : Fin n} (hheld : state.held worker) (hheld' : state.held other)
    (hne : other ≠ worker) : Turning state worker := by
  have hcounter := h.counter_of_two hne (Pc.count_of_waits hheld.2) (Pc.count_of_waits hheld'.2)
  have halone := h.alone worker
  have hwaits := hheld.2
  rw [Turning]
  revert hwaits halone
  cases state.pc worker <;> simp [Pc.waits] <;> omega

/-- Once the stream is over for all but the held workers, each of them leaves at its next poll exactly
when there is one of them, with nothing in its hand; and no item is ever lost on the way. -/
theorem held_leave_iff_oneHeld (h : (machine Payload maxsize busy).Reachable state) :
    state.arrived = state.taken + payloads state.queue + ∑ worker, (state.pc worker).hand ∧
      (StreamOver state →
        ((∀ worker, state.held worker → NextPollLeaves maxsize busy state worker) ↔ OneHeld state)) := by
  have hinv := inv_of_reachable h
  refine ⟨hinv.kept, fun hstream ↦ ⟨fun hleave ↦ ⟨?_, ?_⟩, fun hone worker hheld ↦ ?_⟩⟩
  · intro worker worker' hheld hheld'
    by_contra hne
    have hturning := hinv.turning_of_two hheld hheld' (Ne.symm hne)
    exact hturning.not_leaves hheld.1 hstream.running (hleave worker hheld)
  · intro worker payload hpc
    have hheld : state.held worker := by
      rcases hstream.others worker with hheld | hfinished
      · exact hheld
      · rw [hpc] at hfinished
        cases hfinished
    have hturning : Turning state worker := by
      rw [Turning, hpc]
      exact hstream.queue
    exact hturning.not_leaves hheld.1 hstream.running (hleave worker hheld)
  · obtain ⟨hlast, hpc⟩ := hinv.lastHeld hstream hheld hone
    exact hlast.nextPollLeaves hpc

def firstHeld (worker : Fin 2) : Bool := worker.val = 0

/-- The held worker polls in vain while its sibling takes two items and an `End`, and finishes. -/
def siblingFinishes (held sibling : Fin n) : List (Action n ℕ) :=
  [.arrive (.item 7), .take sibling, .move held, .move held, .move held, .move held, .arrive (.item 8), .arrive .fin,
    .upstreamDone, .take sibling, .take sibling, .finish sibling]

/-- The sibling finishes with two items, and the next poll of the held worker leaves. -/
theorem held_leave_siblingFinishes : ∃ state : State 2 ℕ,
    (machine ℕ 0 firstHeld).runFrom (State.start firstHeld) (siblingFinishes 0 1) = some state ∧
      state.taken = 0 + {7} + {8} + 0 ∧ state.held 0 ∧ NextPollLeaves 0 firstHeld state 0 := by
  have hends : ∃ state : State 2 ℕ,
      (machine ℕ 0 firstHeld).runFrom (State.start firstHeld) (siblingFinishes 0 1) = some state ∧
        state.taken = 0 + {7} + {8} + 0 ∧ state.upstreamDone = true ∧ state.queue = [] ∧ state.shouldStop = false ∧
        state.hold 0 = true ∧ state.pc 0 = .head ∧ state.pc 1 = .finished :=
    ⟨_, rfl, rfl, rfl, rfl, rfl, rfl, rfl, rfl⟩
  obtain ⟨state, hrun, htaken, hdone, hqueue, hrunning, hhold, hhead, hfinished⟩ := hends
  have hheld : state.held 0 := by
    refine ⟨hhold, ?_⟩
    rw [hhead]
    rfl
  have hsibling : ∀ worker, state.held worker → worker = 0 := by
    intro worker hworker
    rcases Fin.exists_fin_two.mp ⟨worker, rfl⟩ with rfl | rfl
    · rfl
    · have hwaits := hworker.2
      rw [hfinished] at hwaits
      cases hwaits
  have hstream : StreamOver state := by
    refine ⟨hdone, hqueue, hrunning, fun worker ↦ ?_⟩
    rcases Fin.exists_fin_two.mp ⟨worker, rfl⟩ with rfl | rfl
    · exact .inl hheld
    · exact .inr hfinished
  have hone : OneHeld state := by
    refine ⟨fun worker worker' hworker hworker' ↦ ?_, fun worker payload hpc ↦ ?_⟩
    · rw [hsibling worker hworker, hsibling worker' hworker']
    · rcases Fin.exists_fin_two.mp ⟨worker, rfl⟩ with rfl | rfl
      · rw [hhead] at hpc
        cases hpc
      · rw [hfinished] at hpc
        cases hpc
  exact ⟨state, hrun, htaken, hheld, ((held_leave_iff_oneHeld ⟨_, hrun⟩).2 hstream).mpr hone 0 hheld⟩

/-- Two held workers of a stage wait for each other's count. -/
theorem not_held_leave : ¬ ∀ (n maxsize : ℕ) (busy : Fin n → Bool) (state : State n ℕ),
    (machine ℕ maxsize busy).Reachable state → StreamOver state →
      ∀ worker, state.held worker → NextPollLeaves maxsize busy state worker := by
  intro hall
  have hends : ∃ state : State 2 ℕ,
      (machine ℕ 0 fun _ ↦ true).runFrom (State.start fun _ ↦ true) [.upstreamDone] = some state ∧
        state.upstreamDone = true ∧ state.queue = [] ∧ state.shouldStop = false ∧
        state.counter = 0 ∧ ∀ worker, state.hold worker = true ∧ state.pc worker = .head :=
    ⟨_, rfl, rfl, rfl, rfl, rfl, fun worker ↦ ⟨rfl, rfl⟩⟩
  obtain ⟨state, hrun, hdone, hqueue, hrunning, hcounter, hworkers⟩ := hends
  have hheld : ∀ worker, state.held worker := by
    intro worker
    refine ⟨(hworkers worker).1, ?_⟩
    rw [(hworkers worker).2]
    rfl
  have hleaves := hall 2 0 _ state ⟨_, hrun⟩ ⟨hdone, hqueue, hrunning, fun worker ↦ .inl (hheld worker)⟩ 0 (hheld 0)
  have hturning : Turning state 0 := by
    rw [Turning, (hworkers 0).2, hcounter]
    left
    decide
  exact hturning.not_leaves (hworkers 0).1 hrunning hleaves

end Waiting

end GpuPipe.Hold
