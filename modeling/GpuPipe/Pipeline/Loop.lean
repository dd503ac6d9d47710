import Mathlib.Data.Nat.Notation
import Mathlib.Logic.Function.Basic

/-!
# The threads that run a stage

One thread of `_worker_run` or `_thread_loop`, or of a stage's own `run()`, with its
`_InputChannel` buffer and `_OutputChannel` pending list. A thread moves by a local function
of what it sees of the shared objects; its outcome says what it does to them. A payload put
without a chunk is read as a `Chunk` of one is, so both are `items`.
-/

namespace GpuPipe.Pipeline

variable {Payload : Type}

/-- A message on a queue: payloads or the `End` sentinel. -/
inductive Message (Payload : Type)
  | items (payloads : List Payload)
  | fin
  deriving DecidableEq

def Message.payloads : Message Payload → List Payload
  | .items payloads => payloads
  | .fin => []

/-- What `start` passes on for a stage: process workers or one process of threads, a `run`
method, `drain`, `stage_worker_count`, `num_threads`, `out_chunk` and `batch_size`. -/
structure Stage where
  threaded : Bool
  hasRun : Bool
  drain : Bool
  workers : ℕ
  threads : ℕ
  chunk : ℕ
  batch : ℕ
  threads_pos : 0 < threads

def Stage.custom (stage : Stage) (root : Bool) : Bool := stage.hasRun && !root

/-- Threads of one process that run the loop; `run()` is invoked once. -/
def Stage.loops (stage : Stage) (root : Bool) : ℕ :=
  if stage.threaded && !stage.custom root then stage.threads else 1

theorem Stage.loops_pos (stage : Stage) (root : Bool) : 0 < stage.loops root := by
  unfold Stage.loops
  split
  · exact stage.threads_pos
  · exact Nat.one_pos

/-- Where a thread stands. `polled` remembers, for the history only, whether the upstream
event was set when the get raised `Empty`; `broke` is past the process loop, before `flush()`;
`closing` is the last flush of the output channel. -/
inductive Pc (Payload : Type)
  | head
  | polled (wasDone : Bool)
  | batching (batch : List Payload)
  | calling (batch : List Payload)
  | emitting (todo : List Payload) (last : Bool)
  | yielding
  | running (pulled : List Payload)
  | broke
  | flushing (todo : List Payload)
  | closing
  | ended
  deriving DecidableEq

/-- Results the thread has and has not sent yet. -/
def Pc.todo : Pc Payload → List Payload
  | .emitting todo _ | .flushing todo => todo
  | _ => []

def Pc.left : Pc Payload → Bool
  | .broke | .flushing _ | .closing | .ended => true
  | _ => false

/-- `maybe_flush` at the top of the loop, the flush of a `send`, and the last one. -/
def Pc.mayFlush : Pc Payload → Bool
  | .head | .emitting _ _ | .yielding | .running _ | .flushing _ | .closing => true
  | _ => false

structure Loop (Payload : Type) where
  pc : Pc Payload
  buffer : List Payload
  pending : List Payload
  empties : ℕ
  deriving DecidableEq

def Loop.start (custom : Bool) : Loop Payload where
  pc := if custom then .running [] else .head
  buffer := []
  pending := []
  empties := 0

def Loop.gone : Loop Payload where
  pc := .ended
  buffer := []
  pending := []
  empties := 0

/-- What a thread sees of the shared objects: its input queue, `upstream_done` and
`thread_stop`. -/
structure View (Payload : Type) where
  input : List (Message Payload)
  upstreamDone : Bool
  stop : Bool

/-- What a move does: whether it takes the first input message, the message it puts, the
payloads the stage has produced in it, and whether it sets `thread_stop`. -/
structure Outcome (Payload : Type) where
  loop : Loop Payload
  took : Bool := false
  sent : Option (List Payload) := none
  made : List Payload := []
  stops : Bool := false

inductive Move (Payload : Type)
  | flush
  | get
  | getRaises
  | empty
  | test
  | call
  | returns (results : List Payload) (last : Bool)
  | generates
  | yields (payload : Payload)
  | exhausts
  | raises
  | uncounted (results : List Payload)
  | drains
  | drained (payload : Payload)
  | send
  | next
  | sendRaises
  | park (results : List Payload)
  | stopped
  | flushes (results : List Payload)
  | flushRaises (results : List Payload)
  | closes
  | put (payload : Payload)
  | finish

/-- `_InputChannel.get`: the payload (none for `End`), the buffer left, and whether a message
left the queue. -/
def receive : List Payload → List (Message Payload) → Option (Option Payload × List Payload × Bool)
  | payload :: rest, _ => some (some payload, rest, false)
  | [], .fin :: _ => some (none, [], true)
  | [], .items (payload :: rest) :: _ => some (some payload, rest, true)
  | [], _ => none

/-- A receive splits what was buffered and what it takes into what it returns and what stays. -/
theorem receive_spec {buffer buffer' : List Payload} {queue : List (Message Payload)} {payload : Option Payload}
    {took : Bool} (h : receive buffer queue = some (payload, buffer', took)) :
    payload.toList ++ buffer' = buffer ++ if took then queue.head?.elim [] Message.payloads else [] := by
  unfold receive at h
  split at h <;> cases h <;> simp [Message.payloads]

section Steps

variable (stage : Stage) (root : Bool) (threshold : ℕ) (view : View Payload) (loop : Loop Payload)

/-- Where a received message leads; `End` is skipped everywhere. -/
def deliver (payload : Option Payload) : Option (Pc Payload) :=
  match loop.pc with
  | .head => some (payload.elim .head fun first ↦ .batching [first])
  | .batching batch =>
    if batch.length < stage.batch then some (.batching (batch ++ payload.toList)) else none
  | .running pulled => some (.running (pulled ++ payload.toList))
  | _ => none

def get : Option (Outcome Payload) :=
  if root then none
  else
    match receive loop.buffer view.input with
    | none => none
    | some (payload, buffer, took) =>
      (deliver stage loop payload).map fun pc ↦
        { loop := { loop with pc := pc, buffer := buffer, empties := 0 }, took := took }

/-- The end of the loop: a process worker goes on to `flush()`, a pool thread to its channel. -/
def exit : Pc Payload := if stage.threaded then .closing else .broke

/-- `_OutputChannel.send` flushes at once when the chunk is full or there are no chunks. -/
def blocked : Bool := !loop.pending.isEmpty && stage.chunk ≤ loop.pending.length

def goto (pc : Pc Payload) : Option (Outcome Payload) := some { loop := { loop with pc := pc } }

/-- The moves of a thread that has no full chunk to put. -/
def advance : Move Payload → Option (Outcome Payload)
  | .get => get stage root view loop
  | .getRaises =>
    -- An `OSError` of the queue ends the loop.
    match loop.pc, loop.buffer with
    | .head, [] => if root then none else goto loop (exit stage)
    | _, _ => none
  | .empty =>
    -- The timed get found the queue empty.
    match loop.pc, loop.buffer, view.input with
    | .head, [], [] =>
      if root then none
      else some { loop := { loop with pc := .polled view.upstreamDone, empties := loop.empties + 1 } }
    | _, _, _ => none
  | .test =>
    match loop.pc with
    | .polled _ => goto loop (if view.upstreamDone && threshold ≤ loop.empties then exit stage else .head)
    | _ => none
  | .call =>
    match loop.pc with
    | .head => if root then goto loop (.calling []) else none
    | .batching batch => goto loop (.calling batch)
    | _ => none
  | .returns results last =>
    match loop.pc with
    | .calling _ =>
      if last && !root then none
      else some { loop := { loop with pc := .emitting results last }, made := results }
    | _ => none
  | .generates =>
    match loop.pc with
    | .calling _ => goto loop .yielding
    | _ => none
  | .yields payload =>
    match loop.pc with
    | .yielding =>
      -- A thread that sees `thread_stop` drops what its generator has just yielded.
      if view.stop then
        some { loop := { loop with pc := if root then exit stage else .head }, made := [payload], stops := root }
      else some { loop := { loop with pending := loop.pending ++ [payload] }, made := [payload] }
    | _ => none
  | .exhausts =>
    match loop.pc with
    | .yielding =>
      some { loop := { loop with pc := if root then exit stage else .head }, stops := root && stage.threaded }
    | _ => none
  | .raises =>
    match loop.pc with
    | .calling _ | .yielding => goto loop .head
    | _ => none
  | .uncounted results =>
    -- `extract_audio_duration` (or the write of the stats) raises on what a call has returned, or a
    -- source's generator has yielded, before it is sent.
    match loop.pc, results with
    | .calling _, results => some { loop := { loop with pc := .head }, made := results }
    | .yielding, [payload] => if root then some { loop := { loop with pc := .head }, made := [payload] } else none
    | _, _ => none
  | .drains =>
    -- `drain_event` is set.
    match loop.pc with
    | .head => if root || !stage.drain then goto loop (exit stage) else none
    | _ => none
  | .drained payload =>
    -- A source that sees `drain_event` drops what its generator has just yielded.
    match loop.pc with
    | .yielding =>
      if root then some { loop := { loop with pc := exit stage }, made := [payload], stops := stage.threaded }
      else none
    | _ => none
  | .send =>
    match loop.pc with
    | .emitting (payload :: todo) last =>
      some { loop := { loop with pc := .emitting todo last, pending := loop.pending ++ [payload] } }
    | .flushing (payload :: todo) =>
      some { loop := { loop with pc := .flushing todo, pending := loop.pending ++ [payload] } }
    | _ => none
  | .next =>
    match loop.pc with
    | .emitting [] true => some { loop := { loop with pc := exit stage }, stops := stage.threaded }
    | .emitting [] false => goto loop .head
    | .flushing [] => goto loop .closing
    | _ => none
  | .park results =>
    -- `_maybe_park` between two items of a process worker.
    match loop.pc with
    | .head =>
      if stage.threaded then none
      else some { loop := { loop with pc := .emitting results false }, made := results }
    | _ => none
  | .stopped =>
    match loop.pc with
    | .head => if stage.threaded && view.stop then goto loop .closing else none
    | _ => none
  | .flushes results =>
    match loop.pc with
    | .broke => some { loop := { loop with pc := .flushing results }, made := results }
    | _ => none
  | .flushRaises results =>
    -- `list(worker.flush())` raises and drops what it has collected.
    match loop.pc with
    | .broke => some { loop := { loop with pc := .closing }, made := results }
    | _ => none
  | .closes =>
    match loop.pc with
    | .closing => if loop.pending.isEmpty then goto loop .ended else none
    | _ => none
  | .put payload =>
    match loop.pc with
    | .running _ => some { loop := { loop with pending := loop.pending ++ [payload] }, made := [payload] }
    | _ => none
  | .finish =>
    match loop.pc with
    | .running _ => goto loop .closing
    | _ => none
  | .flush | .sendRaises => none

/-- A payload that cannot be encoded costs its chunk and the rest of its list. -/
def sendRaises : Option (Outcome Payload) :=
  match loop.pc with
  | .emitting _ _ => some { loop := { loop with pc := .head, pending := [] } }
  | .yielding => some { loop := { loop with pc := if root then .yielding else .head, pending := [] } }
  | .flushing _ => some { loop := { loop with pc := .closing, pending := [] } }
  | _ => none

def loopStep (move : Move Payload) : Option (Outcome Payload) :=
  match move with
  | .flush =>
    if loop.pending.isEmpty || !loop.pc.mayFlush then none
    else some { loop := { loop with pending := [] }, sent := some loop.pending }
  | .sendRaises => if loop.pending.isEmpty then none else sendRaises root loop
  | move => if blocked stage loop then none else advance stage root threshold view loop move

end Steps

/-! ## What a move can do -/

variable {stage : Stage} {root : Bool} {threshold : ℕ} {view : View Payload} {loop : Loop Payload}
  {move : Move Payload} {outcome : Outcome Payload}

/-- What a move can do, one constructor for each branch of `loopStep`. -/
inductive LoopStep (stage : Stage) (root : Bool) (threshold : ℕ) (view : View Payload) (loop : Loop Payload) :
    Move Payload → Outcome Payload → Prop
  | flush (hpending : loop.pending ≠ []) (hflush : loop.pc.mayFlush = true) :
      LoopStep stage root threshold view loop .flush
        { loop := { loop with pending := [] }, sent := some loop.pending }
  | emitFails (todo : List Payload) (last : Bool) (hpc : loop.pc = .emitting todo last) :
      LoopStep stage root threshold view loop .sendRaises { loop := { loop with pc := .head, pending := [] } }
  | yieldFails (hpc : loop.pc = .yielding) :
      LoopStep stage root threshold view loop .sendRaises
        { loop := { loop with pc := if root then .yielding else .head, pending := [] } }
  | flushFails (todo : List Payload) (hpc : loop.pc = .flushing todo) :
      LoopStep stage root threshold view loop .sendRaises { loop := { loop with pc := .closing, pending := [] } }
  | get (payload : Option Payload) (buffer : List Payload) (took : Bool) (pc : Pc Payload) (hroot : root = false)
      (hreceive : receive loop.buffer view.input = some (payload, buffer, took))
      (hdeliver : deliver stage loop payload = some pc) :
      LoopStep stage root threshold view loop .get
        { loop := { loop with pc := pc, buffer := buffer, empties := 0 }, took := took }
  | getRaises (hpc : loop.pc = .head) (hbuffer : loop.buffer = []) (hroot : root = false) :
      LoopStep stage root threshold view loop .getRaises { loop := { loop with pc := exit stage } }
  | empty (hpc : loop.pc = .head) (hbuffer : loop.buffer = []) (hinput : view.input = []) (hroot : root = false) :
      LoopStep stage root threshold view loop .empty
        { loop := { loop with pc := .polled view.upstreamDone, empties := loop.empties + 1 } }
  | leaves (wasDone : Bool) (hpc : loop.pc = .polled wasDone) (hdone : view.upstreamDone = true)
      (hempties : threshold ≤ loop.empties) :
      LoopStep stage root threshold view loop .test { loop := { loop with pc := exit stage } }
  | stays (wasDone : Bool) (hpc : loop.pc = .polled wasDone) :
      LoopStep stage root threshold view loop .test { loop := { loop with pc := .head } }
  | callSource (hpc : loop.pc = .head) (hroot : root = true) :
      LoopStep stage root threshold view loop .call { loop := { loop with pc := .calling [] } }
  | call (batch : List Payload) (hpc : loop.pc = .batching batch) :
      LoopStep stage root threshold view loop .call { loop := { loop with pc := .calling batch } }
  | returns (batch results : List Payload) (last : Bool) (hpc : loop.pc = .calling batch)
      (hlast : last = true → root = true) :
      LoopStep stage root threshold view loop (.returns results last)
        { loop := { loop with pc := .emitting results last }, made := results }
  | generates (batch : List Payload) (hpc : loop.pc = .calling batch) :
      LoopStep stage root threshold view loop .generates { loop := { loop with pc := .yielding } }
  | drops (payload : Payload) (hpc : loop.pc = .yielding) (hstop : view.stop = true) :
      LoopStep stage root threshold view loop (.yields payload)
        { loop := { loop with pc := if root then exit stage else .head }, made := [payload], stops := root }
  | yields (payload : Payload) (hpc : loop.pc = .yielding) (hstop : view.stop = false) :
      LoopStep stage root threshold view loop (.yields payload)
        { loop := { loop with pending := loop.pending ++ [payload] }, made := [payload] }
  | exhausts (hpc : loop.pc = .yielding) :
      LoopStep stage root threshold view loop .exhausts
        { loop := { loop with pc := if root then exit stage else .head }, stops := root && stage.threaded }
  | callRaises (batch : List Payload) (hpc : loop.pc = .calling batch) :
      LoopStep stage root threshold view loop .raises { loop := { loop with pc := .head } }
  | yieldRaises (hpc : loop.pc = .yielding) :
      LoopStep stage root threshold view loop .raises { loop := { loop with pc := .head } }
  | returnsUncounted (batch results : List Payload) (hpc : loop.pc = .calling batch) :
      LoopStep stage root threshold view loop (.uncounted results)
        { loop := { loop with pc := .head }, made := results }
  | yieldsUncounted (payload : Payload) (hpc : loop.pc = .yielding) (hroot : root = true) :
      LoopStep stage root threshold view loop (.uncounted [payload])
        { loop := { loop with pc := .head }, made := [payload] }
  | drains (hpc : loop.pc = .head) (hdrain : root = true ∨ stage.drain = false) :
      LoopStep stage root threshold view loop .drains { loop := { loop with pc := exit stage } }
  | drained (payload : Payload) (hpc : loop.pc = .yielding) (hroot : root = true) :
      LoopStep stage root threshold view loop (.drained payload)
        { loop := { loop with pc := exit stage }, made := [payload], stops := stage.threaded }
  | send (payload : Payload) (todo : List Payload) (last : Bool) (hpc : loop.pc = .emitting (payload :: todo) last) :
      LoopStep stage root threshold view loop .send
        { loop := { loop with pc := .emitting todo last, pending := loop.pending ++ [payload] } }
  | sendFlushed (payload : Payload) (todo : List Payload) (hpc : loop.pc = .flushing (payload :: todo)) :
      LoopStep stage root threshold view loop .send
        { loop := { loop with pc := .flushing todo, pending := loop.pending ++ [payload] } }
  | nextLast (hpc : loop.pc = .emitting [] true) :
      LoopStep stage root threshold view loop .next
        { loop := { loop with pc := exit stage }, stops := stage.threaded }
  | next (hpc : loop.pc = .emitting [] false) :
      LoopStep stage root threshold view loop .next { loop := { loop with pc := .head } }
  | nextFlushed (hpc : loop.pc = .flushing []) :
      LoopStep stage root threshold view loop .next { loop := { loop with pc := .closing } }
  | park (results : List Payload) (hpc : loop.pc = .head) (hpool : stage.threaded = false) :
      LoopStep stage root threshold view loop (.park results)
        { loop := { loop with pc := .emitting results false }, made := results }
  | stopped (hpc : loop.pc = .head) (hpool : stage.threaded = true) (hstop : view.stop = true) :
      LoopStep stage root threshold view loop .stopped { loop := { loop with pc := .closing } }
  | flushes (results : List Payload) (hpc : loop.pc = .broke) :
      LoopStep stage root threshold view loop (.flushes results)
        { loop := { loop with pc := .flushing results }, made := results }
  | flushRaises (results : List Payload) (hpc : loop.pc = .broke) :
      LoopStep stage root threshold view loop (.flushRaises results)
        { loop := { loop with pc := .closing }, made := results }
  | closes (hpc : loop.pc = .closing) (hpending : loop.pending = []) :
      LoopStep stage root threshold view loop .closes { loop := { loop with pc := .ended } }
  | put (payload : Payload) (pulled : List Payload) (hpc : loop.pc = .running pulled) :
      LoopStep stage root threshold view loop (.put payload)
        { loop := { loop with pending := loop.pending ++ [payload] }, made := [payload] }
  | finish (pulled : List Payload) (hpc : loop.pc = .running pulled) :
      LoopStep stage root threshold view loop .finish { loop := { loop with pc := .closing } }

theorem sendRaises_cases (h : sendRaises root loop = some outcome) :
    LoopStep stage root threshold view loop .sendRaises outcome := by
  unfold sendRaises at h
  split at h <;> cases h
  · exact .emitFails _ _ ‹_›
  · exact .yieldFails ‹_›
  · exact .flushFails _ ‹_›

theorem get_cases (h : get stage root view loop = some outcome) :
    LoopStep stage root threshold view loop .get outcome := by
  unfold get at h
  split at h
  · cases h
  · rename_i hroot
    split at h
    · cases h
    · rename_i payload buffer took hreceive
      rw [Option.map_eq_some_iff] at h
      obtain ⟨pc, hdeliver, rfl⟩ := h
      exact .get payload buffer took pc (by simpa using hroot) hreceive hdeliver

theorem advance_cases (h : advance stage root threshold view loop move = some outcome) :
    LoopStep stage root threshold view loop move outcome := by
  cases move <;> simp only [advance, goto] at h
  case get => exact get_cases h
  case getRaises =>
    split at h
    · split at h <;> cases h
      exact .getRaises ‹_› ‹_› (by simpa using ‹¬ root = true›)
    · cases h
  case empty =>
    split at h
    · split at h <;> cases h
      exact .empty ‹_› ‹_› ‹_› (by simpa using ‹¬ root = true›)
    · cases h
  case test =>
    split at h <;> cases h
    split
    · rename_i hpc htest
      rw [Bool.and_eq_true, decide_eq_true_eq] at htest
      exact .leaves _ hpc htest.1 htest.2
    · exact .stays _ ‹_›
  case call =>
    split at h
    · split at h <;> cases h
      exact .callSource ‹_› ‹_›
    · cases h
      exact .call _ ‹_›
    · cases h
  case returns results last =>
    split at h
    · rename_i batch hpc
      split at h <;> cases h
      rename_i hlast
      refine .returns batch results last hpc fun his ↦ ?_
      simpa [his] using hlast
    · cases h
  case generates =>
    split at h <;> cases h
    exact .generates _ ‹_›
  case yields payload =>
    split at h
    · split at h <;> cases h
      · exact .drops payload ‹_› ‹_›
      · exact .yields payload ‹_› (by simpa using ‹¬ view.stop = true›)
    · cases h
  case exhausts =>
    split at h <;> cases h
    exact .exhausts ‹_›
  case raises =>
    split at h <;> cases h
    · exact .callRaises _ ‹_›
    · exact .yieldRaises ‹_›
  case uncounted results =>
    split at h
    · cases h
      exact .returnsUncounted _ _ ‹_›
    · split at h <;> cases h
      exact .yieldsUncounted _ ‹_› ‹_›
    · cases h
  case drains =>
    split at h
    · split at h <;> cases h
      rename_i hdrain
      exact .drains ‹_› (by simpa using hdrain)
    · cases h
  case drained payload =>
    split at h
    · split at h <;> cases h
      exact .drained payload ‹_› ‹_›
    · cases h
  case send =>
    split at h <;> cases h
    · exact .send _ _ _ ‹_›
    · exact .sendFlushed _ _ ‹_›
  case next =>
    split at h <;> cases h
    · exact .nextLast ‹_›
    · exact .next ‹_›
    · exact .nextFlushed ‹_›
  case park results =>
    split at h
    · split at h <;> cases h
      exact .park results ‹_› (by simpa using ‹¬ stage.threaded = true›)
    · cases h
  case stopped =>
    split at h
    · split at h <;> cases h
      rename_i hstop
      rw [Bool.and_eq_true] at hstop
      exact .stopped ‹_› hstop.1 hstop.2
    · cases h
  case flushes results =>
    split at h <;> cases h
    exact .flushes results ‹_›
  case flushRaises results =>
    split at h <;> cases h
    exact .flushRaises results ‹_›
  case closes =>
    split at h
    · split at h <;> cases h
      exact .closes ‹_› (by simpa using ‹loop.pending.isEmpty = true›)
    · cases h
  case put payload =>
    split at h <;> cases h
    exact .put payload _ ‹_›
  case finish =>
    split at h <;> cases h
    exact .finish _ ‹_›
  case flush | sendRaises => cases h

/-- Every move has one of the branches of `LoopStep`. -/
theorem loopStep_cases (h : loopStep stage root threshold view loop move = some outcome) :
    LoopStep stage root threshold view loop move outcome := by
  unfold loopStep at h
  split at h
  · split at h
    · cases h
    · rename_i hflush
      simp only [Bool.or_eq_true, List.isEmpty_iff, Bool.not_eq_eq_eq_not, Bool.not_true, not_or,
        Bool.not_eq_false] at hflush
      cases h
      exact .flush hflush.1 hflush.2
  · split at h
    · cases h
    · exact sendRaises_cases h
  · split at h
    · cases h
    · exact advance_cases h

/-- A received message starts an item, fills a batch, or is skipped. -/
theorem deliver_cases {payload : Option Payload} {pc : Pc Payload} (h : deliver stage loop payload = some pc) :
    (loop.pc = .head ∧ (pc = .head ∨ ∃ batch, pc = .batching batch)) ∨
    (∃ batch batch', loop.pc = .batching batch ∧ pc = .batching batch') ∨
    ∃ pulled pulled', loop.pc = .running pulled ∧ pc = .running pulled' := by
  unfold deliver at h
  split at h
  · rename_i hpc
    cases payload with
    | none =>
      cases h
      exact .inl ⟨hpc, .inl rfl⟩
    | some first =>
      cases h
      exact .inl ⟨hpc, .inr ⟨[first], rfl⟩⟩
  · rename_i batch hpc
    split at h <;> cases h
    exact .inr (.inl ⟨batch, _, hpc, rfl⟩)
  · rename_i pulled hpc
    cases h
    exact .inr (.inr ⟨pulled, _, hpc, rfl⟩)
  · cases h

/-- An ended thread makes no move. -/
theorem loopStep_of_ended (hpc : loop.pc = .ended) : loopStep stage root threshold view loop move = none := by
  rw [← Option.not_isSome_iff_eq_none, Option.isSome_iff_exists]
  rintro ⟨outcome, h⟩
  cases loopStep_cases h with
  | flush _ hflush => simp [hpc, Pc.mayFlush] at hflush
  | get payload buffer took pc _ _ hdeliver => simp [deliver, hpc] at hdeliver
  | _ => simp_all

/-- Only a source has last results, and a thread ends with nothing pending. -/
structure Loop.Sound (root : Bool) (loop : Loop Payload) : Prop where
  last : ∀ todo, loop.pc = .emitting todo true → root = true
  ended : loop.pc = .ended → loop.pending = []

theorem sound_start (custom : Bool) : (Loop.start custom : Loop Payload).Sound root := by
  constructor <;> cases custom <;> simp [Loop.start]

theorem sound_gone : (Loop.gone : Loop Payload).Sound root := by
  constructor <;> simp [Loop.gone]

/-- A thread that ends has flushed its channel, move by move. -/
theorem Loop.Sound.step (h : loop.Sound root)
    (hstep : loopStep stage root threshold view loop move = some outcome) : outcome.loop.Sound root := by
  obtain ⟨hlast, hended⟩ := h
  cases loopStep_cases hstep with
  | flush => exact ⟨hlast, fun _ ↦ rfl⟩
  | get payload buffer took pc hroot hreceive hdeliver =>
    rcases deliver_cases hdeliver with ⟨-, rfl | ⟨batch, rfl⟩⟩ | ⟨-, batch, -, rfl⟩ | ⟨-, pulled, -, rfl⟩ <;>
      exact ⟨nofun, nofun⟩
  | returns batch results last hpc hsource =>
    refine ⟨fun todo hout ↦ ?_, nofun⟩
    cases hout
    exact hsource rfl
  | send payload todo last hpc =>
    refine ⟨fun todo' hout ↦ ?_, nofun⟩
    cases hout
    exact hlast _ hpc
  | closes hpc hpending => exact ⟨nofun, fun _ ↦ hpending⟩
  | _ => constructor <;> grind [exit]

/-- A source holds no input, and no thread does once it has polled or left its loop. -/
structure Loop.Quiet (root : Bool) (loop : Loop Payload) : Prop where
  source : root = true → loop.buffer = []
  left : loop.pc.left = true → loop.buffer = []
  polled : ∀ wasDone, loop.pc = .polled wasDone → loop.buffer = []

/-- With nothing buffered every place is quiet. -/
theorem Loop.Quiet.of_empty (h : loop.buffer = []) : loop.Quiet root := ⟨fun _ ↦ h, fun _ ↦ h, fun _ _ ↦ h⟩

/-- Moves keep a thread quiet if only a source sees `thread_stop` and a `run()`, or a loop that ends as the
pipe drains, ends with an empty buffer. -/
theorem Loop.Quiet.step (h : loop.Quiet root) (hsound : loop.Sound root)
    (hstop : view.stop = true → root = true) (hdry : move = .finish ∨ move = .drains → loop.buffer = [])
    (hstep : loopStep stage root threshold view loop move = some outcome) :
    outcome.loop.Quiet root := by
  have ⟨hsource, hleft, hpolled⟩ := h
  cases loopStep_cases hstep with
  | flush | yields | put => exact ⟨hsource, hleft, hpolled⟩
  | get payload buffer took pc hroot hreceive hdeliver =>
    refine ⟨fun hcontra ↦ by simp [hroot] at hcontra, ?_, ?_⟩ <;>
      rcases deliver_cases hdeliver with ⟨-, rfl | ⟨batch, rfl⟩⟩ | ⟨-, batch, -, rfl⟩ | ⟨-, pulled, -, rfl⟩ <;>
      exact nofun
  | getRaises hpc hbuffer | empty hpc hbuffer => exact .of_empty hbuffer
  | leaves wasDone hpc => exact .of_empty (hpolled wasDone hpc)
  | stopped hpc hpool hsees => exact .of_empty (hsource (hstop hsees))
  | finish pulled hpc => exact .of_empty (hdry (.inl rfl))
  | drains hpc => exact .of_empty (hdry (.inr rfl))
  | drained payload hpc hroot => exact .of_empty (hsource hroot)
  | nextLast hpc => exact .of_empty (hsource (hsound.last [] hpc))
  | yieldFails hpc | drops payload hpc | exhausts hpc =>
    -- a source has nothing buffered, and the others go on
    cases root with
    | true => exact .of_empty (hsource rfl)
    | false => exact ⟨hsource, nofun, nofun⟩
  | flushFails todo hpc | sendFlushed payload todo hpc | nextFlushed hpc | flushes results hpc
    | flushRaises results hpc | closes hpc =>
    exact .of_empty (hleft (by rw [hpc]; rfl))
  | _ => exact ⟨hsource, nofun, nofun⟩

/-- Only a source sets `thread_stop`. -/
theorem root_of_stops (h : loop.Sound root)
    (hstep : loopStep stage root threshold view loop move = some outcome)
    (hstops : outcome.stops = true) : root = true := by
  cases loopStep_cases hstep with
  | drops => exact hstops
  | exhausts => exact (Bool.and_eq_true_iff.mp hstops).1
  | drained payload hpc hroot => exact hroot
  | nextLast hpc => exact h.last [] hpc
  | _ => cases hstops

/-- A source takes no input. -/
theorem root_of_took (hstep : loopStep stage root threshold view loop move = some outcome)
    (htook : outcome.took = true) : root = false := by
  cases loopStep_cases hstep with
  | get payload buffer took pc hroot => exact hroot
  | _ => cases htook

/-- A thread puts no empty chunk. -/
theorem sent_ne_nil (hstep : loopStep stage root threshold view loop move = some outcome) :
    outcome.sent ≠ some [] := by
  cases loopStep_cases hstep with
  | flush hpending => simpa using hpending
  | _ => exact nofun

/-- The moves that drop nothing of what the stage produces, where `stop` is `thread_stop`. -/
def Move.keeps (stop : Bool) : Move Payload → Bool
  | .sendRaises | .drained _ => false
  | .yields _ => !stop
  | .uncounted results | .flushRaises results => results.isEmpty
  | _ => true

/-- What a thread has produced is what it has put, then its pending payloads, then the results
it has yet to send, unless the move drops some. -/
theorem output_step (hkeeps : move.keeps view.stop = true)
    (hstep : loopStep stage root threshold view loop move = some outcome) :
    outcome.sent.getD [] ++ (outcome.loop.pending ++ outcome.loop.pc.todo) =
      loop.pending ++ loop.pc.todo ++ outcome.made := by
  cases loopStep_cases hstep with
  | flush => simp
  | emitFails | yieldFails | flushFails | drained | yieldsUncounted => cases hkeeps
  | drops payload hpc hstop =>
    rw [Move.keeps, hstop] at hkeeps
    cases hkeeps
  | returnsUncounted batch results hpc =>
    rw [List.isEmpty_iff.mp hkeeps]
    simp [hpc, Pc.todo]
  | flushRaises results hpc =>
    rw [List.isEmpty_iff.mp hkeeps]
    simp [hpc, Pc.todo]
  | get payload buffer took pc hroot hreceive hdeliver =>
    have hpcs := deliver_cases hdeliver
    grind [Pc.todo]
  | send payload todo last hpc | sendFlushed payload todo hpc => simp [hpc, Pc.todo]
  | _ => grind [exit, Pc.todo]

/-- A thread that is not a source leaves the call loop by the test of the upstream event. -/
theorem test_of_left (hmove : move ≠ .getRaises) (hfinish : move ≠ .finish) (hdrains : move ≠ .drains)
    (hstop : view.stop = true → root = true) (hroot : root = false) (hsound : loop.Sound root)
    (hstep : loopStep stage root threshold view loop move = some outcome)
    (hbefore : loop.pc.left = false) (hleft : outcome.loop.pc.left = true) :
    move = .test ∧ ∃ wasDone, loop.pc = .polled wasDone ∧ view.upstreamDone = true ∧
      threshold ≤ loop.empties := by
  subst hroot
  cases loopStep_cases hstep with
  | leaves wasDone hpc hdone hempties => exact ⟨rfl, wasDone, hpc, hdone, hempties⟩
  | getRaises => exact absurd rfl hmove
  | finish => exact absurd rfl hfinish
  | drains => exact absurd rfl hdrains
  | drained payload hpc hsource => cases hsource
  | nextLast hpc => cases hsound.last [] hpc
  | stopped hpc hpool hsees => cases hstop hsees
  | get payload buffer took pc hroot hreceive hdeliver =>
    rcases deliver_cases hdeliver with ⟨-, rfl | ⟨batch, rfl⟩⟩ | ⟨-, batch, -, rfl⟩ | ⟨-, pulled, -, rfl⟩ <;>
      cases hleft
  | flush | yields | put => simp [hbefore] at hleft
  | flushFails todo hpc | sendFlushed payload todo hpc | nextFlushed hpc | flushes results hpc | flushRaises results hpc
    | closes hpc =>
    simp [hpc, Pc.left] at hbefore
  | _ => cases hleft

/-- A thread that has polled found the queue empty, and noted the event as it was. -/
theorem empty_of_polled {wasDone : Bool}
    (hstep : loopStep stage root threshold view loop move = some outcome)
    (hpolled : outcome.loop.pc = .polled wasDone) :
    view.input = [] ∧ wasDone = view.upstreamDone := by
  cases loopStep_cases hstep with
  | empty hpc hbuffer hinput =>
    cases hpolled
    exact ⟨hinput, rfl⟩
  | flush hpending hflush =>
    have hpc : loop.pc = .polled wasDone := hpolled
    simp [hpc, Pc.mayFlush] at hflush
  | get payload buffer took pc hroot hreceive hdeliver =>
    rcases deliver_cases hdeliver with ⟨-, rfl | ⟨batch, rfl⟩⟩ | ⟨-, batch, -, rfl⟩ | ⟨-, pulled, -, rfl⟩ <;>
      cases hpolled
  | _ => grind [exit]

/-- A call loop never becomes a `run()`. -/
theorem called_step (hstep : loopStep stage root threshold view loop move = some outcome)
    (hcalled : ∀ pulled, loop.pc ≠ .running pulled) : ∀ pulled, outcome.loop.pc ≠ .running pulled := by
  cases loopStep_cases hstep with
  | flush | yields | put => exact hcalled
  | get payload buffer took pc hroot hreceive hdeliver =>
    rcases deliver_cases hdeliver with ⟨-, rfl | ⟨batch, rfl⟩⟩ | ⟨-, batch, -, rfl⟩ | ⟨pulled, -, hpc, -⟩
    · exact nofun
    · exact nofun
    · exact nofun
    · exact absurd hpc (hcalled pulled)
  | _ => grind [exit]

end GpuPipe.Pipeline
