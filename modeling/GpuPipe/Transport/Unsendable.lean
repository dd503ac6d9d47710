import GpuPipe.Transport.Channel

/-!
# Items that cannot be sent

A root stage whose call returns a generator: `_worker_run`, or each thread of `_threaded_worker_run`, calls
the stage, `_drain_source_generator` sends what it yields through the output channel, and a call whose
generator raised is made again. Encoding a message raises as soon as one of its payloads cannot be encoded.
Inside the drain that is caught; the flushes at the top of the loop and at its exit are not inside it. There
the exception ends a process, which the monitor then starts anew, and it ends a thread, whose future keeps it.
-/

namespace GpuPipe.Unsendable

open GpuPipe.Channel

/-- Who calls the stage: a process, or a thread of a threaded worker. -/
inductive Loop
  | process
  | thread
  deriving DecidableEq

/-- What a generator yields: `None`, `End` or an item. -/
inductive Yielded (Payload : Type*)
  | none
  | fin
  | item (payload : Payload)

/-- One turn of the drain's loop: what `stop()` answers and how `send` reads the clock. -/
structure Turn (Payload : Type*) where
  yielded : Yielded Payload
  stopping : Bool
  now : ℚ
  later : ℚ

/-- One call of the stage: the clock at the top of the worker's loop, what its generator yields, and
whether it then raises. -/
structure Call (Payload : Type*) where
  now : ℚ
  turns : List (Turn Payload)
  raises : Bool

/-- The output channel and the messages that reached the queue. -/
structure Edge (Payload : Type*) where
  channel : OutputChannel Payload
  delivered : List (Message Payload)

variable {Payload : Type*}

section Run

variable (chunkSize : ℕ) (chunkS : ℚ) (sendable : Payload → Bool)

/-- The put of what a channel call made, and whether it went without raising: `encode` comes first, and
by then the channel has let go of what was pending. -/
def Edge.put (edge : Edge Payload) (made : OutputChannel Payload × Option (Message Payload)) :
    Edge Payload × Bool :=
  match made.2 with
  | none => (⟨made.1, edge.delivered⟩, true)
  | some message =>
    if message.items.all sendable then (⟨made.1, edge.delivered ++ [message]⟩, true)
    else (⟨made.1, edge.delivered⟩, false)

/-- `_drain_source_generator` with `raise_errors` off: `(raised, sent)` and the edge. -/
def drainSourceGenerator (raises : Bool) :
    List (Turn Payload) → Edge Payload → ℕ → (Bool × ℕ) × Edge Payload
  | [], edge, sent => ((raises, sent), edge)
  | turn :: rest, edge, sent =>
    if turn.stopping then ((false, sent), edge)
    else
      match turn.yielded with
      | .none | .fin => drainSourceGenerator raises rest edge sent
      | .item payload =>
        -- a failed send is reported, and the loop goes on
        let edge' := (edge.put sendable
          (edge.channel.send chunkSize chunkS payload turn.now turn.later)).1
        drainSourceGenerator raises rest edge' (sent + 1)

/-- The flush before a worker counts itself out, and whether it raised. -/
def exitFlush (edge : Edge Payload) : Edge Payload × Bool :=
  let (edge', fine) := edge.put sendable edge.channel.flush
  (edge', !fine)

/-- `_worker_run` from one call of the stage to the next, and whether it died of an exception. No further
call is made once the worker is stopped. -/
def workerRun : List (Call Payload) → Edge Payload → Edge Payload × Bool
  | [], edge => exitFlush sendable edge
  | call :: rest, edge =>
    match edge.put sendable (edge.channel.maybeFlush chunkS call.now) with
    | (edge', false) => (edge', true)
    | (edge', true) =>
      match drainSourceGenerator chunkSize chunkS sendable call.raises call.turns edge' 0 with
      | ((true, _), drained) => workerRun rest drained
      | ((false, _), drained) => exitFlush sendable drained

/-- `_thread_loop`, which a flush at its top may end by an exception. -/
def threadLoop : List (Call Payload) → Edge Payload → Edge Payload
  | [], edge => edge
  | call :: rest, edge =>
    match edge.put sendable (edge.channel.maybeFlush chunkS call.now) with
    | (edge', false) => edge'
    | (edge', true) =>
      match drainSourceGenerator chunkSize chunkS sendable call.raises call.turns edge' 0 with
      | ((true, _), drained) => threadLoop rest drained
      | ((false, _), drained) => drained

/-- `thread_fn`: the flush is in a `finally`, and what it or the loop raises stays in the future. -/
def threadFn (calls : List (Call Payload)) (edge : Edge Payload) : Edge Payload :=
  (exitFlush sendable (threadLoop chunkSize chunkS sendable calls edge)).1

/-- The edge after a run of the root, and whether its process died. -/
def runRoot (loop : Loop) (calls : List (Call Payload)) (edge : Edge Payload) : Edge Payload × Bool :=
  match loop with
  | .process => workerRun chunkSize chunkS sendable calls edge
  | .thread => (threadFn chunkSize chunkS sendable calls edge, false)

end Run

/-- The items of a call that are not `None` or `End`, up to a stop. -/
def Call.payloads (call : Call Payload) : List Payload :=
  (call.turns.takeWhile fun turn ↦ !turn.stopping).flatMap fun turn ↦
    match turn.yielded with
    | .none | .fin => []
    | .item payload => [payload]

def Call.again (call : Call Payload) : Bool :=
  call.raises && call.turns.all fun turn ↦ !turn.stopping

/-- The items of the calls up to the one whose generator does not raise. -/
def wanted : List (Call Payload) → List Payload
  | [] => []
  | call :: rest => call.payloads ++ if call.again then wanted rest else []

/-- An item that cannot be sent costs only itself: the process does not die of it, and all others arrive,
once and in order. -/
def CostsOnlyItself (loop : Loop) (chunkSize : ℕ) (chunkS : ℚ) (sendable : Payload → Bool)
    (calls : List (Call Payload)) : Prop :=
  (runRoot chunkSize chunkS sendable loop calls ⟨⟨[], 0⟩, []⟩).2 = false ∧
    (runRoot chunkSize chunkS sendable loop calls ⟨⟨[], 0⟩, []⟩).1.delivered.flatMap Message.items =
      (wanted calls).filter sendable

/-- The payloads that the channel puts into one message, and whether its put is inside the drain. -/
structure Group (Payload : Type*) where
  caught : Bool
  items : List Payload

section Groups

variable (chunkSize : ℕ) (chunkS : ℚ)

end Groups

section Delivery

variable {chunkSize : ℕ} {chunkS : ℚ}

end Delivery

section Delivery

variable {chunkSize : ℕ} {chunkS : ℚ} (sendable : Payload → Bool)

/-- What the puts of these groups deliver, and whether one of them ends the worker. -/
def deliver (sendable : Payload → Bool) : List (Group Payload) → List Payload × Bool
  | [] => ([], false)
  | group :: rest =>
    if group.items.all sendable then (group.items ++ (deliver sendable rest).1, (deliver sendable rest).2)
    else if group.caught then deliver sendable rest
    else ([], true)

end Delivery

section Items

variable {chunkSize : ℕ} {chunkS : ℚ}

end Items

end GpuPipe.Unsendable
