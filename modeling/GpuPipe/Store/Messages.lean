import Mathlib.Algebra.Group.Nat.Defs
import Mathlib.Data.Nat.Notation
import Mathlib.Logic.Function.Basic
import GpuPipe.Library.Machine

/-!
# Store references inside queue messages

How `shmqueue.py`, `queues.py` and `_push` move block references. The reducers take one
reference per array while a message is pickled, and only whoever decodes the message gives
it back. A put that ends without its message in the queue therefore has to keep the encoded
message and try it again; where a message is dropped instead, its references are lost.
`lost` is history that no branch reads.
-/

namespace GpuPipe.Messages

/-- One array of a message: a view of a store block, an array for a new block, or one that
is pickled by value. -/
inductive Part
  | view (block : ℕ)
  | fresh
  | copied
  deriving DecidableEq

/-- `InstrumentedQueue` wraps a `ShmQueue` and has no `encode`. -/
inductive Kind
  | shm
  | instrumented
  deriving DecidableEq

/-- The calls that send: `put` and `put_nowait`, also as a non-blocking `push`;
`_put_retry`; a blocking `push`; and `encode` followed by `put_encoded`. -/
inductive Call
  | put
  | putRetry
  | push
  | putEncoded
  deriving DecidableEq

/-- Where a thread stands in a call; `handles` are the references its message has taken. -/
inductive Phase
  | idle
  | loop (call : Call) (queue : ℕ) (parts : List Part)
  | encoding (call : Call) (queue : ℕ) (parts todo : List Part) (handles : List ℕ)
  | ready (call : Call) (queue : ℕ) (parts : List Part) (handles : List ℕ)
  deriving DecidableEq

def Phase.handles : Phase → List ℕ
  | .encoding _ _ _ _ handles | .ready _ _ _ handles => handles
  | _ => []

/-- Refcount words, live `Block` objects, unread messages with their queues, and threads. -/
structure State (n : ℕ) where
  rc : ℕ → ℕ
  live : ℕ → ℕ
  next : ℕ
  unread : List (ℕ × List ℕ)
  phase : Fin n → Phase
  lost : List ℕ

def State.start (n : ℕ) : State n where
  rc := fun _ ↦ 0
  live := fun _ ↦ 0
  next := 0
  unread := []
  phase := fun _ ↦ .idle
  lost := []

inductive Action (n : ℕ)
  | begin (thread : Fin n) (call : Call) (queue : ℕ) (parts : List Part)
  | tryPut (thread : Fin n)
  | reduce (thread : Fin n) (stored : Bool)
  | fail (thread : Fin n)
  | park (thread : Fin n)
  | encoded (thread : Fin n)
  | attempt (thread : Fin n) (full : Bool)
  | giveUp (thread : Fin n)
  | get (queue : ℕ)
  | drop (block : ℕ)

/-- Whether a call keeps its encoded message when the queue is full: `putter` encodes once
for a queue that can, and `put_encoded` leaves the message with its caller. -/
def Call.keeps : Call → Kind → Bool
  | .putRetry, .shm | .push, .shm | .putEncoded, _ => true
  | _, _ => false

section Steps

variable {n : ℕ} (kind : ℕ → Kind) (state : State n)

def State.goto (thread : Fin n) (phase : Phase) : State n :=
  { state with phase := Function.update state.phase thread phase }

def State.share (block : ℕ) : State n :=
  { state with rc := Function.update state.rc block ((state.rc block + 1) % 2 ^ 32) }

/-- `alloc`, `share` and the end of the local `Block`: the count goes 1, 2, 1, and no other
thread knows the block yet. -/
def State.store : State n :=
  { state with rc := Function.update state.rc state.next 1, next := state.next + 1 }

/-- One reducer call: `reduce_ndarray`, `reduce_tensor`, or pickling by value. -/
def reduce (thread : Fin n) (call : Call) (queue : ℕ) (parts rest : List Part) (handles : List ℕ)
    (stored : Bool) : Part → Option (State n)
  | .view block =>
    if 0 < state.live block then
      some ((state.share block).goto thread (.encoding call queue parts rest (handles ++ [block])))
    else none
  | .fresh =>
    if stored then some (state.store.goto thread (.encoding call queue parts rest (handles ++ [state.next])))
    else some (state.goto thread (.encoding call queue parts rest handles))
  | .copied => some (state.goto thread (.encoding call queue parts rest handles))

/-- The put found the queue full. -/
def full (thread : Fin n) (call : Call) (queue : ℕ) (parts : List Part) (handles : List ℕ) : State n :=
  if call.keeps (kind queue) then state
  else
    State.goto { state with lost := state.lost ++ handles } thread
      (match call with
        | .putRetry | .push => .loop call queue parts
        | _ => .idle)

/-- `get`: the oldest message of a queue, whose handles become live `Block` objects. -/
def get (queue : ℕ) : Option (State n) :=
  match state.unread.find? fun message ↦ message.1 == queue with
  | none => none
  | some message =>
    some { state with
      unread := state.unread.erase message
      live := fun block ↦ state.live block + message.2.count block }

def step : Action n → Option (State n)
  | .begin thread call queue parts =>
    match state.phase thread with
    | .idle =>
      match call, kind queue with
      | .putEncoded, .instrumented => none
      | .putRetry, .instrumented | .push, .instrumented => some (state.goto thread (.loop call queue parts))
      | _, _ => some (state.goto thread (.encoding call queue parts parts []))
    | _ => none
  | .tryPut thread =>
    match state.phase thread with
    | .loop call queue parts => some (state.goto thread (.encoding call queue parts parts []))
    | _ => none
  | .reduce thread stored =>
    match state.phase thread with
    | .encoding call queue parts (part :: rest) handles =>
      reduce state thread call queue parts rest handles stored part
    | _ => none
  | .fail thread =>
    match state.phase thread with
    | .encoding _ _ _ _ handles =>
      some (State.goto { state with lost := state.lost ++ handles } thread .idle)
    | _ => none
  | .park thread =>
    -- A message too big for the ring is parked in a store block of its own.
    match state.phase thread with
    | .encoding call queue parts [] handles =>
      some (state.store.goto thread (.ready call queue parts (handles ++ [state.next])))
    | _ => none
  | .encoded thread =>
    match state.phase thread with
    | .encoding call queue parts [] handles => some (state.goto thread (.ready call queue parts handles))
    | _ => none
  | .attempt thread isFull =>
    match state.phase thread with
    | .ready call queue parts handles =>
      if isFull then some (full kind state thread call queue parts handles)
      else some (State.goto { state with unread := state.unread ++ [(queue, handles)] } thread .idle)
    | _ => none
  | .giveUp thread =>
    -- A blocking push returns False at its deadline or when the pipeline stops.
    match state.phase thread with
    | .loop .push _ _ => some (state.goto thread .idle)
    | .ready .push queue _ handles =>
      if kind queue = .shm then
        some (State.goto { state with lost := state.lost ++ handles } thread .idle)
      else none
    | _ => none
  | .get queue => get state queue
  | .drop block =>
    if 0 < state.live block then
      some { state with
        rc := Function.update state.rc block ((state.rc block + (2 ^ 32 - 1)) % 2 ^ 32)
        live := Function.update state.live block (state.live block - 1) }
    else none

end Steps

/-- `n` threads, in any processes, that send and receive on queues of these kinds. -/
def machine (n : ℕ) (kind : ℕ → Kind) : Machine (State n) (Action n) where
  start := .start n
  step := step kind

end GpuPipe.Messages
