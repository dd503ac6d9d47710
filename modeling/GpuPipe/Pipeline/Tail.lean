import GpuPipe.Transport.Channel

/-!
# What `flush()` gives at the end of a stream

Both run loops call the worker's `flush()` once their loop is over. A process worker collects what it
yields and sends it through its output channel, which retries every put that finds the queue full. A
threaded worker puts each item as it is yielded and waits a second at most. What a put raises otherwise (its
message cannot be encoded) leaves the loop over the items; raised by the channel's last flush, it ends the
process. Then the worker is counted as finished, and the last one of the stage puts its `End`s.
-/

namespace GpuPipe.Tail

open Channel (Message OutputChannel handItems Made)

/-- A worker at the end of its loop. `yields` and `raises` are what its `flush()` does; an element is
`none` for a yielded `None`. The channel may still hold output of the loop. -/
structure Worker (Item : Type*) where
  threaded : Bool
  chunkSize : ℕ
  chunkS : ℚ
  channel : OutputChannel (Option Item)
  short : channel.pending = [] ∨ channel.pending.length < chunkSize
  yields : List (Option Item)
  raises : Bool

inductive Phase (Item : Type*)
  /-- `list(worker.flush())` -/
  | collecting
  | flushing (todo : List (Option Item))
  /-- past the last put of `flush()`, up to the last put of the channel -/
  | closing
  /-- in `_finish_worker` -/
  | ended
  /-- out of `_worker_run` by an exception -/
  | died

/-- A try of a put: placed, `Full` after its timeout, or an exception. -/
inductive Outcome
  | placed
  | full
  | raised

/-- `hand` is the message a blocking put is trying to place, `put` what has been placed. -/
structure State (Item : Type*) where
  phase : Phase Item
  channel : OutputChannel (Option Item)
  hand : Option (Message (Option Item))
  put : List (Message (Option Item))

inductive Action
  | collect
  | emit (now later : ℚ)
  | attempt (outcome : Outcome)
  | close
  | finish

section Steps

variable {Item : Type*} (worker : Worker Item) (state : State Item)

/-- The tail of `_worker_run`. -/
def stepProcess : Action → Option (State Item)
  | .collect =>
    match state.phase with
    | .collecting => some { state with phase := .flushing (if worker.raises then [] else worker.yields) }
    | _ => none
  | .emit now later =>
    match state.phase, state.hand with
    | .flushing (none :: todo), none => some { state with phase := .flushing todo }
    | .flushing (some item :: todo), none =>
      let sent := state.channel.send worker.chunkSize worker.chunkS (some item) now later
      some { state with phase := .flushing todo, channel := sent.1, hand := sent.2 }
    | _, _ => none
  | .attempt outcome =>
    match state.hand, outcome with
    | some message, .placed => some { state with hand := none, put := state.put ++ [message] }
    -- `_put_retry` tries again
    | some _, .full => some state
    | some _, .raised =>
      match state.phase with
      | .flushing _ => some { state with phase := .flushing [], hand := none }
      | .closing => some { state with phase := .died, hand := none }
      | _ => none
    | none, _ => none
  | .close =>
    match state.phase, state.hand with
    | .flushing [], none =>
      let flushed := state.channel.flush
      some { state with phase := .closing, channel := flushed.1, hand := flushed.2 }
    | _, _ => none
  | .finish =>
    match state.phase, state.hand with
    | .closing, none => some { state with phase := .ended }
    | _, _ => none

/-- The tail of `_threaded_worker_run`. -/
def stepThreaded : Action → Option (State Item)
  | .attempt outcome =>
    match state.phase, outcome with
    | .flushing (item :: todo), .placed =>
      some { state with phase := .flushing todo, put := state.put ++ [.bare item] }
    -- `Full` leaves the loop as any other exception does
    | .flushing (_ :: _), _ => some { state with phase := .closing }
    | _, _ => none
  | .close =>
    match state.phase with
    | .flushing [] => some { state with phase := .closing }
    | _ => none
  | .finish =>
    match state.phase with
    | .closing => some { state with phase := .ended }
    | _ => none
  | _ => none

def machine : Machine (State Item) Action where
  start :=
    { phase := if worker.threaded then .flushing worker.yields else .collecting
      channel := worker.channel
      hand := none
      put := [] }
  step state action := if worker.threaded then stepThreaded state action else stepProcess worker state action

end Steps

section Owed

variable {Item : Type*} {worker : Worker Item} {state next : State Item} {action : Action}

/-- What `is not None` keeps. -/
def given (items : List (Option Item)) : List (Option Item) := items.filter Option.isSome

def State.delivered (state : State Item) : List (Option Item) := state.put.flatMap Message.items

/-- What the end of the stream should put: the rest of the loop's output, which threads flush on their
own, and every item that is not `None`. -/
def Worker.expected (worker : Worker Item) : List (Option Item) :=
  (if worker.threaded then [] else worker.channel.pending) ++ given worker.yields

/-- The step neither drops an item nor puts a `None`: the `flush()` of a process worker does not raise after
it has yielded an item, and none of its puts raises; a put of a threaded worker is of an item and finds room,
or there is no item left. -/
def keeps (worker : Worker Item) (state : State Item) : Action → Bool
  | .collect => !worker.raises || (given worker.yields).isEmpty
  | .attempt outcome =>
    match worker.threaded, outcome, state.phase with
    | true, .placed, .flushing (item :: _) => item.isSome
    | true, _, .flushing todo => (given todo).isEmpty
    | false, .raised, _ => false
    | _, _, _ => true
  | _ => true

/-- What has been or is still to be put. -/
def owed (worker : Worker Item) (state : State Item) : List (Option Item) :=
  state.delivered ++
    (if worker.threaded then [] else handItems state.hand ++ state.channel.pending) ++
    match state.phase with
    | .collecting => given worker.yields
    | .flushing todo => given todo
    | _ => []

@[simp] theorem given_nil : given ([] : List (Option Item)) = [] := rfl

@[simp] theorem given_none (items : List (Option Item)) : given (none :: items) = given items := rfl

@[simp] theorem given_some (item : Item) (items : List (Option Item)) :
    given (some item :: items) = some item :: given items := rfl

theorem given_append (first second : List (Option Item)) :
    given (first ++ second) = given first ++ given second := List.filter_append ..

/-- A prefix is what is given of the whole exactly when it skips no item and has no `None`. -/
theorem eq_given_append_iff (first second : List (Option Item)) :
    first = given (first ++ second) ↔ first = given first ∧ given second = [] := by
  rw [given_append]
  constructor
  · intro heq
    have hlength := congrArg List.length heq
    have hle : (given first).length ≤ first.length := List.length_filter_le _ _
    rw [List.length_append] at hlength
    -- every element of the left side passes the filter
    have hfirst : given first = first := by
      apply List.filter_eq_self.mpr
      intro item hitem
      rw [heq] at hitem
      rcases List.mem_append.mp hitem with hmem | hmem <;> exact (List.mem_filter.mp hmem).2
    refine ⟨hfirst.symm, ?_⟩
    rw [hfirst] at hlength
    exact List.eq_nil_of_length_eq_zero (by omega)
  · rintro ⟨hfirst, hsecond⟩
    rw [hsecond, List.append_nil]
    exact hfirst

end Owed

section Process

variable {Item : Type*} {worker : Worker Item} {state next : State Item} {action : Action}

/-- The channel of a process worker between two steps. -/
structure ProcessOk (worker : Worker Item) (state : State Item) : Prop where
  short : state.channel.pending = [] ∨ state.channel.pending.length < worker.chunkSize
  collecting : state.phase = .collecting → owed worker state = worker.expected
  bounded : (owed worker state).length ≤ worker.expected.length
  held : ∀ message, state.hand = some message → message.items ≠ []
  closing : state.phase = .closing → state.channel.pending = []
  ended : state.phase = .ended ∨ state.phase = .died → state.hand = none ∧ state.channel.pending = []

/-- The step changes neither what is owed nor the invariant. -/
structure Settled (worker : Worker Item) (state next : State Item) : Prop where
  ok : ProcessOk worker next
  owed : owed worker next = owed worker state

theorem ProcessOk.settled (h : ProcessOk worker state) (howed : owed worker next = owed worker state)
    (hshort : next.channel.pending = [] ∨ next.channel.pending.length < worker.chunkSize)
    (hcollecting : next.phase = .collecting → state.phase = .collecting)
    (hheld : ∀ message, next.hand = some message → message.items ≠ [])
    (hclosing : next.phase = .closing → next.channel.pending = [])
    (hover : next.phase = .ended ∨ next.phase = .died → next.hand = none ∧ next.channel.pending = []) :
    Settled worker state next where
  ok := {
    short := hshort
    collecting := fun hphase ↦ howed.trans (h.collecting (hcollecting hphase))
    bounded := howed ▸ h.bounded
    held := hheld
    closing := hclosing
    ended := hover }
  owed := howed

theorem skip_settled (h : ProcessOk worker state) {todo : List (Option Item)}
    (hphase : state.phase = .flushing (none :: todo)) :
    Settled worker state { state with phase := .flushing todo } := by
  refine h.settled ?_ h.short ?_ h.held ?_ ?_
  · simp [owed, hphase, State.delivered]
  · rintro ⟨⟩
  · rintro ⟨⟩
  · rintro (⟨⟨⟩⟩ | ⟨⟨⟩⟩)

theorem emit_settled (hprocess : worker.threaded = false) (h : ProcessOk worker state) {item : Item}
    {todo : List (Option Item)} (now later : ℚ) (hphase : state.phase = .flushing (some item :: todo))
    (hidle : state.hand = none) :
    Settled worker state { state with
      phase := .flushing todo
      channel := (state.channel.send worker.chunkSize worker.chunkS (some item) now later).1
      hand := (state.channel.send worker.chunkSize worker.chunkS (some item) now later).2 } := by
  have hmade : Made worker.chunkSize state.channel.pending [some item]
      (state.channel.send worker.chunkSize worker.chunkS (some item) now later) :=
    OutputChannel.made_send state.channel (some item) now later
  refine h.settled ?_ (hmade.pending_size h.short) ?_ (fun message ↦ hmade.items_ne_nil) ?_ ?_
  · simp only [owed, hprocess, Bool.false_eq_true, if_false, State.delivered, hmade.ordered h.short, hphase,
      hidle, given_some, Channel.handItems_none, List.nil_append, List.append_assoc, List.cons_append]
  · rintro ⟨⟩
  · rintro ⟨⟩
  · rintro (⟨⟨⟩⟩ | ⟨⟨⟩⟩)

theorem placed_settled (hprocess : worker.threaded = false) (h : ProcessOk worker state)
    {message : Message (Option Item)} (hhand : state.hand = some message) :
    Settled worker state { state with hand := none, put := state.put ++ [message] } := by
  refine h.settled ?_ h.short id ?_ h.closing fun hphase ↦ ⟨rfl, (h.ended hphase).2⟩
  · simp [owed, hprocess, State.delivered, hhand]
  · intro other hother
    cases hother

theorem close_settled (hprocess : worker.threaded = false) (h : ProcessOk worker state)
    (hphase : state.phase = .flushing []) (hidle : state.hand = none) :
    Settled worker state { state with
      phase := .closing, channel := state.channel.flush.1, hand := state.channel.flush.2 } := by
  have hmade : Made worker.chunkSize state.channel.pending [] state.channel.flush :=
    OutputChannel.made_flush state.channel
  have hempty : state.channel.flush.1.pending = [] := by
    rw [OutputChannel.flush]
    split
    · rename_i hpending
      exact List.isEmpty_iff.mp hpending
    · rfl
  have hordered := hmade.ordered h.short
  rw [hempty, List.append_nil, List.append_nil] at hordered
  refine h.settled ?_ (.inl hempty) ?_ (fun message ↦ hmade.items_ne_nil) (fun _ ↦ hempty) ?_
  · simp [owed, hprocess, State.delivered, hordered, hempty, hphase, hidle]
  · rintro ⟨⟩
  · rintro (⟨⟨⟩⟩ | ⟨⟨⟩⟩)

theorem finish_settled (hprocess : worker.threaded = false) (h : ProcessOk worker state)
    (hphase : state.phase = .closing) (hidle : state.hand = none) :
    Settled worker state { state with phase := .ended } := by
  have hempty := h.closing hphase
  refine h.settled ?_ h.short ?_ h.held ?_ fun _ ↦ ⟨hidle, hempty⟩
  · simp [owed, hprocess, State.delivered, hphase]
  · rintro ⟨⟩
  · rintro ⟨⟩

/-- `list()` of a `flush()` that raises is nothing at all. -/
theorem collect_owed (hprocess : worker.threaded = false) (h : ProcessOk worker state)
    (hphase : state.phase = .collecting) :
    owed worker { state with phase := .flushing (if worker.raises then [] else worker.yields) } =
      worker.expected ↔ keeps worker state .collect = true := by
  have howed := h.collecting hphase
  rw [← howed]
  simp only [owed, hprocess, hphase, keeps, State.delivered]
  cases worker.raises with
  | false => simp
  | true =>
    rw [if_pos rfl, List.append_right_inj, given_nil]
    simp only [Bool.not_true, Bool.false_or, List.isEmpty_iff]
    exact eq_comm

theorem collect_ok (hprocess : worker.threaded = false) (h : ProcessOk worker state)
    (hphase : state.phase = .collecting) :
    ProcessOk worker { state with phase := .flushing (if worker.raises then [] else worker.yields) } := by
  have hbounded := h.bounded
  refine ⟨h.short, ?_, ?_, h.held, ?_, ?_⟩
  · rintro ⟨⟩
  · simp only [owed, hprocess, hphase, State.delivered, List.length_append] at hbounded ⊢
    cases worker.raises with
    | false => exact hbounded
    | true =>
      simp only [if_true, given_nil, List.length_nil]
      omega
  · rintro ⟨⟩
  · rintro (⟨⟨⟩⟩ | ⟨⟨⟩⟩)

/-- A put that raises loses its message at least. -/
theorem raised_owed (hprocess : worker.threaded = false) (h : ProcessOk worker state)
    {message : Message (Option Item)} (hhand : state.hand = some message) {phase : Phase Item}
    (hphase : phase = .flushing [] ∨ phase = .died) :
    (owed worker { state with phase := phase, hand := none }).length < worker.expected.length := by
  have hbounded := h.bounded
  have hpos := List.length_pos_iff.mpr (h.held message hhand)
  have hlost : (owed worker { state with phase := phase, hand := none }).length =
      state.delivered.length + state.channel.pending.length := by
    obtain rfl | rfl := hphase <;> simp [owed, hprocess, State.delivered]
  rw [hlost]
  refine Nat.lt_of_lt_of_le ?_ hbounded
  simp only [owed, hprocess, hhand, Bool.false_eq_true, if_false, Channel.handItems_some, List.length_append]
  omega

theorem raised_ok (hprocess : worker.threaded = false) (h : ProcessOk worker state)
    {message : Message (Option Item)} (hhand : state.hand = some message) {phase : Phase Item}
    (hphase : phase = .flushing [] ∨ phase = .died ∧ state.phase = .closing) :
    ProcessOk worker { state with phase := phase, hand := none } := by
  have hlost := raised_owed hprocess h hhand (hphase.imp id And.left)
  refine ⟨h.short, ?_, hlost.le, ?_, ?_, ?_⟩
  · rintro rfl
    obtain ⟨⟨⟩⟩ | ⟨⟨⟩, -⟩ := hphase
  · intro other hother
    cases hother
  · rintro rfl
    obtain ⟨⟨⟩⟩ | ⟨⟨⟩, -⟩ := hphase
  · intro hover
    obtain rfl | ⟨rfl, hclosing⟩ := hphase
    · obtain ⟨⟨⟩⟩ | ⟨⟨⟩⟩ := hover
    · exact ⟨rfl, h.closing hclosing⟩

/-- What a step of a process worker does to what is owed. -/
def Kept (worker : Worker Item) (state next : State Item) (action : Action) : Prop :=
  ProcessOk worker next ∧
    (owed worker next = worker.expected ↔ owed worker state = worker.expected ∧ keeps worker state action = true)

theorem Settled.kept (hnext : Settled worker state next) (hkeeps : keeps worker state action = true) :
    Kept worker state next action :=
  ⟨hnext.ok, by rw [hnext.owed, and_iff_left hkeeps]⟩

theorem raised_kept (hprocess : worker.threaded = false) (h : ProcessOk worker state)
    {message : Message (Option Item)} (hhand : state.hand = some message) {phase : Phase Item}
    (hphase : phase = .flushing [] ∨ phase = .died ∧ state.phase = .closing) :
    Kept worker state { state with phase := phase, hand := none } (.attempt .raised) := by
  have hlost := raised_owed hprocess h hhand (hphase.imp id And.left)
  have hkeeps : keeps worker state (.attempt .raised) = false := by simp [keeps, hprocess]
  refine ⟨raised_ok hprocess h hhand hphase, ?_⟩
  rw [hkeeps]
  refine iff_of_false (fun hsame ↦ ?_) fun hkept ↦ Bool.false_ne_true hkept.2
  rw [hsame] at hlost
  exact Nat.lt_irrefl _ hlost

theorem attempt_kept (hprocess : worker.threaded = false) (h : ProcessOk worker state) {outcome : Outcome}
    (hstep : stepProcess worker state (.attempt outcome) = some next) :
    Kept worker state next (.attempt outcome) := by
  simp only [stepProcess] at hstep
  split at hstep
  · rename_i message hhand
    cases hstep
    exact (placed_settled hprocess h hhand).kept (by simp [keeps, hprocess])
  · cases hstep
    have hsame : Settled worker state state := ⟨h, rfl⟩
    exact hsame.kept (by simp [keeps, hprocess])
  · rename_i message hhand
    split at hstep
    · cases hstep
      exact raised_kept hprocess h hhand (.inl rfl)
    · rename_i hclosing
      cases hstep
      exact raised_kept hprocess h hhand (.inr ⟨rfl, hclosing⟩)
    · cases hstep
  · cases hstep

/-- A step in the tail of a process worker loses nothing that is owed, or it is one that does not keep. -/
theorem stepProcess_kept (hprocess : worker.threaded = false) (h : ProcessOk worker state)
    (hstep : stepProcess worker state action = some next) : Kept worker state next action := by
  cases action with
  | attempt outcome => exact attempt_kept hprocess h hstep
  | collect =>
    simp only [stepProcess] at hstep
    split at hstep
    · rename_i hphase
      cases hstep
      refine ⟨collect_ok hprocess h hphase, ?_⟩
      rw [collect_owed hprocess h hphase, and_iff_right (h.collecting hphase)]
    · cases hstep
  | emit now later =>
    simp only [stepProcess] at hstep
    split at hstep
    · rename_i todo hphase hidle
      cases hstep
      exact (skip_settled h hphase).kept rfl
    · rename_i item todo hphase hidle
      cases hstep
      exact (emit_settled hprocess h now later hphase hidle).kept rfl
    · cases hstep
  | close =>
    simp only [stepProcess] at hstep
    split at hstep
    · rename_i hphase hidle
      cases hstep
      exact (close_settled hprocess h hphase hidle).kept rfl
    · cases hstep
  | finish =>
    simp only [stepProcess] at hstep
    split at hstep
    · rename_i hphase hidle
      cases hstep
      exact (finish_settled hprocess h hphase hidle).kept rfl
    · cases hstep

end Process

section Threaded

variable {Item : Type*} {worker : Worker Item} {state next : State Item} {action : Action}

/-- What a threaded worker has put and what it has yet to put are what its `flush()` yields. -/
structure ThreadedOk (worker : Worker Item) (state : State Item) : Prop where
  phase : state.phase ≠ .collecting
  flushing : ∀ todo, state.phase = .flushing todo → state.delivered ++ todo = worker.yields

/-- While it puts, nothing is missing as long as no `None` has been put. -/
theorem ThreadedOk.owed_iff (hthreaded : worker.threaded = true) (h : ThreadedOk worker state)
    {todo : List (Option Item)} (hphase : state.phase = .flushing todo) :
    owed worker state = worker.expected ↔ state.delivered = given state.delivered := by
  rw [Worker.expected, owed, hphase, ← h.flushing todo hphase, given_append]
  simp [hthreaded]

/-- Once it is over, nothing is missing if what was put is what was given. -/
theorem owed_closing (hthreaded : worker.threaded = true) (hphase : state.phase = .closing) :
    owed worker state = worker.expected ↔ state.delivered = given worker.yields := by
  simp [Worker.expected, owed, hphase, hthreaded]

theorem placed_kept (hthreaded : worker.threaded = true) (h : ThreadedOk worker state)
    {item : Option Item} {todo : List (Option Item)} (hphase : state.phase = .flushing (item :: todo)) :
    ThreadedOk worker { state with phase := .flushing todo, put := state.put ++ [.bare item] } ∧
      (owed worker { state with phase := .flushing todo, put := state.put ++ [.bare item] } =
        worker.expected ↔
          owed worker state = worker.expected ∧ keeps worker state (.attempt .placed) = true) := by
  have hdelivered : State.delivered { state with phase := .flushing todo, put := state.put ++ [.bare item] } =
      state.delivered ++ [item] := by
    simp [State.delivered]
  have hok : ThreadedOk worker { state with phase := .flushing todo, put := state.put ++ [.bare item] } := by
    refine ⟨nofun, fun todo' htodo' ↦ ?_⟩
    cases htodo'
    rw [hdelivered, ← h.flushing _ hphase]
    simp
  have hkeeps : keeps worker state (.attempt .placed) = item.isSome := by simp [keeps, hthreaded, hphase]
  refine ⟨hok, ?_⟩
  rw [hok.owed_iff hthreaded rfl, h.owed_iff hthreaded hphase, hdelivered, hkeeps, given_append]
  cases item with
  | none =>
    -- a `None` is put that no filter keeps
    have hle : (given state.delivered).length ≤ state.delivered.length := List.length_filter_le _ _
    simp only [Option.isSome_none, Bool.false_eq_true, and_false, iff_false]
    intro heq
    have hlength := congrArg List.length heq
    simp only [List.length_append, List.length_singleton, given_none, given_nil, List.length_nil] at hlength
    omega
  | some item => simp

/-- A put that does not go is the last one. -/
theorem left_kept (hthreaded : worker.threaded = true) (h : ThreadedOk worker state) {outcome : Outcome}
    {item : Option Item} {todo : List (Option Item)} (hphase : state.phase = .flushing (item :: todo))
    (houtcome : outcome ≠ .placed) :
    owed worker { state with phase := .closing } = worker.expected ↔
      owed worker state = worker.expected ∧ keeps worker state (.attempt outcome) = true := by
  have hkeeps : keeps worker state (.attempt outcome) = true ↔ given (item :: todo) = [] := by
    cases outcome with
    | placed => exact absurd rfl houtcome
    | full | raised => simp [keeps, hthreaded, hphase]
  rw [owed_closing hthreaded rfl, h.owed_iff hthreaded hphase, hkeeps, ← h.flushing _ hphase]
  exact eq_given_append_iff state.delivered (item :: todo)

/-- In the tail of a threaded worker a step loses something exactly if it is not one that keeps. -/
theorem stepThreaded_kept (hthreaded : worker.threaded = true) (h : ThreadedOk worker state)
    (hstep : stepThreaded state action = some next) :
    ThreadedOk worker next ∧
      (owed worker next = worker.expected ↔
        owed worker state = worker.expected ∧ keeps worker state action = true) := by
  cases action with
  | collect => cases hstep
  | emit => cases hstep
  | attempt outcome =>
    simp only [stepThreaded] at hstep
    split at hstep
    · rename_i item todo hphase
      cases hstep
      exact placed_kept hthreaded h hphase
    · rename_i item todo hphase houtcome
      cases hstep
      exact ⟨⟨nofun, nofun⟩, left_kept hthreaded h hphase houtcome⟩
    · cases hstep
  | close =>
    simp only [stepThreaded] at hstep
    split at hstep
    · rename_i hphase
      cases hstep
      refine ⟨⟨nofun, nofun⟩, ?_⟩
      simp [owed, keeps, hphase, State.delivered]
    · cases hstep
  | finish =>
    simp only [stepThreaded] at hstep
    split at hstep
    · rename_i hphase
      cases hstep
      refine ⟨⟨nofun, nofun⟩, ?_⟩
      simp [owed, keeps, hphase, State.delivered]
    · cases hstep

end Threaded

section Runs

variable {Item : Type*} {worker : Worker Item} {state next last : State Item} {action : Action}

/-- The invariant of the worker's own tail. -/
def Ok (worker : Worker Item) (state : State Item) : Prop :=
  if worker.threaded then ThreadedOk worker state else ProcessOk worker state

theorem ok_start (worker : Worker Item) : Ok worker (machine worker).start := by
  cases hthreaded : worker.threaded with
  | true =>
    simp only [Ok, machine, hthreaded, if_true]
    refine ⟨nofun, fun todo htodo ↦ ?_⟩
    cases htodo
    rfl
  | false =>
    simp only [Ok, machine, hthreaded, Bool.false_eq_true, if_false]
    have howed : owed worker ⟨.collecting, worker.channel, none, []⟩ = worker.expected := by
      simp [owed, Worker.expected, hthreaded, State.delivered]
    refine ⟨worker.short, fun _ ↦ howed, howed ▸ le_rfl, ?_, ?_, ?_⟩
    · intro message hmessage
      cases hmessage
    · rintro ⟨⟩
    · rintro (⟨⟨⟩⟩ | ⟨⟨⟩⟩)

/-- What is owed is all that is expected after a step exactly if it was before, and the step is one that keeps. -/
theorem step_kept (h : Ok worker state) (hstep : (machine worker).step state action = some next) :
    Ok worker next ∧
      (owed worker next = worker.expected ↔
        owed worker state = worker.expected ∧ keeps worker state action = true) := by
  cases hthreaded : worker.threaded with
  | true =>
    simp only [Ok, machine, hthreaded, if_true] at h hstep ⊢
    exact stepThreaded_kept hthreaded h hstep
  | false =>
    simp only [Ok, machine, hthreaded, Bool.false_eq_true, if_false] at h hstep ⊢
    exact stepProcess_kept hthreaded h hstep

theorem owed_start (worker : Worker Item) : owed worker (machine worker).start = worker.expected := by
  cases hthreaded : worker.threaded <;>
    simp [owed, machine, Worker.expected, hthreaded, State.delivered]

/-- At the end nothing is owed any more but what has been put. -/
theorem owed_over (h : Ok worker state) (hover : state.phase = .ended ∨ state.phase = .died) :
    owed worker state = state.delivered := by
  cases hthreaded : worker.threaded with
  | true => obtain hended | hdied := hover <;> simp [owed, *]
  | false =>
    simp only [Ok, hthreaded, Bool.false_eq_true, if_false] at h
    obtain ⟨hidle, hempty⟩ := h.ended hover
    obtain hended | hdied := hover <;> simp [owed, *]

/-- When the worker is counted as finished or has died, its `flush()` is on the output queue exactly if no step
of the run dropped an item or put a `None`. -/
theorem flush_kept_iff (worker : Worker Item) (actions : List Action) (last : State Item)
    (hrun : (machine worker).runFrom (machine worker).start actions = some last)
    (hover : last.phase = .ended ∨ last.phase = .died) :
    last.delivered = worker.expected ↔
      ((machine worker).restrict (keeps worker)).runFrom (machine worker).start actions = some last := by
  have hok : Ok worker last :=
    Machine.run_invariant (Ok worker) (fun _ _ _ hstate hstep ↦ (step_kept hstate hstep).1)
      (ok_start worker) hrun
  have hclean : owed worker last = worker.expected ↔
      owed worker (machine worker).start = worker.expected ∧
        ((machine worker).restrict (keeps worker)).runFrom (machine worker).start actions = some last :=
    Machine.clean_iff_restrict (Ok worker) (fun state ↦ owed worker state = worker.expected)
      (fun _ _ _ hstate hstep ↦ step_kept hstate hstep) (ok_start worker) hrun
  rw [← owed_over hok hover, hclean, and_iff_right (owed_start worker)]

def twoItems (threaded : Bool) : Worker ℕ where
  threaded := threaded
  chunkSize := 0
  chunkS := 0
  channel := ⟨[], 0⟩
  short := .inl rfl
  yields := [some 1, some 2]
  raises := false

/-- The channel of a process, on a queue that is full at first. -/
theorem flush_kept_twoItems :
    ∃ last, (machine (twoItems false)).runFrom (machine (twoItems false)).start
        [.collect, .emit 0 0, .attempt .full, .attempt .placed, .emit 0 0, .attempt .placed, .close, .finish] =
          some last ∧
      (last.delivered = (twoItems false).expected ↔
        ((machine (twoItems false)).restrict (keeps (twoItems false))).runFrom (machine (twoItems false)).start
          [.collect, .emit 0 0, .attempt .full, .attempt .placed, .emit 0 0, .attempt .placed, .close,
            .finish] = some last) :=
  ⟨_, rfl, flush_kept_iff (twoItems false) _ _ rfl (.inl rfl)⟩

/-- A queue that stays full for more than a second when the second item comes. -/
theorem not_flush_kept :
    ∃ last, (machine (twoItems true)).runFrom (machine (twoItems true)).start
        [.attempt .placed, .attempt .full, .finish] = some last ∧
      last.phase = .ended ∧ last.delivered = [some 1] ∧ (twoItems true).expected = [some 1, some 2] :=
  ⟨_, rfl, rfl, rfl, rfl⟩

end Runs

end GpuPipe.Tail
