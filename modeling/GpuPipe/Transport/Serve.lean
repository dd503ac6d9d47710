import Mathlib.Data.List.Flatten
import GpuPipe.Library.Machine
import GpuPipe.Transport.Channel

/-!
# Serving items over HTTP

The `/next` handler of a `PipeServer`. It reads the final queue through a channel, which it makes anew once the pipe
has a new final queue, and answers one request at a time. Workers put messages and the pipe is restarted at any
moment, also while a request waits. Every item gets one fate, in the order it was put.
-/

namespace GpuPipe.Serve

open Channel (Message)

/-- What a channel gives: an item or `End`. -/
inductive Entry (Item : Type*)
  | value (item : Item)
  | finish

def Entry.items {Item : Type*} : Entry Item → List Item
  | value item => [item]
  | finish => []

inductive Answer
  /-- 200, with `X-Items-Served` and `X-Size-Bytes` -/
  | served (number size : ℕ)
  /-- 503 -/
  | unavailable
  /-- 500, after or before the item was counted as served -/
  | error (counted : Bool)
  deriving DecidableEq

def Answer.number : Answer → Option ℕ
  | served number _ => some number
  | _ => none

inductive Fate
  | served (number : ℕ)
  /-- It was not sent: serialization or the response raised. -/
  | failed
  /-- Its message could not be decoded. -/
  | broken
  /-- It was in the buffer of a channel that is gone. -/
  | dropped
  deriving DecidableEq

def Fate.number : Fate → Option ℕ
  | served number => some number
  | _ => none

/-- What became of an item. -/
structure Taken (Item : Type*) where
  queue : ℕ
  item : Item
  fate : Fate

/-- How the rest of a request goes. -/
inductive Outcome
  | ok (size : ℕ)
  | raises
  /-- `size_bytes` or the response raises, when the item is counted already. -/
  | late (size : ℕ)

inductive Handler (Item : Type*)
  | idle
  | waiting
  | serializing (item : Item)

def Handler.items {Item : Type*} : Handler Item → List Item
  | serializing item => [item]
  | _ => []

structure State (Item : Type*) where
  /-- The final queues that the pipe has had, by number. -/
  waiting : ℕ → List (Message (Entry Item))
  /-- `queues[-1]` -/
  current : ℕ
  /-- `_out_ch.queue` and `_out_ch._buf` -/
  channel : ℕ
  buffer : List (Entry Item)
  handler : Handler Item
  itemsServed : ℕ
  errors : ℕ
  totalBytesServed : ℕ
  /-- History: the items put on each queue, what became of those taken off, and the answers. -/
  put : ℕ → List Item
  taken : List (Taken Item)
  answers : List Answer

inductive Action (Item : Type*)
  | put (queue : ℕ) (message : Message (Entry Item))
  | restart
  | request
  /-- `get` returns. -/
  | take
  /-- The deadline is over, or `get` raises `Empty`. -/
  | expire
  /-- `get` raises anything else, with or without a message off the queue. -/
  | undecodable
  | raise
  | finish (outcome : Outcome)

section Steps

variable {Item : Type*} (state : State Item)

def itemsOf (entries : List (Entry Item)) : List Item := entries.flatMap Entry.items

def Taken.all (queue : ℕ) (fate : Fate) (items : List Item) : List (Taken Item) :=
  items.map fun item ↦ ⟨queue, item, fate⟩

def State.respond (answer : Answer) : State Item :=
  { state with handler := .idle, answers := state.answers ++ [answer] }

/-- `except Exception` -/
def State.fail (counted : Bool) : State Item :=
  { state with errors := state.errors + 1 }.respond (.error counted)

/-- A channel for the queue of the day. -/
def State.renew : State Item :=
  if state.channel = state.current then state
  else { state with
    channel := state.current
    buffer := []
    taken := state.taken ++ Taken.all state.channel .dropped (itemsOf state.buffer) }

/-- The loop skips `End`. -/
def State.look (entry : Entry Item) (rest : List (Entry Item)) : State Item :=
  match entry with
  | .value item => { state with buffer := rest, handler := .serializing item }
  | .finish => { state with buffer := rest }

def State.pop (rest : List (Message (Entry Item))) : State Item :=
  { state with waiting := Function.update state.waiting state.channel rest }

/-- `_InputChannel.get`, where it does not wait. -/
def State.take : Option (State Item) :=
  match state.buffer, state.waiting state.channel with
  | entry :: rest, _ => some (state.look entry rest)
  | [], [] => none
  | [], .bare entry :: messages => some ((state.pop messages).look entry [])
  | [], .chunk (entry :: entries) :: messages => some ((state.pop messages).look entry entries)
  | [], .chunk [] :: messages => some ((state.pop messages).fail false)

/-- A message that is read and not decoded is lost. -/
def State.undecodable : Option (State Item) :=
  match state.buffer, state.waiting state.channel with
  | [], message :: messages =>
    some ({ state.pop messages with
      taken := state.taken ++ Taken.all state.channel .broken (itemsOf message.items) }.fail false)
  | _, _ => none

def State.finish (item : Item) : Outcome → State Item
  | .ok size =>
    { state with
      itemsServed := state.itemsServed + 1
      totalBytesServed := state.totalBytesServed + size
      taken := state.taken ++ [Taken.mk state.channel item (.served (state.itemsServed + 1))] }.respond
        (.served (state.itemsServed + 1) size)
  | .raises => { state with taken := state.taken ++ [Taken.mk state.channel item .failed] }.fail false
  | .late size =>
    { state with
      itemsServed := state.itemsServed + 1
      totalBytesServed := state.totalBytesServed + size
      taken := state.taken ++ [Taken.mk state.channel item .failed] }.fail true

def step : Action Item → Option (State Item)
  | .put queue message =>
    some { state with
      waiting := Function.update state.waiting queue (state.waiting queue ++ [message])
      put := Function.update state.put queue (state.put queue ++ itemsOf message.items) }
  | .restart => some { state with current := state.current + 1 }
  | .request =>
    match state.handler with
    | .idle => some { state.renew with handler := .waiting }
    | _ => none
  | .take =>
    match state.handler with
    | .waiting => state.take
    | _ => none
  | .expire =>
    match state.handler with
    | .waiting => some (state.respond .unavailable)
    | _ => none
  | .undecodable =>
    match state.handler with
    | .waiting => state.undecodable
    | _ => none
  | .raise =>
    match state.handler with
    | .waiting => some (state.fail false)
    | _ => none
  | .finish outcome =>
    match state.handler with
    | .serializing item => some (state.finish item outcome)
    | _ => none

end Steps

def start (Item : Type*) : State Item where
  waiting _ := []
  current := 0
  channel := 0
  buffer := []
  handler := .idle
  itemsServed := 0
  errors := 0
  totalBytesServed := 0
  put _ := []
  taken := []
  answers := []

def machine (Item : Type*) : Machine (State Item) (Action Item) := ⟨start Item, step⟩

/-! ## Every item has one fate -/

section Fates

variable {Item : Type*} {state next : State Item} {queue : ℕ}

def gone (taken : List (Taken Item)) (queue : ℕ) : List Item :=
  (taken.filter fun entry ↦ entry.queue = queue).map Taken.item

def queued (messages : List (Message (Entry Item))) : List Item :=
  messages.flatMap fun message ↦ itemsOf message.items

/-- The items in the handler and its channel. -/
def State.inside (state : State Item) (queue : ℕ) : List Item :=
  if state.channel = queue then state.handler.items ++ itemsOf state.buffer else []

/-- What has become of the items of a queue, in their order. -/
def State.content (state : State Item) (queue : ℕ) : List Item :=
  gone state.taken queue ++ state.inside queue ++ queued (state.waiting queue)

theorem itemsOf_cons (entry : Entry Item) (rest : List (Entry Item)) :
    itemsOf (entry :: rest) = entry.items ++ itemsOf rest := List.flatMap_cons

theorem queued_cons (message : Message (Entry Item)) (rest : List (Message (Entry Item))) :
    queued (message :: rest) = itemsOf message.items ++ queued rest := List.flatMap_cons

theorem gone_append (first second : List (Taken Item)) (queue : ℕ) :
    gone (first ++ second) queue = gone first queue ++ gone second queue := by
  rw [gone, List.filter_append, List.map_append]
  rfl

theorem gone_all (other : ℕ) (fate : Fate) (items : List Item) :
    gone (Taken.all other fate items) queue = if other = queue then items else [] := by
  unfold gone Taken.all
  split
  · induction items with
    | nil => rfl
    | cons item rest ih => simp_all
  · induction items with
    | nil => rfl
    | cons item rest ih => simp_all

theorem content_handler {handler : Handler Item} (h : handler.items = state.handler.items) :
    State.content { state with handler } queue = state.content queue := by
  show gone state.taken queue ++ (if state.channel = queue then handler.items ++ itemsOf state.buffer else []) ++ _ = _
  rw [h]
  rfl

theorem content_renew (hidle : state.handler.items = []) : state.renew.content queue = state.content queue := by
  unfold State.renew
  split
  · rfl
  · have hempty : ∀ other, State.inside { state with
        channel := state.current
        buffer := []
        taken := state.taken ++ Taken.all state.channel .dropped (itemsOf state.buffer) } other = [] := by
      intro other
      simp [State.inside, hidle, itemsOf]
    unfold State.content
    rw [hempty, gone_append, gone_all, State.inside, hidle, List.append_nil, List.nil_append]

/-- The handler takes the next entry. -/
theorem content_look {entry : Entry Item} {rest : List (Entry Item)} (hwaiting : state.handler.items = []) :
    (state.look entry rest).content queue =
      gone state.taken queue ++ (if state.channel = queue then itemsOf (entry :: rest) else []) ++
        queued (state.waiting queue) := by
  rw [itemsOf_cons]
  cases entry with
  | value item => rfl
  | finish =>
    unfold State.content State.inside State.look
    rw [hwaiting]
    rfl

/-- A message leaves the queue of the channel, whose buffer is empty. -/
theorem content_pop {message : Message (Entry Item)} {messages : List (Message (Entry Item))}
    (hwaiting : state.handler.items = []) (hbuffer : state.buffer = [])
    (hmessages : state.waiting state.channel = message :: messages) :
    state.content queue = gone state.taken queue ++ (if state.channel = queue then itemsOf message.items else []) ++
      queued ((state.pop messages).waiting queue) := by
  have hinside : state.inside queue = [] := by
    rw [State.inside, hwaiting, hbuffer]
    exact ite_self _
  rw [State.content, hinside, List.append_nil, List.append_assoc]
  by_cases hsame : state.channel = queue
  · subst hsame
    have hrest : (state.pop messages).waiting state.channel = messages := Function.update_self _ _ _
    rw [if_pos rfl, hmessages, queued_cons, hrest]
  · have hsame' : (state.pop messages).waiting queue = state.waiting queue :=
      Function.update_of_ne (Ne.symm hsame) _ _
    rw [if_neg hsame, hsame', List.nil_append]

theorem content_take (hwaiting : state.handler.items = []) (htake : state.take = some next) :
    next.content queue = state.content queue := by
  unfold State.take at htake
  split at htake
  next entry rest hbuffer =>
    cases htake
    rw [content_look hwaiting, State.content, State.inside, hwaiting, hbuffer]
    rfl
  next => cases htake
  next entry messages hbuffer hmessages =>
    cases htake
    rw [content_pop hwaiting hbuffer hmessages, content_look]
    · rfl
    · exact hwaiting
  next entry entries messages hbuffer hmessages =>
    cases htake
    rw [content_pop hwaiting hbuffer hmessages, content_look]
    · rfl
    · exact hwaiting
  next messages hbuffer hmessages =>
    cases htake
    rw [content_pop hwaiting hbuffer hmessages, State.content, State.inside]
    show gone state.taken queue ++ (if state.channel = queue then [] ++ itemsOf state.buffer else []) ++ _ = _
    rw [hbuffer]
    rfl

theorem content_undecodable (hwaiting : state.handler.items = []) (hnext : state.undecodable = some next) :
    next.content queue = state.content queue := by
  unfold State.undecodable at hnext
  split at hnext
  next message messages hbuffer hmessages =>
    cases hnext
    have hinside : (if state.channel = queue then [] ++ itemsOf state.buffer else []) = [] := by
      rw [hbuffer]
      exact ite_self _
    rw [content_pop hwaiting hbuffer hmessages, State.content, State.inside]
    show gone (state.taken ++ Taken.all state.channel .broken (itemsOf message.items)) queue ++
      (if state.channel = queue then [] ++ itemsOf state.buffer else []) ++ _ = _
    rw [hinside, List.append_nil, gone_append, gone_all]
    rfl
  next => cases hnext

/-- The item of the request that ends gets its fate. -/
theorem content_finish {item : Item} (hhandler : state.handler = .serializing item) (outcome : Outcome) :
    (state.finish item outcome).content queue = state.content queue := by
  have hmoves (fate : Fate) : gone (state.taken ++ [Taken.mk state.channel item fate]) queue ++
      (if state.channel = queue then [] ++ itemsOf state.buffer else []) =
        gone state.taken queue ++ state.inside queue := by
    have hone : [Taken.mk state.channel item fate] = Taken.all state.channel fate [item] := rfl
    rw [hone, gone_append, gone_all, State.inside, hhandler, List.append_assoc]
    split <;> rfl
  have hcontent (fate : Fate) : state.content queue =
      gone (state.taken ++ [Taken.mk state.channel item fate]) queue ++
        (if state.channel = queue then [] ++ itemsOf state.buffer else []) ++ queued (state.waiting queue) := by
    rw [hmoves fate]
    rfl
  cases outcome with
  | ok size => exact (hcontent _).symm
  | raises => exact (hcontent .failed).symm
  | late size => exact (hcontent .failed).symm

theorem content_put (state : State Item) (other : ℕ) (message : Message (Entry Item)) :
    State.content { state with
      waiting := Function.update state.waiting other (state.waiting other ++ [message])
      put := Function.update state.put other (state.put other ++ itemsOf message.items) } queue =
    Function.update state.content other (state.content other ++ itemsOf message.items) queue := by
  by_cases hsame : queue = other
  · subst hsame
    rw [Function.update_self]
    show gone state.taken queue ++ state.inside queue ++ queued
      (Function.update state.waiting queue (state.waiting queue ++ [message]) queue) = _
    rw [Function.update_self, queued, List.flatMap_append, List.flatMap_singleton, ← List.append_assoc]
    rfl
  · rw [Function.update_of_ne hsame]
    show gone state.taken queue ++ state.inside queue ++ queued
      (Function.update state.waiting other (state.waiting other ++ [message]) queue) = _
    rw [Function.update_of_ne hsame]
    rfl

/-! ## Answers and counters -/

def Answer.counted : Answer → Bool
  | served _ _ => true
  | unavailable => false
  | error counted => counted

def Answer.isError : Answer → Bool
  | error _ => true
  | _ => false

/-- The numbers of the items served. -/
def servedNumbers (taken : List (Taken Item)) : List ℕ := taken.filterMap fun entry ↦ entry.fate.number

/-- The counters and the headers tell what was answered. -/
structure Counted (taken : List (Taken Item)) (answers : List Answer) (itemsServed errors : ℕ) : Prop where
  numbers : servedNumbers taken = answers.filterMap Answer.number
  ordered : (servedNumbers taken).Pairwise (· < ·)
  bounded : ∀ number ∈ servedNumbers taken, number ≤ itemsServed
  served : itemsServed = answers.countP Answer.counted
  failed : errors = answers.countP Answer.isError

variable {taken : List (Taken Item)} {answers : List Answer} {itemsServed errors : ℕ}

theorem numbers_append (first second : List (Taken Item)) :
    servedNumbers (first ++ second) = servedNumbers first ++ servedNumbers second := List.filterMap_append

theorem numbers_all {fate : Fate} (hfate : fate.number = none) (queue : ℕ) (items : List Item) :
    servedNumbers (Taken.all queue fate items) = [] := by
  unfold servedNumbers Taken.all
  rw [List.filterMap_map, List.filterMap_eq_nil_iff]
  exact fun _ _ ↦ hfate

/-- Items go that are not served. -/
theorem Counted.lost (h : Counted taken answers itemsServed errors) {more : List (Taken Item)}
    (hmore : servedNumbers more = []) : Counted (taken ++ more) answers itemsServed errors := by
  have hsame : servedNumbers (taken ++ more) = servedNumbers taken := by
    rw [numbers_append, hmore, List.append_nil]
  exact ⟨hsame.trans h.numbers, hsame ▸ h.ordered, hsame ▸ h.bounded, h.served, h.failed⟩

theorem Counted.unavailable (h : Counted taken answers itemsServed errors) :
    Counted taken (answers ++ [.unavailable]) itemsServed errors := by
  refine ⟨?_, h.ordered, h.bounded, ?_, ?_⟩
  · rw [h.numbers, List.filterMap_append]
    exact (List.append_nil _).symm
  · rw [h.served, List.countP_append]
    rfl
  · rw [h.failed, List.countP_append]
    rfl

theorem Counted.error (h : Counted taken answers itemsServed errors) (counted : Bool) :
    Counted taken (answers ++ [.error counted]) (itemsServed + counted.toNat) (errors + 1) := by
  refine ⟨?_, h.ordered, ?_, ?_, ?_⟩
  · rw [h.numbers, List.filterMap_append]
    exact (List.append_nil _).symm
  · exact fun number hnumber ↦ (h.bounded number hnumber).trans (Nat.le_add_right _ _)
  · rw [h.served, List.countP_append]
    cases counted <;> rfl
  · rw [h.failed, List.countP_append]
    rfl

theorem Counted.answered (h : Counted taken answers itemsServed errors) (queue : ℕ) (item : Item) (size : ℕ) :
    Counted (taken ++ [⟨queue, item, .served (itemsServed + 1)⟩]) (answers ++ [.served (itemsServed + 1) size])
      (itemsServed + 1) errors := by
  have hnumbers : servedNumbers (taken ++ [⟨queue, item, .served (itemsServed + 1)⟩]) =
      servedNumbers taken ++ [itemsServed + 1] := numbers_append _ _
  refine ⟨?_, ?_, ?_, ?_, ?_⟩
  · rw [hnumbers, h.numbers, List.filterMap_append]
    rfl
  · rw [hnumbers, List.pairwise_append]
    refine ⟨h.ordered, List.pairwise_singleton _ _, ?_⟩
    intro number hnumber last hlast
    rw [List.mem_singleton.mp hlast]
    exact Nat.lt_succ_of_le (h.bounded number hnumber)
  · intro number hnumber
    rw [hnumbers, List.mem_append, List.mem_singleton] at hnumber
    rcases hnumber with hold | rfl
    · exact (h.bounded number hold).trans (Nat.le_succ _)
    · exact le_rfl
  · rw [h.served, List.countP_append]
    rfl
  · rw [h.failed, List.countP_append]
    rfl

/-! ## Runs -/

structure Sound (state : State Item) : Prop where
  content : ∀ queue, state.put queue = state.content queue
  counted : Counted state.taken state.answers state.itemsServed state.errors

theorem counted_renew (h : Sound state) :
    Counted state.renew.taken state.renew.answers state.renew.itemsServed state.renew.errors := by
  unfold State.renew
  split
  · exact h.counted
  · exact h.counted.lost (numbers_all rfl _ _)

/-- Looking at an entry leaves the history alone. -/
theorem look_history (state : State Item) (entry : Entry Item) (rest : List (Entry Item)) :
    (state.look entry rest).put = state.put ∧ (state.look entry rest).taken = state.taken ∧
      (state.look entry rest).answers = state.answers ∧ (state.look entry rest).itemsServed = state.itemsServed ∧
      (state.look entry rest).errors = state.errors := by
  cases entry <;> exact ⟨rfl, rfl, rfl, rfl, rfl⟩

theorem counted_look (h : Counted state.taken state.answers state.itemsServed state.errors) (entry : Entry Item)
    (rest : List (Entry Item)) :
    Counted (state.look entry rest).taken (state.look entry rest).answers (state.look entry rest).itemsServed
      (state.look entry rest).errors := by
  obtain ⟨-, htaken, hanswers, hserved, herrors⟩ := look_history state entry rest
  rwa [htaken, hanswers, hserved, herrors]

theorem counted_take (h : Sound state) (htake : state.take = some next) :
    next.put = state.put ∧ Counted next.taken next.answers next.itemsServed next.errors := by
  unfold State.take at htake
  split at htake
  next entry rest _ =>
    cases htake
    exact ⟨(look_history state entry rest).1, counted_look h.counted entry rest⟩
  next => cases htake
  next entry messages _ _ =>
    cases htake
    have hpop : Counted (state.pop messages).taken (state.pop messages).answers (state.pop messages).itemsServed
        (state.pop messages).errors := h.counted
    exact ⟨(look_history (state.pop messages) entry []).1, counted_look hpop entry []⟩
  next entry entries messages _ _ =>
    cases htake
    have hpop : Counted (state.pop messages).taken (state.pop messages).answers (state.pop messages).itemsServed
        (state.pop messages).errors := h.counted
    exact ⟨(look_history (state.pop messages) entry entries).1, counted_look hpop entry entries⟩
  next messages _ _ =>
    cases htake
    exact ⟨rfl, h.counted.error false⟩

theorem counted_undecodable (h : Sound state) (hnext : state.undecodable = some next) :
    next.put = state.put ∧ Counted next.taken next.answers next.itemsServed next.errors := by
  unfold State.undecodable at hnext
  split at hnext
  · cases hnext
    exact ⟨rfl, (h.counted.lost (numbers_all rfl _ _)).error false⟩
  · cases hnext

/-- The counters follow the answer. -/
theorem counted_finish (h : Sound state) (item : Item) (outcome : Outcome) :
    Counted (state.finish item outcome).taken (state.finish item outcome).answers
      (state.finish item outcome).itemsServed (state.finish item outcome).errors := by
  cases outcome with
  | ok size => exact h.counted.answered state.channel item size
  | raises => exact (h.counted.lost rfl).error false
  | late size => exact (h.counted.lost rfl).error true

/-- What every step preserves: puts, restarts and the steps of a request. -/
theorem Sound.step (h : Sound state) {action : Action Item} (hstep : step state action = some next) :
    Sound next := by
  cases action with
  | put queue message =>
    cases hstep
    refine ⟨fun other ↦ ?_, h.counted⟩
    have hcontent : state.content = state.put := funext fun queue ↦ (h.content queue).symm
    rw [content_put, hcontent]
  | restart =>
    cases hstep
    exact ⟨h.content, h.counted⟩
  | request =>
    cases hhandler : state.handler with
    | idle =>
      simp only [Serve.step, hhandler, Option.some_inj] at hstep
      cases hstep
      have hidle : state.handler.items = [] := by rw [hhandler]; rfl
      refine ⟨fun queue ↦ ?_, counted_renew h⟩
      have hput : state.renew.put = state.put := by
        unfold State.renew
        split <;> rfl
      have hitems : Handler.waiting.items = state.renew.handler.items := by
        unfold State.renew
        split <;> exact hidle.symm
      calc
        state.renew.put queue = state.content queue := by rw [hput, h.content]
        _ = state.renew.content queue := (content_renew hidle).symm
        _ = State.content { state.renew with handler := .waiting } queue := (content_handler hitems).symm
    | waiting | serializing => simp [Serve.step, hhandler] at hstep
  | take =>
    cases hhandler : state.handler with
    | waiting =>
      simp only [Serve.step, hhandler] at hstep
      have hwaiting : state.handler.items = [] := by rw [hhandler]; rfl
      obtain ⟨hput, hcounted⟩ := counted_take h hstep
      refine ⟨fun queue ↦ ?_, hcounted⟩
      rw [hput, content_take hwaiting hstep, h.content]
    | idle | serializing => simp [Serve.step, hhandler] at hstep
  | expire =>
    cases hhandler : state.handler with
    | waiting =>
      simp only [Serve.step, hhandler, Option.some_inj] at hstep
      cases hstep
      refine ⟨fun queue ↦ ?_, h.counted.unavailable⟩
      have hitems : Handler.idle.items = state.handler.items := by rw [hhandler]; rfl
      exact (h.content queue).trans (content_handler hitems).symm
    | idle | serializing => simp [Serve.step, hhandler] at hstep
  | undecodable =>
    cases hhandler : state.handler with
    | waiting =>
      simp only [Serve.step, hhandler] at hstep
      have hwaiting : state.handler.items = [] := by rw [hhandler]; rfl
      obtain ⟨hput, hcounted⟩ := counted_undecodable h hstep
      refine ⟨fun queue ↦ ?_, hcounted⟩
      rw [hput, content_undecodable hwaiting hstep, h.content]
    | idle | serializing => simp [Serve.step, hhandler] at hstep
  | raise =>
    cases hhandler : state.handler with
    | waiting =>
      simp only [Serve.step, hhandler, Option.some_inj] at hstep
      cases hstep
      refine ⟨fun queue ↦ ?_, h.counted.error false⟩
      have hitems : Handler.idle.items = state.handler.items := by rw [hhandler]; rfl
      exact (h.content queue).trans (content_handler hitems).symm
    | idle | serializing => simp [Serve.step, hhandler] at hstep
  | finish outcome =>
    cases hhandler : state.handler with
    | serializing item =>
      simp only [Serve.step, hhandler, Option.some_inj] at hstep
      cases hstep
      refine ⟨fun queue ↦ ?_, counted_finish h item outcome⟩
      have hput : (state.finish item outcome).put = state.put := by cases outcome <;> rfl
      rw [hput, content_finish hhandler, h.content]
    | idle | waiting => simp [Serve.step, hhandler] at hstep

theorem sound_start : Sound (start Item) where
  content _ := by
    show [] = [] ++ (if _ then [] else []) ++ []
    rw [ite_self]
    rfl
  counted := ⟨rfl, List.Pairwise.nil, nofun, rfl, rfl⟩

/-- Every item put on a final queue is served, refused with an error, broken or dropped, or is still on its way, in
the order it was put. The numbers in the 200 responses are those of the items served and only grow, and the
counters count the responses. -/
theorem items_have_one_fate (h : (machine Item).Reachable state) :
    (∀ queue, state.put queue =
      gone state.taken queue ++ state.inside queue ++ queued (state.waiting queue)) ∧
      servedNumbers state.taken = state.answers.filterMap Answer.number ∧
      (servedNumbers state.taken).Pairwise (· < ·) ∧
      state.itemsServed = state.answers.countP Answer.counted ∧
      state.errors = state.answers.countP Answer.isError := by
  have hsound : Sound state := h.invariant Sound sound_start fun _ _ _ hstate hstep ↦ hstate.step hstep
  have hcounted := hsound.counted
  exact ⟨hsound.content, hcounted.numbers, hcounted.ordered, hcounted.served, hcounted.failed⟩

end Fates

/-- Of a chunk, the first item is served, the second cannot be serialized, and the third goes with the channel when
the pipe has been restarted. -/
def restartedRun : List (Action ℕ) :=
  [.request, .put 0 (.chunk [.value 5, .value 6, .value 7]), .put 0 (.bare .finish), .take, .finish (.ok 40), .request,
    .take, .finish .raises, .restart, .request, .put 1 (.bare .finish), .take, .expire]

/-- Three requests and a restart: of three items one is served, one cannot be serialized, and one is lost. -/
theorem items_have_one_fate_restartedRun : ∃ state,
    (machine ℕ).runFrom (start ℕ) restartedRun = some state ∧
      state.answers = [.served 1 40, .error false, .unavailable] ∧ gone state.taken 0 = [5, 6, 7] ∧
      state.put 0 = gone state.taken 0 ++ state.inside 0 ++ queued (state.waiting 0) := by
  have hrun : ((machine ℕ).runFrom (start ℕ) restartedRun).any (fun state ↦
      state.answers = [.served 1 40, .error false, .unavailable] ∧ gone state.taken 0 = [5, 6, 7]) = true := by
    decide +kernel
  obtain ⟨state, hstate, hanswers⟩ := (Option.any_eq_true _ _).mp hrun
  obtain ⟨hanswers, hgone⟩ := of_decide_eq_true hanswers
  exact ⟨state, hstate, hanswers, hgone, (items_have_one_fate ⟨_, hstate⟩).1 0⟩

end GpuPipe.Serve
