import GpuPipe.Library.ByteMemory
import GpuPipe.Library.Machine
import GpuPipe.Library.References

/-!
# What goes through the ring

An object goes as its pickle. A pickle too big for the ring is parked in a store block, and a zero byte and a
pickle of the call that reads it go instead; if the store is full, the pickle is spilled to disk. Producers encode
first and put when there is room. In the meantime others allocate, write, share and free blocks of the same store.
-/

namespace GpuPipe.Wire

/-- What is pickled: an object, or `load_spilled` with its block. -/
inductive Value (Object : Type*)
  | object (object : Object)
  | call (block : ℕ)

structure Pickle (Object : Type*) where
  dumps : Value Object → Bytes
  loads : Bytes → Option (Value Object)

/-- What is pickled is loaded, and a pickle starts with the `PROTO` opcode. -/
structure Pickle.Sound {Object : Type*} (pickle : Pickle Object) : Prop where
  loads_dumps : ∀ value, pickle.loads (pickle.dumps value) = some value
  proto : ∀ value, (pickle.dumps value).head? = some 0x80

structure Payload where
  length : ℕ
  bytes : Memory

def Payload.data (payload : Payload) : Bytes := payload.bytes.read 0 payload.length

/-- What `encode` makes. The object is history. -/
structure Message (Object : Type*) where
  data : Bytes
  disk : Bool
  object : Object

structure State (Object : Type*) where
  payload : ℕ → Payload
  refs : ℕ → ℕ
  /-- The references that arrays and other queues have. -/
  held : List ℕ
  /-- Encoded and not yet put. -/
  hand : List (Message Object)
  queue : List (Message Object)
  /-- What was put, and what was got: history. -/
  sent : List Object
  got : List Object
  /-- How many `_load` raised. -/
  raised : ℕ

inductive Action (Object : Type*)
  | encode (object : Object) (answer : Option ℕ)
  | put (place : ℕ)
  | get
  -- what others do with the store
  | alloc (block length : ℕ)
  | write (block address : ℕ) (bytes : Bytes)
  | share (block : ℕ)
  | free (block : ℕ)

def spilled : UInt8 := 0

def start (Object : Type*) : State Object := ⟨fun _ ↦ ⟨0, fun _ ↦ 0⟩, fun _ ↦ 0, [], [], [], [], [], 0⟩

section Steps

variable {Object : Type*} (pickle : Pickle Object) (spillAt : ℕ) (hasStore : Bool)

/-- `alloc_bytes`, whose block object goes after `share`. -/
def State.park (state : State Object) (block : ℕ) (data : Bytes) : State Object :=
  { state with
    payload := Function.update state.payload block
      ⟨data.length, (state.payload block).bytes.applyStores (Memory.copyStores 0 data)⟩
    refs := Function.update state.refs block 1 }

def State.release (state : State Object) (block : ℕ) : State Object :=
  { state with refs := References.release state.refs block }

/-- `ShmQueue.encode`; `answer` is the store's. -/
def encode (state : State Object) (object : Object) (answer : Option ℕ) : State Object × Message Object :=
  let data := pickle.dumps (.object object)
  if spillAt < data.length && hasStore then
    match answer with
    | some block => (state.park block data, ⟨spilled :: pickle.dumps (.call block), false, object⟩)
    | none => (state, ⟨data, true, object⟩)
  else (state, ⟨data, false, object⟩)

def loadObject (data : Bytes) : Option Object :=
  match pickle.loads data with
  | some (.object object) => some object
  | _ => none

/-- `_load`: the block of a parked pickle is freed once it is read. -/
def load (state : State Object) (data : Bytes) : State Object × Option Object :=
  if data.head? = some spilled then
    match pickle.loads data.tail with
    | some (.call block) => (state.release block, loadObject pickle (state.payload block).data)
    | _ => (state, none)
  else (state, loadObject pickle data)

/-- `ShmQueue.get` of the first message -/
def get (state : State Object) (data : Bytes) : State Object :=
  match load pickle state data with
  | (after, some object) => { after with got := after.got ++ [object] }
  | (after, none) => { after with raised := after.raised + 1 }

def step (state : State Object) : Action Object → Option (State Object)
  | .encode object answer =>
    if answer.all fun block ↦ state.refs block = 0 then
      let (after, message) := encode pickle spillAt hasStore state object answer
      some { after with hand := after.hand ++ [message] }
    else none
  | .put place => do
    let message ← state.hand[place]?
    some { state with
      hand := state.hand.eraseIdx place, queue := state.queue ++ [message], sent := state.sent ++ [message.object] }
  | .get =>
    match state.queue with
    | [] => none
    | message :: rest => some (get pickle { state with queue := rest } message.data)
  | .alloc block length =>
    if state.refs block = 0 then
      some { state with
        payload := Function.update state.payload block ⟨length, (state.payload block).bytes⟩
        refs := Function.update state.refs block 1
        held := block :: state.held }
    else none
  | .write block address bytes =>
    if block ∈ state.held then
      let stores := Memory.copyStores address bytes
      some { state with
        payload := Function.update state.payload block
          { state.payload block with bytes := (state.payload block).bytes.applyStores stores } }
    else none
  | .share block =>
    if block ∈ state.held then
      some { state with
        refs := References.retain state.refs block, held := block :: state.held }
    else none
  | .free block =>
    if block ∈ state.held then some { state.release block with held := state.held.erase block } else none

def machine : Machine (State Object) (Action Object) := ⟨start Object, step pickle spillAt hasStore⟩

end Steps

/-! ## What a message stands for -/

section Sound

variable {Object : Type*} {pickle : Pickle Object} {spillAt : ℕ} {hasStore : Bool} {state next : State Object}
  {message : Message Object} {block : ℕ}

/-- The block that a message names. -/
def Message.parked (pickle : Pickle Object) (message : Message Object) : Option ℕ :=
  if message.data.head? = some spilled then
    match pickle.loads message.data.tail with
    | some (.call block) => some block
    | _ => none
  else none

def State.messages (state : State Object) : List (Message Object) := state.hand ++ state.queue

def State.parked (pickle : Pickle Object) (state : State Object) : List ℕ :=
  state.messages.filterMap (Message.parked pickle)

/-- The message is the pickle of its object, or names a block that holds it. -/
inductive Holds (pickle : Pickle Object) (payload : ℕ → Payload) (message : Message Object) : Prop
  | plain (data : message.data = pickle.dumps (.object message.object))
  | parked (block : ℕ) (data : message.data = spilled :: pickle.dumps (.call block))
      (payload : (payload block).data = pickle.dumps (.object message.object))

theorem dumps_head (hpickle : pickle.Sound) (value : Value Object) :
    (pickle.dumps value).head? ≠ some spilled := by
  rw [hpickle.proto]
  decide

theorem parked_of_plain (hpickle : pickle.Sound) {value : Value Object} (h : message.data = pickle.dumps value) :
    message.parked pickle = none := by
  rw [Message.parked, h]
  exact if_neg (dumps_head hpickle value)

/-- A parked message names its block. -/
theorem parked_of_spilled (hpickle : pickle.Sound) (h : message.data = spilled :: pickle.dumps (.call block)) :
    message.parked pickle = some block := by
  rw [Message.parked, h, List.head?_cons, if_pos rfl, List.tail_cons, hpickle.loads_dumps]

theorem loadObject_dumps (hpickle : pickle.Sound) (object : Object) :
    loadObject pickle (pickle.dumps (.object object)) = some object := by
  rw [loadObject, hpickle.loads_dumps]

/-- `_load` gives what was put, and frees the block. -/
theorem get_holds (hpickle : pickle.Sound) (h : Holds pickle state.payload message) :
    get pickle state message.data =
      { (message.parked pickle).elim state state.release with got := state.got ++ [message.object] } := by
  cases h with
  | plain hdata =>
    rw [parked_of_plain hpickle hdata, get, load, hdata, if_neg (dumps_head hpickle _), loadObject_dumps hpickle]
    rfl
  | parked block hdata hpayload =>
    rw [parked_of_spilled hpickle hdata, get, load, hdata, List.head?_cons, if_pos rfl, List.tail_cons,
      hpickle.loads_dumps]
    dsimp only
    rw [hpayload, loadObject_dumps hpickle]
    rfl

structure Sound (pickle : Pickle Object) (state : State Object) : Prop where
  counted : References.Counts state.refs (state.parked pickle ++ state.held)
  nodup : (state.parked pickle).Nodup
  apart : ∀ block ∈ state.parked pickle, block ∉ state.held
  holds : ∀ message ∈ state.messages, Holds pickle state.payload message
  ordered : state.sent = state.got ++ state.queue.map Message.object
  raised : state.raised = 0

theorem sound_start : Sound pickle (start Object) where
  counted := References.counts_nil
  nodup := List.nodup_nil
  apart _ hmem := absurd hmem List.not_mem_nil
  holds _ hmem := absurd hmem List.not_mem_nil
  ordered := rfl
  raised := rfl

/-- A block that nobody refers to is neither held nor named. -/
theorem Sound.free (h : Sound pickle state) (hfree : state.refs block = 0) :
    block ∉ state.parked pickle ∧ block ∉ state.held := by
  have hnone := h.counted.notMem hfree
  rwa [List.mem_append, not_or] at hnone

theorem mem_parked (hmem : message ∈ state.messages) (hparked : message.parked pickle = some block) :
    block ∈ state.parked pickle := List.mem_filterMap.mpr ⟨message, hmem, hparked⟩

/-- The payload of a block that no message names may change. -/
theorem Holds.update (hpickle : pickle.Sound) (h : Holds pickle state.payload message)
    (hmem : message ∈ state.messages) (hother : block ∉ state.parked pickle) (payload : Payload) :
    Holds pickle (Function.update state.payload block payload) message := by
  cases h with
  | plain hdata => exact .plain hdata
  | parked other hdata hpayload =>
    have hne : other ≠ block := by
      rintro rfl
      exact hother (mem_parked hmem (parked_of_spilled hpickle hdata))
    refine .parked other hdata ?_
    rw [Function.update_of_ne hne]
    exact hpayload

/-- Others use the store. -/
theorem Sound.others (h : Sound pickle state) {payload : ℕ → Payload} {refs : ℕ → ℕ} {held : List ℕ}
    (hcounted : References.Counts refs (state.parked pickle ++ held))
    (hapart : ∀ block ∈ state.parked pickle, block ∉ held)
    (hholds : ∀ message ∈ state.messages, Holds pickle payload message) :
    Sound pickle { state with payload, refs, held } :=
  ⟨hcounted, h.nodup, hapart, hholds, h.ordered, h.raised⟩

theorem sound_alloc (hpickle : pickle.Sound) (h : Sound pickle state) (hfree : state.refs block = 0)
    (payload : Payload) :
    Sound pickle { state with
      payload := Function.update state.payload block payload
      refs := Function.update state.refs block 1
      held := block :: state.held } := by
  obtain ⟨hparked, hheld⟩ := h.free hfree
  apply h.others
  · exact (h.counted.first hfree).perm List.perm_middle
  · intro other hmem hcons
    rcases List.mem_cons.mp hcons with rfl | hother
    · exact hparked hmem
    · exact h.apart other hmem hother
  · exact fun message hmem ↦ (h.holds message hmem).update hpickle hmem hparked payload

theorem sound_write (hpickle : pickle.Sound) (h : Sound pickle state) (hheld : block ∈ state.held)
    (payload : Payload) : Sound pickle { state with payload := Function.update state.payload block payload } := by
  have hparked : block ∉ state.parked pickle := fun hmem ↦ h.apart block hmem hheld
  exact h.others h.counted h.apart fun message hmem ↦ (h.holds message hmem).update hpickle hmem hparked payload

theorem sound_share (h : Sound pickle state) (hheld : block ∈ state.held) :
    Sound pickle { state with
      refs := References.retain state.refs block, held := block :: state.held } := by
  apply h.others
  · exact (h.counted.retain block).perm List.perm_middle
  · intro other hmem hcons
    rcases List.mem_cons.mp hcons with rfl | hother
    · exact h.apart other hmem hheld
    · exact h.apart other hmem hother
  · exact h.holds

theorem sound_free (h : Sound pickle state) (hheld : block ∈ state.held) :
    Sound pickle { state.release block with held := state.held.erase block } := by
  have hperm : (block :: (state.parked pickle ++ state.held.erase block)).Perm
      (state.parked pickle ++ state.held) :=
    List.perm_middle.symm.trans ((List.perm_cons_erase hheld).symm.append_left _)
  apply h.others
  · exact (h.counted.perm hperm).release
  · exact fun other hmem herase ↦ h.apart other hmem (List.mem_of_mem_erase herase)
  · exact h.holds

theorem sound_put (h : Sound pickle state) {place : ℕ} (hplace : state.hand[place]? = some message) :
    Sound pickle { state with
      hand := state.hand.eraseIdx place, queue := state.queue ++ [message]
      sent := state.sent ++ [message.object] } := by
  obtain ⟨hlt, hmessage⟩ := List.getElem?_eq_some_iff.mp hplace
  have hperm : (state.hand.eraseIdx place ++ (state.queue ++ [message])).Perm state.messages := by
    calc
      List.Perm (state.hand.eraseIdx place ++ (state.queue ++ [message]))
          (message :: (state.hand.eraseIdx place ++ state.queue)) := by
        rw [← List.append_assoc]
        exact List.perm_append_singleton _ _
      List.Perm _ (state.hand ++ state.queue) := by
        rw [← List.cons_append, ← hmessage]
        exact (List.getElem_cons_eraseIdx_perm hlt).append_right _
  have hparked := hperm.filterMap (Message.parked pickle)
  refine ⟨?_, ?_, ?_, ?_, ?_, h.raised⟩
  · exact h.counted.perm (hparked.append_right _)
  · exact hparked.nodup_iff.mpr h.nodup
  · exact fun block hmem ↦ h.apart block (hparked.mem_iff.mp hmem)
  · exact fun other hmem ↦ h.holds other (hperm.mem_iff.mp hmem)
  · rw [h.ordered, List.map_append, List.append_assoc]
    rfl

/-- The first message's block and those of the others. -/
theorem parked_perm (pickle : Pickle Object) {rest : List (Message Object)} (hqueue : state.queue = message :: rest) :
    (state.parked pickle).Perm ((message.parked pickle).toList ++ State.parked pickle { state with queue := rest }) := by
  unfold State.parked State.messages
  rw [hqueue, List.filterMap_append, List.filterMap_append, List.filterMap_cons]
  cases message.parked pickle with
  | none => exact .refl _
  | some block => exact List.perm_middle

/-- A message is read back to its object, and its block is given back. -/
theorem sound_get (hpickle : pickle.Sound) (h : Sound pickle state) {rest : List (Message Object)}
    (hqueue : state.queue = message :: rest) :
    Sound pickle (get pickle { state with queue := rest } message.data) := by
  have hmem : message ∈ state.messages := by
    rw [State.messages, hqueue]
    exact List.mem_append_right _ List.mem_cons_self
  have hsublist : (state.hand ++ rest).Sublist state.messages := by
    rw [State.messages, hqueue]
    exact (List.sublist_cons_self message rest).append_left _
  have hholds : Holds pickle ({ state with queue := rest } : State Object).payload message := h.holds message hmem
  have hcounted := h.counted.perm ((parked_perm pickle hqueue).symm.append_right state.held)
  have hordered : state.sent = state.got ++ [message.object] ++ rest.map Message.object := by
    rw [h.ordered, hqueue, List.map_cons, List.append_assoc]
    rfl
  have hnodup := h.nodup.sublist (hsublist.filterMap (Message.parked pickle))
  have hapart : ∀ block ∈ (state.hand ++ rest).filterMap (Message.parked pickle), block ∉ state.held :=
    fun block hblock ↦ h.apart block ((hsublist.filterMap _).subset hblock)
  have hrest : ∀ other ∈ state.hand ++ rest, Holds pickle state.payload other :=
    fun other hother ↦ h.holds other (hsublist.subset hother)
  rw [get_holds hpickle hholds]
  cases hparked : message.parked pickle with
  | none =>
    rw [hparked] at hcounted
    exact ⟨hcounted, hnodup, hapart, hrest, hordered, h.raised⟩
  | some block =>
    rw [hparked] at hcounted
    exact ⟨hcounted.release, hnodup, hapart, hrest, hordered, h.raised⟩

theorem hand_perm (pickle : Pickle Object) (state : State Object) (message : Message Object) :
    (State.parked pickle { state with hand := state.hand ++ [message] }).Perm
      ((message.parked pickle).toList ++ state.parked pickle) := by
  unfold State.parked State.messages
  rw [List.filterMap_append, List.filterMap_append, List.filterMap_append]
  cases hparked : message.parked pickle with
  | none => simp [hparked]
  | some block =>
    simp only [List.filterMap_cons, hparked, List.filterMap_nil, List.append_assoc]
    exact List.perm_middle

/-- A message comes into its producer's hand. -/
theorem Sound.encoded (h : Sound pickle state) {payload : ℕ → Payload} {refs : ℕ → ℕ}
    (hcounted : References.Counts refs ((message.parked pickle).toList ++ state.parked pickle ++ state.held))
    (hfresh : ∀ block ∈ message.parked pickle, block ∉ state.parked pickle ∧ block ∉ state.held)
    (hholds : ∀ other ∈ state.messages, Holds pickle payload other) (hself : Holds pickle payload message) :
    Sound pickle { state with payload, refs, hand := state.hand ++ [message] } := by
  have hperm := hand_perm pickle state message
  have hnodup : ((message.parked pickle).toList ++ state.parked pickle).Nodup := by
    cases hparked : message.parked pickle with
    | none => exact h.nodup
    | some block => exact List.nodup_cons.mpr ⟨(hfresh block hparked).1, h.nodup⟩
  refine ⟨hcounted.perm (hperm.append_right _), hperm.nodup_iff.mpr hnodup, ?_, ?_, h.ordered, h.raised⟩
  · intro block hmem
    rcases List.mem_append.mp (hperm.mem_iff.mp hmem) with hnew | hold
    · exact (hfresh block (Option.mem_toList.mp hnew)).2
    · exact h.apart block hold
  · intro other hmem
    simp only [State.messages, List.mem_append, List.mem_singleton] at hmem
    rcases hmem with (hhand | rfl) | hqueue
    · exact hholds other (List.mem_append_left _ hhand)
    · exact hself
    · exact hholds other (List.mem_append_right _ hqueue)

/-- `encode` makes the pickle of its object, or parks it in a block that was free. -/
theorem sound_encode (hpickle : pickle.Sound) (h : Sound pickle state) (object : Object) {answer : Option ℕ}
    (hfree : ∀ block ∈ answer, state.refs block = 0) :
    Sound pickle { (encode pickle spillAt hasStore state object answer).1 with
      hand := (encode pickle spillAt hasStore state object answer).1.hand ++
        [(encode pickle spillAt hasStore state object answer).2] } := by
  have plain (disk : Bool) :
      Sound pickle { state with hand := state.hand ++ [⟨pickle.dumps (.object object), disk, object⟩] } := by
    have hparked : Message.parked pickle ⟨pickle.dumps (.object object), disk, object⟩ = none :=
      parked_of_plain hpickle rfl
    apply h.encoded
    · rw [hparked]
      exact h.counted
    · rw [hparked]
      exact fun _ hmem ↦ absurd hmem (Option.not_mem_none _)
    · exact h.holds
    · exact .plain rfl
  unfold encode
  dsimp only
  split
  · cases answer with
    | none => exact plain true
    | some block =>
      have hzero := hfree block rfl
      obtain ⟨hnotParked, hnotHeld⟩ := h.free hzero
      have hparked : Message.parked pickle ⟨spilled :: pickle.dumps (.call block), false, object⟩ = some block :=
        parked_of_spilled hpickle rfl
      apply h.encoded
      · rw [hparked]
        exact h.counted.first hzero
      · rw [hparked]
        rintro other hmem
        cases Option.mem_some_iff.mp hmem
        exact ⟨hnotParked, hnotHeld⟩
      · exact fun other hmem ↦ (h.holds other hmem).update hpickle hmem hnotParked _
      · refine .parked block rfl ?_
        show (Function.update state.payload block _ block).data = _
        rw [Function.update_self]
        exact Memory.read_copy _ _ _
  · exact plain false

/-- What every step preserves. -/
theorem sound_step (hpickle : pickle.Sound) (h : Sound pickle state) {action : Action Object}
    (hstep : step pickle spillAt hasStore state action = some next) : Sound pickle next := by
  cases action with
  | encode object answer =>
    simp only [step, Option.ite_none_right_eq_some] at hstep
    obtain ⟨hfree, hnext⟩ := hstep
    cases hnext
    apply sound_encode hpickle h
    rintro block rfl
    exact of_decide_eq_true hfree
  | put place =>
    obtain ⟨message, hplace, hnext⟩ := Option.bind_eq_some_iff.mp hstep
    cases hnext
    exact sound_put h hplace
  | get =>
    simp only [step] at hstep
    split at hstep
    · cases hstep
    · cases hstep
      exact sound_get hpickle h ‹_›
  | alloc block length =>
    simp only [step, Option.ite_none_right_eq_some] at hstep
    cases hstep.2
    exact sound_alloc hpickle h hstep.1 _
  | write block address bytes =>
    simp only [step, Option.ite_none_right_eq_some] at hstep
    cases hstep.2
    exact sound_write hpickle h hstep.1 _
  | share block =>
    simp only [step, Option.ite_none_right_eq_some] at hstep
    cases hstep.2
    exact sound_share h hstep.1
  | free block =>
    simp only [step, Option.ite_none_right_eq_some] at hstep
    cases hstep.2
    exact sound_free h hstep.1

/-- What is got is what was put, in that order, however it went and whatever others do with the store in the
meantime: nothing fails to load. Once every message is read, only others refer to blocks. -/
theorem got_what_was_put (hpickle : pickle.Sound) (h : (machine pickle spillAt hasStore).Reachable state) :
    state.raised = 0 ∧ state.sent = state.got ++ state.queue.map Message.object ∧
      (state.hand = [] → state.queue = [] → ∀ block, state.refs block = state.held.count block) := by
  have hsound : Sound pickle state :=
    h.invariant (Sound pickle) sound_start fun _ _ _ hstate hstep ↦ sound_step hpickle hstate hstep
  refine ⟨hsound.raised, hsound.ordered, ?_⟩
  intro hhand hqueue block
  have hcounted := hsound.counted block
  rwa [State.parked, State.messages, hhand, hqueue] at hcounted

end Sound

/-- Pickles of byte strings: the protocol, an opcode, and the bytes or a number in unary. -/
def bytesPickle : Pickle Bytes where
  dumps
    | .object object => 0x80 :: 0x43 :: object
    | .call block => 0x80 :: 0x63 :: List.replicate block 1
  loads
    | 0x80 :: 0x43 :: object => some (.object object)
    | 0x80 :: 0x63 :: rest => some (.call rest.length)
    | _ => none

theorem bytesPickle_sound : bytesPickle.Sound where
  loads_dumps value := by
    cases value with
    | object object => rfl
    | call block =>
      show some (Value.call (List.replicate block (1 : UInt8)).length) = _
      rw [List.length_replicate]
  proto value := by cases value <;> rfl

/-- Five bytes are parked in block 3 while another process fills block 9. -/
def parkedRun : List (Action Bytes) :=
  [.alloc 9 4, .encode [1, 2, 3, 4, 5] (some 3), .write 9 0 [7, 7, 7, 7], .encode [6] none, .put 0, .put 0, .share 9,
    .get, .free 9, .get]

/-- One object goes through a block and one as it is. -/
theorem got_what_was_put_parkedRun : ∃ state,
    (machine bytesPickle 4 true).runFrom (start Bytes) parkedRun = some state ∧
      state.got = [[1, 2, 3, 4, 5], [6]] ∧ state.refs 3 = 0 ∧ state.refs 9 = 1 ∧ state.raised = 0 ∧
      state.sent = state.got ++ state.queue.map Message.object := by
  have hrun : ((machine bytesPickle 4 true).runFrom (start Bytes) parkedRun).any
      (fun state ↦ state.got = [[1, 2, 3, 4, 5], [6]] ∧ state.refs 3 = 0 ∧ state.refs 9 = 1) = true := by
    decide +kernel
  obtain ⟨state, hstate, hgot⟩ := (Option.any_eq_true _ _).mp hrun
  obtain ⟨hread, hthree, hnine⟩ := of_decide_eq_true hgot
  obtain ⟨hraised, hsent, -⟩ := got_what_was_put bytesPickle_sound ⟨_, hstate⟩
  exact ⟨state, hstate, hread, hthree, hnine, hraised, hsent⟩

end GpuPipe.Wire
