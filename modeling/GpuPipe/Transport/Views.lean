import GpuPipe.Library.Machine
import GpuPipe.Library.References
import GpuPipe.Library.Strided

/-!
# Arrays by handle

Which arrays travel in the payload store. An array of at least `STORE_MIN_BYTES` that is put on a queue is copied
into a block of the queue's store once; the message carries the block and the view, and whoever gets it looks at the
block itself, read-only. A view of such a block that is put again is sent as it is. Blocks are counted across the
processes, and the store hands out those that nobody refers to. Whether numpy builds an array of this view on a
buffer of that length is a parameter.
-/

namespace GpuPipe.Views

structure Key where
  store : ℕ
  block : ℕ
  deriving DecidableEq

structure Buffer where
  length : ℕ
  bytes : Memory

instance : Inhabited Buffer := ⟨⟨0, fun _ ↦ 0⟩⟩

def Buffer.write (buffer : Buffer) (address : ℕ) (bytes : Bytes) : Buffer :=
  { buffer with bytes := buffer.bytes.applyStores (Memory.copyStores address bytes) }

/-- What the chain of bases of an array ends in: memory of its process, or a `Block` object of it. -/
inductive Base
  | own (buffer : ℕ)
  | block (object : ℕ) (key : Key)
  deriving DecidableEq

/-- Shape and elements of an array, as its reader sees them. -/
structure Value where
  itemsize : ℕ
  shape : List ℕ
  elements : List Bytes

def value (view : View) (memory : Memory) : Value := ⟨view.itemsize, view.shape, view.contents memory⟩

structure Ndarray where
  base : Base
  view : View
  hasobject : Bool
  writeable : Bool
  /-- What an array on a block stands for. An array that was got stands for the one that was put. -/
  meant : Option Value

/-- The arguments of `_rebuild_ndarray`, and the array that was put. -/
structure Handle where
  key : Key
  view : View
  hasobject : Bool
  sent : Value

structure State where
  buffers : List Buffer
  payload : Key → Buffer
  refs : Key → ℕ
  /-- The `Block` objects of all processes, and `none` for one that is gone. -/
  objects : List (Option Key)
  arrays : List (Option Ndarray)
  messages : List (Option Handle)
  /-- How many `_rebuild_ndarray` raised. -/
  raised : ℕ

inductive Action
  | make (buffer : Buffer) (view : View) (hasobject writeable : Bool)
  | write (array : ℕ) (index : List ℕ) (bytes : Bytes)
  | slice (array : ℕ) (view : View) (writeable : Bool)
  | drop (array : ℕ)
  | collect (object : ℕ)
  | put (array store : ℕ) (got : Option ℕ)
  | get (message : ℕ)

def Ndarray.on (object : ℕ) (array : Ndarray) : Bool :=
  match array.base with
  | .own _ => false
  | .block other _ => other == object

def ndarrayBlock (array : Ndarray) : Option Key :=
  match array.base with
  | .own _ => none
  | .block _ key => some key

namespace State

def buffer (state : State) : Base → Buffer
  | .own buffer => state.buffers[buffer]?.getD default
  | .block _ key => state.payload key

def valueOf (state : State) (array : Ndarray) : Value := value array.view (state.buffer array.base).bytes

def make (state : State) (buffer : Buffer) (view : View) (hasobject writeable : Bool) : State :=
  { state with
    buffers := state.buffers ++ [buffer]
    arrays := state.arrays ++ [some ⟨.own state.buffers.length, view, hasobject, writeable, none⟩] }

def write (state : State) (array : Ndarray) (index : List ℕ) (bytes : Bytes) : State :=
  match array.base with
  | .own buffer =>
    { state with
      buffers := state.buffers.modify buffer fun buffer ↦ buffer.write (array.view.address index) bytes }
  | .block _ key =>
    { state with
      payload := Function.update state.payload key
        ((state.payload key).write (array.view.address index) bytes) }

def slice (state : State) (array : Ndarray) (view : View) (writeable : Bool) : State :=
  let meant := (ndarrayBlock array).map fun _ ↦ value view (state.buffer array.base).bytes
  { state with
    arrays := state.arrays ++ [some { array with view, writeable := array.writeable && writeable, meant }] }

def share (state : State) (key : Key) : State :=
  { state with refs := References.retain state.refs key }

/-- The last use of a reference. -/
def release (state : State) (key : Key) : State :=
  { state with refs := References.release state.refs key }

/-- A fresh block holds a row-major copy of the array. -/
def copy (state : State) (array : Ndarray) (key : Key) : State :=
  let dst := View.rowMajor array.view.itemsize array.view.shape
  let buffer : Buffer :=
    ⟨array.view.nbytes, dst.copyTo (state.payload key).bytes (array.view.element (state.buffer array.base).bytes)⟩
  { state with
    payload := Function.update state.payload key buffer
    refs := Function.update state.refs key 1 }

end State

variable (accepts : ℕ → View → Bool) (storeMinBytes : ℕ)

/-- `reduce_ndarray` onto a queue of `store`, whose `alloc` answers `got`. -/
def reduceNdarray (state : State) (array : Ndarray) (store : ℕ) (got : Option ℕ) :
    Option (State × Key × View) :=
  if array.view.nbytes < storeMinBytes || array.hasobject then none
  else
    match (ndarrayBlock array).filter fun key ↦
      key.store == store && accepts (state.payload key).length array.view with
    | some key => some (state.share key, key, array.view)
    | none => got.map fun block ↦
      -- the block object of the copy goes once the message holds a reference
      (((state.copy array ⟨store, block⟩).share ⟨store, block⟩).release ⟨store, block⟩, ⟨store, block⟩,
        View.rowMajor array.view.itemsize array.view.shape)

/-- An array that is not sent by handle is pickled, which is none of the store's business. -/
def put (state : State) (array : Ndarray) (store : ℕ) (got : Option ℕ) : State :=
  match reduceNdarray accepts storeMinBytes state array store got with
  | none => state
  | some (after, key, view) =>
    { after with messages := after.messages ++ [some ⟨key, view, array.hasobject, state.valueOf array⟩] }

/-- `_rebuild_ndarray`: the adopted block takes over the message's reference. -/
def rebuildNdarray (state : State) (handle : Handle) : State :=
  if accepts (state.payload handle.key).length handle.view then
    { state with
      objects := state.objects ++ [some handle.key]
      arrays := state.arrays ++ [some
        ⟨.block state.objects.length handle.key, handle.view, handle.hasobject, false, some handle.sent⟩] }
  else { state.release handle.key with raised := state.raised + 1 }

def start : State := ⟨[], fun _ ↦ default, fun _ ↦ 0, [], [], [], 0⟩

def step (state : State) : Action → Option State
  | .make buffer view hasobject writeable =>
    if view.Inside buffer.length then some (state.make buffer view hasobject writeable) else none
  | .write place index bytes => do
    let array ← state.arrays[place]?.join
    if array.writeable && index ∈ indices array.view.shape && bytes.length = array.view.itemsize then
      some (state.write array index bytes)
    else none
  | .slice place view writeable => do
    let array ← state.arrays[place]?.join
    if view.Inside (state.buffer array.base).length then some (state.slice array view writeable) else none
  | .drop place => some { state with arrays := state.arrays.set place none }
  | .collect object => do
    let key ← state.objects[object]?.join
    if state.arrays.any fun array ↦ array.any (Ndarray.on object) then none
    else some { state.release key with objects := state.objects.set object none }
  | .put place store got => do
    let array ← state.arrays[place]?.join
    if got.all fun block ↦ state.refs ⟨store, block⟩ = 0 then some (put accepts storeMinBytes state array store got)
    else none
  | .get place => do
    let handle ← state.messages[place]?.join
    some (rebuildNdarray accepts { state with messages := state.messages.set place none } handle)

def machine : Machine State Action := ⟨start, step accepts storeMinBytes⟩

/-! ## References -/

/-- The blocks that `Block` objects and messages refer to. -/
def State.holders (state : State) : List Key :=
  state.objects.reduceOption ++ state.messages.reduceOption.map Handle.key

theorem holder_of_object {state : State} {object : ℕ} {key : Key} (h : state.objects[object]? = some (some key)) :
    key ∈ state.holders :=
  List.mem_append_left _ (List.reduceOption_mem_iff.mpr (List.mem_of_getElem? h))

theorem holder_of_message {state : State} {handle : Handle} (h : some handle ∈ state.messages) :
    handle.key ∈ state.holders :=
  List.mem_append_right _ (List.mem_map.mpr ⟨handle, List.reduceOption_mem_iff.mpr h, rfl⟩)

/-! ## What an array stands for -/

/-- An array on a block is read-only, lies in the block and shows what it stands for. -/
def Ndarray.Faithful (state : State) (array : Ndarray) : Prop :=
  match array.base with
  | .own _ => array.meant = none
  | .block object key =>
    state.objects[object]? = some (some key) ∧ array.writeable = false ∧
      array.view.Inside (state.payload key).length ∧
      array.meant = some (value array.view (state.payload key).bytes)

def Handle.Faithful (state : State) (handle : Handle) : Prop :=
  handle.view.Inside (state.payload handle.key).length ∧
    value handle.view (state.payload handle.key).bytes = handle.sent

/-- A step keeps the blocks that anyone refers to, and the `Block` objects that have arrays. -/
structure Keeps (state next : State) : Prop where
  payload : ∀ key ∈ state.holders, next.payload key = state.payload key
  objects : ∀ array object key, some array ∈ next.arrays → array.on object = true →
    state.objects[object]? = some (some key) → next.objects[object]? = some (some key)

theorem Ndarray.Faithful.keep {state next : State} {array : Ndarray} (h : array.Faithful state)
    (hkeeps : Keeps state next) (hmem : some array ∈ next.arrays) : array.Faithful next := by
  unfold Ndarray.Faithful at h ⊢
  cases hbase : array.base with
  | own buffer =>
    rw [hbase] at h
    exact h
  | block object key =>
    rw [hbase] at h
    obtain ⟨hobject, hreadOnly, hinside, hmeant⟩ := h
    have hpayload := hkeeps.payload key (holder_of_object hobject)
    have hon : array.on object = true := by
      rw [Ndarray.on, hbase]
      exact beq_self_eq_true object
    show next.objects[object]? = _ ∧ _
    rw [hpayload]
    exact ⟨hkeeps.objects array object key hmem hon hobject, hreadOnly, hinside, hmeant⟩

theorem Handle.Faithful.keep {state next : State} {handle : Handle} (h : handle.Faithful state)
    (hkeeps : Keeps state next) (hmem : some handle ∈ state.messages) : handle.Faithful next := by
  unfold Handle.Faithful at h ⊢
  rw [hkeeps.payload handle.key (holder_of_message hmem)]
  exact h

structure Sound (state : State) : Prop where
  counted : References.Counts state.refs state.holders
  arrays : ∀ array, some array ∈ state.arrays → array.Faithful state
  messages : ∀ handle, some handle ∈ state.messages → handle.Faithful state
  raised : state.raised = 0

/-- A step that keeps the blocks in use keeps what arrays and messages show. -/
theorem Sound.of_keeps {state next : State} (h : Sound state) (hkeeps : Keeps state next)
    (hcounted : References.Counts next.refs next.holders)
    (harrays : ∀ array, some array ∈ next.arrays → some array ∈ state.arrays ∨ array.Faithful next)
    (hmessages : ∀ handle, some handle ∈ next.messages → some handle ∈ state.messages ∨ handle.Faithful next)
    (hraised : next.raised = state.raised) : Sound next where
  counted := hcounted
  arrays array hmem := by
    rcases harrays array hmem with hold | hnew
    · exact (h.arrays array hold).keep hkeeps hmem
    · exact hnew
  messages handle hmem := by
    rcases hmessages handle hmem with hold | hnew
    · exact (h.messages handle hold).keep hkeeps hold
    · exact hnew
  raised := hraised.trans h.raised

theorem mem_of_join {α : Type*} {entries : List (Option α)} {place : ℕ} {entry : α}
    (h : entries[place]?.join = some entry) : some entry ∈ entries :=
  List.mem_of_getElem? (Option.join_eq_some_iff.mp h)

theorem mem_append_some {α : Type*} {entries : List (Option α)} {last entry : α}
    (h : some entry ∈ entries ++ [some last]) : some entry ∈ entries ∨ entry = last := by
  rw [List.mem_append, List.mem_singleton, Option.some_inj] at h
  exact h

variable {accepts : ℕ → View → Bool} {storeMinBytes : ℕ} {state next : State} {array : Ndarray}

theorem Ndarray.Faithful.block {key : Key} (h : array.Faithful state) (hblock : ndarrayBlock array = some key) :
    array.writeable = false ∧ array.view.Inside (state.payload key).length := by
  unfold ndarrayBlock at hblock
  unfold Ndarray.Faithful at h
  cases hbase : array.base with
  | own buffer =>
    rw [hbase] at hblock
    cases hblock
  | block object other =>
    rw [hbase] at hblock h
    cases hblock
    exact ⟨h.2.1, h.2.2.1⟩

/-- Only arrays of the process's own memory are written to. -/
theorem Ndarray.Faithful.exists_own (h : array.Faithful state) (hwriteable : array.writeable = true) :
    ∃ buffer, array.base = .own buffer := by
  cases hbase : array.base with
  | own buffer => exact ⟨buffer, rfl⟩
  | block object key =>
    have hblock : ndarrayBlock array = some key := by rw [ndarrayBlock, hbase]
    rw [(h.block hblock).1] at hwriteable
    cases hwriteable

/-- For the steps that leave blocks, references and messages alone. -/
theorem sound_arrays (h : Sound state) {arrays : List (Option Ndarray)} {buffers : List Buffer}
    (harrays : ∀ array, some array ∈ arrays → some array ∈ state.arrays ∨
      array.Faithful { state with buffers, arrays }) : Sound { state with buffers, arrays } := by
  have hkeeps : Keeps state { state with buffers, arrays } := ⟨fun _ _ ↦ rfl, fun _ _ _ _ _ hobject ↦ hobject⟩
  exact h.of_keeps hkeeps h.counted harrays (fun _ hmem ↦ .inl hmem) rfl

theorem sound_make (h : Sound state) (buffer : Buffer) (view : View) (hasobject writeable : Bool) :
    Sound (state.make buffer view hasobject writeable) := by
  apply sound_arrays h
  intro array hmem
  rcases mem_append_some hmem with hold | rfl
  · exact .inl hold
  · exact .inr rfl

/-- A write goes to memory of its own process, which no block is. -/
theorem sound_write (h : Sound state) (harray : array.Faithful state) (hwriteable : array.writeable = true)
    (index : List ℕ) (bytes : Bytes) : Sound (state.write array index bytes) := by
  obtain ⟨buffer, hbase⟩ := harray.exists_own hwriteable
  rw [State.write, hbase]
  exact sound_arrays h fun _ hmem ↦ .inl hmem

theorem sound_slice (h : Sound state) (harray : array.Faithful state) {view : View}
    (hinside : view.Inside (state.buffer array.base).length) (writeable : Bool) :
    Sound (state.slice array view writeable) := by
  apply sound_arrays h
  intro other hmem
  rcases mem_append_some hmem with hold | rfl
  · exact .inl hold
  · right
    unfold Ndarray.Faithful at harray ⊢
    cases hbase : array.base with
    | own buffer =>
      simp only [ndarrayBlock, hbase]
      rfl
    | block object key =>
      rw [hbase] at harray hinside
      obtain ⟨hobject, hreadOnly, -, -⟩ := harray
      simp only [ndarrayBlock, hbase, hreadOnly]
      exact ⟨hobject, rfl, hinside, rfl⟩

theorem sound_drop (h : Sound state) (place : ℕ) : Sound { state with arrays := state.arrays.set place none } :=
  sound_arrays h fun _ hmem ↦ .inl (mem_of_set_none hmem)

theorem sound_collect (h : Sound state) {object : ℕ} {key : Key}
    (hobject : state.objects[object]? = some (some key))
    (hunused : ∀ array, some array ∈ state.arrays → array.on object = false) :
    Sound { state.release key with objects := state.objects.set object none } := by
  refine h.of_keeps ⟨fun _ _ ↦ rfl, ?_⟩ ?_ (fun _ hmem ↦ .inl hmem) (fun _ hmem ↦ .inl hmem) rfl
  · intro array other otherKey hmem hon hother
    have hne : object ≠ other := by
      rintro rfl
      rw [hunused array hmem] at hon
      cases hon
    exact (List.getElem?_set_ne hne).trans hother
  · exact (h.counted.perm ((reduceOption_set_none hobject).symm.append_right _)).release

/-- A message is taken: its reference is still counted, and nobody holds it. -/
theorem sound_get (hnumpy : ∀ length view, accepts length view = true ↔ view.Inside length) (h : Sound state)
    {place : ℕ} {handle : Handle} (hplace : state.messages[place]? = some (some handle)) :
    Sound (rebuildNdarray accepts { state with messages := state.messages.set place none } handle) := by
  have hmem := List.mem_of_getElem? hplace
  obtain ⟨hinside, hsent⟩ := h.messages handle hmem
  rw [rebuildNdarray, if_pos ((hnumpy _ _).mpr hinside)]
  refine h.of_keeps ⟨fun _ _ ↦ rfl, ?_⟩ ?_ ?_ ?_ rfl
  · intro array object key _ _ hobject
    exact (List.getElem?_append_left (List.getElem?_eq_some_iff.mp hobject).1).trans hobject
  · have hgone := ((reduceOption_set_none hplace).map Handle.key).append_left state.objects.reduceOption
    apply h.counted.perm
    show ((state.objects ++ [some handle.key]).reduceOption ++
      (state.messages.set place none).reduceOption.map Handle.key).Perm _
    rw [reduceOption_append_some, List.append_assoc, List.singleton_append]
    exact hgone.symm
  · intro array hmem'
    rcases mem_append_some hmem' with hold | rfl
    · exact .inl hold
    · right
      refine ⟨?_, rfl, hinside, congrArg some hsent.symm⟩
      exact List.getElem?_concat_length
  · exact fun _ hmem' ↦ .inl (mem_of_set_none hmem')

/-! ## Putting an array -/

/-- A block is named again, or a fresh one holds a copy. -/
theorem reduceNdarray_cases {store : ℕ} {got : Option ℕ} {after : State} {key : Key} {view : View}
    (h : reduceNdarray accepts storeMinBytes state array store got = some (after, key, view)) :
    (ndarrayBlock array = some key ∧ accepts (state.payload key).length view = true ∧ view = array.view ∧
      after = state.share key) ∨
    (got = some key.block ∧ key.store = store ∧ view = View.rowMajor array.view.itemsize array.view.shape ∧
      after = state.copy array key) := by
  unfold reduceNdarray at h
  split at h
  · cases h
  · split at h
    · cases h
      obtain ⟨hblock, hfits⟩ := Option.filter_eq_some_iff.mp ‹_›
      exact .inl ⟨hblock, (Bool.and_eq_true_iff.mp hfits).2, rfl, rfl⟩
    · obtain ⟨block, rfl, hafter⟩ := Option.map_eq_some_iff.mp h
      cases hafter
      refine .inr ⟨rfl, rfl, rfl, ?_⟩
      simp [State.share, State.release, State.copy]

theorem valueOf_block (state : State) {key : Key} (hblock : ndarrayBlock array = some key) :
    state.valueOf array = value array.view (state.payload key).bytes := by
  unfold ndarrayBlock at hblock
  rw [State.valueOf]
  cases hbase : array.base with
  | own buffer =>
    rw [hbase] at hblock
    cases hblock
  | block object other =>
    rw [hbase] at hblock
    cases hblock
    rfl

/-- The copy shows what the array shows. -/
theorem value_copy (state : State) (array : Ndarray) (key : Key) :
    value (View.rowMajor array.view.itemsize array.view.shape) ((state.copy array key).payload key).bytes =
      state.valueOf array := by
  have hlength (index : List ℕ) (_ : Within index array.view.shape) :=
    View.element_length array.view (state.buffer array.base).bytes index
  unfold value
  simp only [State.copy, Function.update_self]
  rw [View.contents_copyTo hlength]
  rfl

theorem sound_message (h : Sound state) {after : State} {handle : Handle} (hkeeps : Keeps state after)
    (hsame : after.objects = state.objects ∧ after.arrays = state.arrays ∧ after.messages = state.messages ∧
      after.raised = state.raised)
    (hrefs : References.Counts after.refs (handle.key :: state.holders))
    (hfaithful : handle.Faithful after) :
    Sound { after with messages := after.messages ++ [some handle] } := by
  obtain ⟨hobjects, harrays, hmessages, hraised⟩ := hsame
  refine h.of_keeps ⟨hkeeps.payload, hkeeps.objects⟩ ?_ ?_ ?_ hraised
  · apply hrefs.perm
    show (after.objects.reduceOption ++ (after.messages ++ [some handle]).reduceOption.map Handle.key).Perm _
    rw [hobjects, hmessages, reduceOption_append_some, List.map_append, ← List.append_assoc]
    exact List.perm_append_singleton _ _
  · intro array hmem
    rw [harrays] at hmem
    exact .inl hmem
  · intro other hmem
    rw [hmessages] at hmem
    rcases mem_append_some hmem with hold | rfl
    · exact .inl hold
    · exact .inr hfaithful

theorem put_some {store : ℕ} {got : Option ℕ} {after : State} {key : Key} {view : View}
    (h : reduceNdarray accepts storeMinBytes state array store got = some (after, key, view)) :
    put accepts storeMinBytes state array store got =
      { after with messages := after.messages ++ [some ⟨key, view, array.hasobject, state.valueOf array⟩] } := by
  rw [put, h]

theorem copy_keeps (h : Sound state) {key : Key} (hfree : state.refs key = 0) : Keeps state (state.copy array key) where
  payload other hmem := by
    have hne : other ≠ key := by
      rintro rfl
      exact h.counted.notMem hfree hmem
    exact Function.update_of_ne hne _ _
  objects _ _ _ _ _ hobject := hobject

/-- A put shares the block of its array or copies the array to a block that was free. -/
theorem sound_put (hnumpy : ∀ length view, accepts length view = true ↔ view.Inside length) (h : Sound state)
    {store : ℕ} {got : Option ℕ} (hfree : ∀ block, got = some block → state.refs ⟨store, block⟩ = 0) :
    Sound (put accepts storeMinBytes state array store got) := by
  cases hreduce : reduceNdarray accepts storeMinBytes state array store got with
  | none =>
    rw [put, hreduce]
    exact h
  | some sent =>
    obtain ⟨after, key, view⟩ := sent
    rw [put_some hreduce]
    rcases reduceNdarray_cases hreduce with ⟨hblock, hfits, rfl, rfl⟩ | ⟨hgot, rfl, rfl, rfl⟩
    · have hkeeps : Keeps state (state.share key) := ⟨fun _ _ ↦ rfl, fun _ _ _ _ _ hobject ↦ hobject⟩
      refine sound_message h hkeeps ⟨rfl, rfl, rfl, rfl⟩ ?_ ?_
      · exact h.counted.retain key
      · exact ⟨(hnumpy _ _).mp hfits, (valueOf_block state hblock).symm⟩
    · have hzero : state.refs key = 0 := hfree key.block hgot
      refine sound_message h (copy_keeps h hzero) ⟨rfl, rfl, rfl, rfl⟩ ?_ ?_
      · exact h.counted.first hzero
      · refine ⟨?_, value_copy state array key⟩
        simp only [State.copy, Function.update_self]
        exact View.rowMajor_inside

/-! ## Runs -/

theorem sound_start : Sound start where
  counted := References.counts_nil
  arrays _ hmem := absurd hmem List.not_mem_nil
  messages _ hmem := absurd hmem List.not_mem_nil
  raised := rfl

/-- What every step preserves. -/
theorem sound_step (hnumpy : ∀ length view, accepts length view = true ↔ view.Inside length) {action : Action}
    (h : Sound state) (hstep : step accepts storeMinBytes state action = some next) : Sound next := by
  cases action with
  | make buffer view hasobject writeable =>
    rw [step, Option.ite_none_right_eq_some] at hstep
    cases hstep.2
    exact sound_make h buffer view hasobject writeable
  | write place index bytes =>
    obtain ⟨array, harray, hstep⟩ := Option.bind_eq_some_iff.mp hstep
    rw [Option.ite_none_right_eq_some] at hstep
    obtain ⟨hguard, hstep⟩ := hstep
    cases hstep
    have hwriteable := (Bool.and_eq_true_iff.mp (Bool.and_eq_true_iff.mp hguard).1).1
    exact sound_write h (h.arrays array (mem_of_join harray)) hwriteable index bytes
  | slice place view writeable =>
    obtain ⟨array, harray, hstep⟩ := Option.bind_eq_some_iff.mp hstep
    rw [Option.ite_none_right_eq_some] at hstep
    obtain ⟨hinside, hstep⟩ := hstep
    cases hstep
    exact sound_slice h (h.arrays array (mem_of_join harray)) hinside writeable
  | drop place =>
    cases hstep
    exact sound_drop h place
  | collect object =>
    obtain ⟨key, hkey, hstep⟩ := Option.bind_eq_some_iff.mp hstep
    rw [Option.ite_none_left_eq_some] at hstep
    obtain ⟨hunused, hstep⟩ := hstep
    cases hstep
    apply sound_collect h (Option.join_eq_some_iff.mp hkey)
    intro array hmem
    rw [List.any_eq_true] at hunused
    exact Bool.eq_false_iff.mpr fun hon ↦ hunused ⟨some array, hmem, hon⟩
  | put place store got =>
    obtain ⟨array, harray, hstep⟩ := Option.bind_eq_some_iff.mp hstep
    rw [Option.ite_none_right_eq_some] at hstep
    obtain ⟨hfree, hstep⟩ := hstep
    cases hstep
    apply sound_put hnumpy h
    rintro block rfl
    exact of_decide_eq_true hfree
  | get place =>
    obtain ⟨handle, hhandle, hstep⟩ := Option.bind_eq_some_iff.mp hstep
    cases hstep
    exact sound_get hnumpy h (Option.join_eq_some_iff.mp hhandle)

/-- In every reachable state arrays on blocks show what was put. -/
theorem sound (hnumpy : ∀ length view, accepts length view = true ↔ view.Inside length)
    (h : (machine accepts storeMinBytes).Reachable state) : Sound state :=
  h.invariant Sound sound_start fun _ _ _ hstate hstep ↦ sound_step hnumpy hstate hstep

/-- What was put is what is got: while messages are on their way and arrays are looked at, written to, sliced,
dropped and put on, and blocks are used again, a message shows what its sender put and every array on a block is
read-only and shows what it stands for. No array fails to be rebuilt. -/
theorem arrays_arrive_unchanged (hnumpy : ∀ length view, accepts length view = true ↔ view.Inside length)
    (h : (machine accepts storeMinBytes).Reachable state) :
    state.raised = 0 ∧
      (∀ handle, some handle ∈ state.messages →
        value handle.view (state.payload handle.key).bytes = handle.sent) ∧
      ∀ array meant, some array ∈ state.arrays → array.meant = some meant →
        state.valueOf array = meant ∧ array.writeable = false := by
  have hsound := sound hnumpy h
  refine ⟨hsound.raised, fun handle hmem ↦ (hsound.messages handle hmem).2, ?_⟩
  intro array meant hmem hmeant
  have harray := hsound.arrays array hmem
  unfold Ndarray.Faithful at harray
  cases hbase : array.base with
  | own buffer =>
    rw [hbase] at harray
    rw [harray] at hmeant
    cases hmeant
  | block object key =>
    rw [hbase] at harray
    obtain ⟨-, hreadOnly, -, hshown⟩ := harray
    rw [hmeant] at hshown
    refine ⟨?_, hreadOnly⟩
    rw [State.valueOf, hbase]
    exact (Option.some.inj hshown).symm

def fits (length : ℕ) (view : View) : Bool := view.Inside length

/-- Two rows of two bytes are put; their owner changes one before they are got. -/
def firstHop : List Action :=
  [.make ⟨4, fun _ ↦ 7⟩ (View.rowMajor 1 [2, 2]) false true, .put 0 1 (some 4), .write 0 [1, 0] [9], .get 0]

/-- One column, bottom up, is put onward. -/
def secondHop : List Action := [.slice 1 ⟨1, [2], [-2], 2⟩ false, .put 2 1 none, .get 1]

/-- The owner of an array changes it after the put, and the reader gets it as it was. -/
theorem arrays_arrive_unchanged_firstHop : ∃ state,
    (machine fits 2).runFrom start firstHop = some state ∧
      state.arrays[1]?.join.map (fun array ↦ (state.valueOf array).elements) = some [[7], [7], [7], [7]] ∧
      ∀ array meant, some array ∈ state.arrays → array.meant = some meant →
        state.valueOf array = meant ∧ array.writeable = false := by
  have hrun : (((machine fits 2).runFrom start firstHop).any fun state ↦
      state.arrays[1]?.join.map (fun array ↦ (state.valueOf array).elements) == some [[7], [7], [7], [7]]) = true := by
    decide +kernel
  obtain ⟨state, hfirst, helements⟩ := (Option.any_eq_true _ _).mp hrun
  have harrive := arrays_arrive_unchanged (fun _ _ ↦ decide_eq_true_iff) ⟨_, hfirst⟩
  exact ⟨state, hfirst, beq_iff_eq.mp helements, harrive.2.2⟩

/-! ## Later hops -/

/-- The array is on a block of the queue's own store. -/
def resent (state : State) : Action → Bool
  | .put place store _ => (state.arrays[place]?.join.bind ndarrayBlock).any fun key ↦ key.store == store
  | _ => true

/-- Such an array is pickled or goes as it is. -/
theorem reduceNdarray_of_block (hnumpy : ∀ length view, accepts length view = true ↔ view.Inside length)
    (harray : array.Faithful state) {key : Key} (hblock : ndarrayBlock array = some key) (got : Option ℕ) :
    reduceNdarray accepts storeMinBytes state array key.store got =
      if array.view.nbytes < storeMinBytes || array.hasobject then none
      else some (state.share key, key, array.view) := by
  have hfits : accepts (state.payload key).length array.view = true := (hnumpy _ _).mpr (harray.block hblock).2
  simp [reduceNdarray, hblock, Option.filter, hfits]

theorem payload_write (harray : array.Faithful state) (hwriteable : array.writeable = true) (index : List ℕ)
    (bytes : Bytes) : (state.write array index bytes).payload = state.payload := by
  obtain ⟨buffer, hbase⟩ := harray.exists_own hwriteable
  rw [State.write, hbase]

/-- A step of a run in which only arrays on blocks are put writes to no block. -/
theorem payload_step (hnumpy : ∀ length view, accepts length view = true ↔ view.Inside length) {action : Action}
    (h : Sound state) (hresent : resent state action = true)
    (hstep : step accepts storeMinBytes state action = some next) : next.payload = state.payload := by
  cases action with
  | make buffer view hasobject writeable =>
    rw [step, Option.ite_none_right_eq_some] at hstep
    cases hstep.2
    rfl
  | write place index bytes =>
    obtain ⟨array, harray, hstep⟩ := Option.bind_eq_some_iff.mp hstep
    rw [Option.ite_none_right_eq_some] at hstep
    obtain ⟨hguard, hstep⟩ := hstep
    cases hstep
    have hwriteable := (Bool.and_eq_true_iff.mp (Bool.and_eq_true_iff.mp hguard).1).1
    exact payload_write (h.arrays array (mem_of_join harray)) hwriteable index bytes
  | slice place view writeable =>
    obtain ⟨array, harray, hstep⟩ := Option.bind_eq_some_iff.mp hstep
    rw [Option.ite_none_right_eq_some] at hstep
    cases hstep.2
    rfl
  | drop place =>
    cases hstep
    rfl
  | collect object =>
    obtain ⟨key, hkey, hstep⟩ := Option.bind_eq_some_iff.mp hstep
    rw [Option.ite_none_left_eq_some] at hstep
    cases hstep.2
    rfl
  | put place store got =>
    obtain ⟨array, harray, hstep⟩ := Option.bind_eq_some_iff.mp hstep
    rw [Option.ite_none_right_eq_some] at hstep
    cases hstep.2
    rw [resent, harray, Option.bind_some, Option.any_eq_true] at hresent
    obtain ⟨key, hblock, hstore⟩ := hresent
    have hfaithful := h.arrays array (mem_of_join harray)
    rw [← beq_iff_eq.mp hstore, put, reduceNdarray_of_block hnumpy hfaithful hblock]
    split_ifs <;> rfl
  | get place =>
    obtain ⟨handle, hhandle, hstep⟩ := Option.bind_eq_some_iff.mp hstep
    cases hstep
    unfold rebuildNdarray
    split <;> rfl

/-- The bytes are written once: however often arrays on blocks are sliced and put on again on queues of their
stores, no byte of any block is written. -/
theorem later_hops_copy_nothing (hnumpy : ∀ length view, accepts length view = true ↔ view.Inside length)
    (h : (machine accepts storeMinBytes).Reachable state) {actions : List Action} {last : State}
    (hrun : ((machine accepts storeMinBytes).restrict resent).runFrom state actions = some last) :
    last.payload = state.payload := by
  have hboth : Sound last ∧ last.payload = state.payload := by
    refine Machine.run_invariant (fun last ↦ Sound last ∧ last.payload = state.payload) ?_ ⟨sound hnumpy h, rfl⟩ hrun
    rintro current action next ⟨hsound, hsame⟩ hstep
    obtain ⟨hresent, hstep⟩ := Machine.restrict_step hstep
    exact ⟨sound_step hnumpy hsound hstep, (payload_step hnumpy hsound hresent hstep).trans hsame⟩
  exact hboth.2

/-- The first column goes on to a third process. -/
theorem later_hops_copy_nothing_column : ∃ state last,
    (machine fits 2).runFrom start firstHop = some state ∧
      ((machine fits 2).restrict resent).runFrom state secondHop = some last ∧ last.payload = state.payload := by
  have hruns : (((machine fits 2).runFrom start firstHop).any fun state ↦
      (((machine fits 2).restrict resent).runFrom state secondHop).isSome) = true := by decide +kernel
  obtain ⟨state, hfirst, hsecond⟩ := (Option.any_eq_true _ _).mp hruns
  obtain ⟨last, hlast⟩ := Option.isSome_iff_exists.mp hsecond
  exact ⟨state, last, hfirst, hlast, later_hops_copy_nothing (fun _ _ ↦ decide_eq_true_iff) ⟨_, hfirst⟩ hlast⟩

end GpuPipe.Views
