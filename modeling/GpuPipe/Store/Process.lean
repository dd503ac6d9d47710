import GpuPipe.Library.Machine
import GpuPipe.Store.SizeClass

/-!
# Processes on one payload store

`Store::alloc`, `Block::share`, `Store::adopt` and the drop of a `Block`, as threads run
them: every store to shared memory and every atomic update is a step, and a process may
die between any two of them. As in `sys.rs`, the lock of a dead holder may be taken over.

A block's header is addressed by its segment and offset. The fields `carved` and
`freeList` are history that no branch reads.
-/

namespace GpuPipe.Store

/-- What `Store::new` writes once; segments are at most 2^40 bytes. -/
structure PayloadStore where
  limit : ℕ
  segBytes : ℕ
  min_le : 65536 ≤ segBytes
  le_max : segBytes ≤ 2 ^ 40

/-- `Store::new` rounds the segment size up to a multiple of 64 KiB. -/
def PayloadStore.new (limit segBytes : ℕ) (h : segBytes ≤ 2 ^ 40) : PayloadStore where
  limit := limit
  segBytes := (max segBytes (minBlock * 16) + (dedicatedAlign - 1)) / dedicatedAlign * dedicatedAlign
  min_le := by
    unfold minBlock dedicatedAlign
    omega
  le_max := by
    unfold minBlock dedicatedAlign
    omega

def PayloadStore.maxClassBlock (store : PayloadStore) : ℕ := min Store.maxClassBlock (store.segBytes / 4)

/-- Where a block lies: regular and dedicated segments are numbered separately. -/
structure Place where
  seg : ℕ
  off : ℕ
  dedicated : Bool
  deriving DecidableEq

structure Hdr where
  rc : ℕ
  cls : ℕ
  len : ℕ
  next : ℕ
  deriving DecidableEq

/-- The mutable words of the control segment; `cur` is `none` for `u64::MAX`. -/
structure Ctl where
  nreg : ℕ
  nded : ℕ
  cur : Option ℕ
  bump : ℕ
  used : ℕ
  free : ℕ → ℕ

structure Block where
  owner : UInt32
  place : Place
  len : ℕ
  deriving DecidableEq

/-- A request that fits a size class: bytes asked for, class and block size. -/
structure Request where
  nbytes : ℕ
  cls : ℕ
  size : ℕ
  deriving DecidableEq

/-- A block a thread has taken out of the store and is initialising. -/
structure Claim where
  nbytes : ℕ
  cls : ℕ
  place : Place
  deriving DecidableEq

/-- Where a thread stands in `alloc` or in the drop of a `Block`. -/
inductive Phase
  | idle
  | alloc (request : Request)
  | allocLocked (request : Request)
  | creating (request : Request) (id : ℕ)
  | addUsed (request : Request) (id : ℕ)
  | setCur (request : Request) (id : ℕ)
  | setBump (request : Request) (id : ℕ)
  | allocUnlock (claim : Option Claim)
  | initRc (claim : Claim)
  | initClass (claim : Claim)
  | initLen (claim : Claim)
  | dedReserve (nbytes size : ℕ)
  | dedId (nbytes size : ℕ)
  | dedCreate (nbytes size id : ℕ)
  | giveBack (size : ℕ)
  | unlinking (place : Place)
  | freeing (place : Place)
  | freeLocked (place : Place) (cls : ℕ)
  | linked (place : Place) (cls : ℕ)
  | freeUnlock
  deriving DecidableEq

/-- What became of a block since it was carved. A thread holds it while it initialises
or frees it, and for good if it stops halfway. -/
inductive Status
  | held (thread : ℕ)
  | live
  | free (cls : ℕ)
  | gone
  deriving DecidableEq

structure Carved where
  size : ℕ
  status : Status
  deriving DecidableEq

structure State where
  ctl : Ctl
  hdr : Place → Hdr
  segments : ℕ × Bool → Option ℕ
  lock : Option ℕ
  phase : ℕ → Phase
  dead : UInt32 → Bool
  blocks : List Block
  handles : List Place
  carved : Place → Option Carved
  freeList : ℕ → List Place

def State.start : State where
  ctl := ⟨0, 0, none, 0, 0, fun _ ↦ 0⟩
  hdr := fun _ ↦ ⟨0, 0, 0, 0⟩
  segments := fun _ ↦ none
  lock := none
  phase := fun _ ↦ .idle
  dead := fun _ ↦ false
  blocks := []
  handles := []
  carved := fun _ ↦ none
  freeList := fun _ ↦ []

def State.goto (state : State) (thread : ℕ) (phase : Phase) : State :=
  { state with phase := Function.update state.phase thread phase }

def State.setHdr (state : State) (place : Place) (hdr : Hdr) : State :=
  { state with hdr := Function.update state.hdr place hdr }

def State.setCarved (state : State) (place : Place) (size : ℕ) (status : Status) : State :=
  { state with carved := Function.update state.carved place (some ⟨size, status⟩) }

/-- Change what became of a block that was carved before. -/
def State.setStatus (state : State) (place : Place) (status : Status) : State :=
  { state with
    carved := Function.update state.carved place
      ((state.carved place).map fun carved ↦ { carved with status := status }) }

/-- The block a nonzero free-list word stands for. -/
def placeAt (word : ℕ) : Place := ⟨(unpack (word - 1)).1, (unpack (word - 1)).2, false⟩

def wordOf (place : Place) : ℕ := (pack place.seg place.off + 1) % 2 ^ 64

/-- Wrapping subtraction, as `fetch_sub` on 64 bits does. -/
def sub64 (first second : ℕ) : ℕ := (first + (2 ^ 64 - second % 2 ^ 64)) % 2 ^ 64

/-- What a thread does next, with the answers of the system. -/
inductive Move
  | alloc (nbytes : ℕ)
  | acquire
  | choose (attached : Bool)
  | create (ok : Bool)
  | addUsed
  | setCur
  | setBump
  | unlock
  | init
  | attachFailed
  | reserve
  | takeId
  | giveBack
  | share (block : Block)
  | adopt (place : Place)
  | drop (block : Block)
  | unlink
  | link
  | publish

inductive Action
  | act (thread : ℕ) (move : Move)
  | die (process : UInt32)

section Moves

variable (store : PayloadStore) (pid : ℕ → UInt32) (state : State) (thread : ℕ)

/-- The lock is free, or its holder's process has died. -/
def lockable : Bool :=
  match state.lock with
  | none => true
  | some holder => state.dead (pid holder)

/-- `alloc` up to the lock: `BLK_HDR + nbytes` is 64-bit arithmetic. -/
def allocBegin (nbytes : ℕ) : State :=
  let total := (blkHdr + nbytes) % 2 ^ 64
  if store.maxClassBlock < total then state.goto thread (.dedReserve nbytes (dedicatedSize total))
  else state.goto thread (.alloc ⟨nbytes, (classOf total).1, (classOf total).2⟩)

/-- The critical section of `alloc` up to its first store. -/
def choose (request : Request) (attached : Bool) : State :=
  let ctl := state.ctl
  if ctl.free request.cls ≠ 0 then
    let place := placeAt (ctl.free request.cls)
    if attached then
      State.goto (State.setStatus { state with
        ctl := { ctl with free := Function.update ctl.free request.cls (state.hdr place).next }
        freeList := Function.update state.freeList request.cls (state.freeList request.cls).tail }
          place (.held thread)) thread (.allocUnlock (some ⟨request.nbytes, request.cls, place⟩))
    else state.goto thread (.allocUnlock none)
  else
    match ctl.cur with
    | some seg =>
      if ctl.bump + request.size ≤ store.segBytes then
        State.goto (State.setCarved { state with ctl := { ctl with bump := ctl.bump + request.size } }
          ⟨seg, ctl.bump, false⟩ request.size (.held thread)) thread
            (.allocUnlock (some ⟨request.nbytes, request.cls, ⟨seg, ctl.bump, false⟩⟩))
      else grow
    | none => grow
where
  /-- No room in the current segment: refuse past the limit, else claim the next id. -/
  grow : State :=
    if store.limit < (state.ctl.used + store.segBytes) % 2 ^ 64 then
      state.goto thread (.allocUnlock none)
    else
      State.goto { state with ctl := { state.ctl with nreg := state.ctl.nreg + 1 } } thread
        (.creating request state.ctl.nreg)

/-- The end of a `Block`: the last reference frees the block. -/
def dropBlock (block : Block) : State :=
  let hdr := state.hdr block.place
  let state := State.setHdr { state with blocks := state.blocks.erase block } block.place
    { hdr with rc := (hdr.rc + (2 ^ 32 - 1)) % 2 ^ 32 }
  if hdr.rc ≠ 1 then state
  else
    (state.setStatus block.place (.held thread)).goto thread
      (if block.place.dedicated then .unlinking block.place else .freeing block.place)

/-- `adopt`: the reference of a handle becomes that of a `Block`. -/
def adopt (place : Place) : State :=
  let state := { state with handles := state.handles.erase place }
  match state.segments (place.seg, place.dedicated) with
  | none => state
  | some length =>
    if length < place.off + blkHdr then state
    else { state with blocks := state.blocks ++ [⟨pid thread, place, (state.hdr place).len⟩] }

/-- One move of a thread whose process is alive. -/
def moveStep (move : Move) : Option State :=
  match move, state.phase thread with
  | .alloc nbytes, .idle => if nbytes < 2 ^ 64 then some (allocBegin store state thread nbytes) else none
  | .acquire, .alloc request =>
    if lockable pid state then
      some (State.goto { state with lock := some thread } thread (.allocLocked request))
    else none
  | .choose attached, .allocLocked request => some (choose store state thread request attached)
  | .create true, .creating request id =>
    -- Fewer than 2^24 regular segments.
    if id < 2 ^ 24 then
      some (State.goto { state with
        segments := Function.update state.segments (id, false) (some store.segBytes) } thread
          (.addUsed request id))
    else none
  | .create false, .creating _ id =>
    some (State.goto { state with ctl := { state.ctl with nreg := id } } thread (.allocUnlock none))
  | .addUsed, .addUsed request id =>
    some (State.goto { state with ctl := { state.ctl with
      used := (state.ctl.used + store.segBytes) % 2 ^ 64 } } thread (.setCur request id))
  | .setCur, .setCur request id =>
    some (State.goto { state with ctl := { state.ctl with cur := some id } } thread (.setBump request id))
  | .setBump, .setBump request id =>
    some (State.goto (State.setCarved { state with ctl := { state.ctl with bump := request.size } }
      ⟨id, 0, false⟩ request.size (.held thread)) thread
        (.allocUnlock (some ⟨request.nbytes, request.cls, ⟨id, 0, false⟩⟩)))
  | .unlock, .allocUnlock claim =>
    some (State.goto { state with lock := none } thread (claim.elim .idle .initRc))
  | .attachFailed, .initRc _ => some (state.goto thread .idle)
  | .init, .initRc claim =>
    some ((state.setHdr claim.place { state.hdr claim.place with rc := 1 }).goto thread (.initClass claim))
  | .init, .initClass claim =>
    some ((state.setHdr claim.place { state.hdr claim.place with cls := claim.cls }).goto thread
      (.initLen claim))
  | .init, .initLen claim =>
    some (State.goto { (state.setHdr claim.place { state.hdr claim.place with len := claim.nbytes }).setStatus
      claim.place .live with blocks := state.blocks ++ [⟨pid thread, claim.place, claim.nbytes⟩] } thread .idle)
  | .reserve, .dedReserve nbytes size =>
    let used := (state.ctl.used + size) % 2 ^ 64
    some (State.goto { state with ctl := { state.ctl with used := used } } thread
      (if store.limit < used then .giveBack size else .dedId nbytes size))
  | .takeId, .dedId nbytes size =>
    some (State.goto { state with ctl := { state.ctl with nded := state.ctl.nded + 1 } } thread
      (.dedCreate nbytes size state.ctl.nded))
  | .create true, .dedCreate nbytes size id =>
    -- An empty object cannot be mapped; segments are at most 2^40 bytes.
    if 0 < size ∧ size ≤ 2 ^ 40 then
      some (State.goto (State.setCarved { state with
        segments := Function.update state.segments (id, true) (some size) } ⟨id, 0, true⟩ size
          (.held thread)) thread (.initRc ⟨nbytes, 2 ^ 32 - 1, ⟨id, 0, true⟩⟩))
    else none
  | .create false, .dedCreate _ size _ => some (state.goto thread (.giveBack size))
  | .giveBack, .giveBack size =>
    some (State.goto { state with ctl := { state.ctl with used := sub64 state.ctl.used size } } thread .idle)
  | .share block, .idle =>
    if block ∈ state.blocks ∧ block.owner = pid thread then
      some { state.setHdr block.place { state.hdr block.place with
        rc := ((state.hdr block.place).rc + 1) % 2 ^ 32 } with handles := state.handles ++ [block.place] }
    else none
  | .adopt place, .idle => if place ∈ state.handles then some (adopt pid state thread place) else none
  | .drop block, .idle =>
    if block ∈ state.blocks ∧ block.owner = pid thread then some (dropBlock state thread block) else none
  | .unlink, .unlinking place =>
    some (State.goto (State.setStatus { state with
      segments := Function.update state.segments (place.seg, true) none } place .gone) thread
        (.giveBack ((state.segments (place.seg, true)).getD 0)))
  | .acquire, .freeing place =>
    if lockable pid state then
      some (State.goto { state with lock := some thread } thread (.freeLocked place (state.hdr place).cls))
    else none
  | .link, .freeLocked place cls =>
    some ((state.setHdr place { state.hdr place with next := state.ctl.free cls }).goto thread
      (.linked place cls))
  | .publish, .linked place cls =>
    some (State.goto (State.setStatus { state with
      ctl := { state.ctl with free := Function.update state.ctl.free cls (wordOf place) }
      freeList := Function.update state.freeList cls (place :: state.freeList cls) } place (.free cls)) thread
        .freeUnlock)
  | .unlock, .freeUnlock => some (State.goto { state with lock := none } thread .idle)
  | _, _ => none

end Moves

def step (store : PayloadStore) (pid : ℕ → UInt32) (state : State) : Action → Option State
  | .act thread move => if state.dead (pid thread) then none else moveStep store pid state thread move
  | .die process => some { state with dead := Function.update state.dead process true }

/-- All processes on one store; `pid` gives each thread its process. -/
def machine (store : PayloadStore) (pid : ℕ → UInt32) : Machine State Action where
  start := .start
  step := step store pid

/-- What a move can do, one constructor for each branch of `moveStep`. -/
inductive MoveStep (store : PayloadStore) (pid : ℕ → UInt32) (state : State) (thread : ℕ) :
    Move → State → Prop
  | alloc (nbytes : ℕ) (hphase : state.phase thread = .idle) (hword : nbytes < 2 ^ 64) :
      MoveStep store pid state thread (.alloc nbytes) (allocBegin store state thread nbytes)
  | acquireAlloc (request : Request) (hphase : state.phase thread = .alloc request)
      (hlockable : lockable pid state = true) :
      MoveStep store pid state thread .acquire
        (State.goto { state with lock := some thread } thread (.allocLocked request))
  | choose (request : Request) (attached : Bool) (hphase : state.phase thread = .allocLocked request) :
      MoveStep store pid state thread (.choose attached) (choose store state thread request attached)
  | createRegular (request : Request) (id : ℕ) (hphase : state.phase thread = .creating request id)
      (hmax : id < 2 ^ 24) :
      MoveStep store pid state thread (.create true)
        (State.goto { state with
          segments := Function.update state.segments (id, false) (some store.segBytes) } thread
            (.addUsed request id))
  | regularFailed (request : Request) (id : ℕ) (hphase : state.phase thread = .creating request id) :
      MoveStep store pid state thread (.create false)
        (State.goto { state with ctl := { state.ctl with nreg := id } } thread (.allocUnlock none))
  | addUsed (request : Request) (id : ℕ) (hphase : state.phase thread = .addUsed request id) :
      MoveStep store pid state thread .addUsed
        (State.goto { state with ctl := { state.ctl with
          used := (state.ctl.used + store.segBytes) % 2 ^ 64 } } thread (.setCur request id))
  | setCur (request : Request) (id : ℕ) (hphase : state.phase thread = .setCur request id) :
      MoveStep store pid state thread .setCur
        (State.goto { state with ctl := { state.ctl with cur := some id } } thread (.setBump request id))
  | setBump (request : Request) (id : ℕ) (hphase : state.phase thread = .setBump request id) :
      MoveStep store pid state thread .setBump
        (State.goto (State.setCarved { state with ctl := { state.ctl with bump := request.size } }
          ⟨id, 0, false⟩ request.size (.held thread)) thread
            (.allocUnlock (some ⟨request.nbytes, request.cls, ⟨id, 0, false⟩⟩)))
  | unlockRefused (hphase : state.phase thread = .allocUnlock none) :
      MoveStep store pid state thread .unlock (State.goto { state with lock := none } thread .idle)
  | unlockClaim (claim : Claim) (hphase : state.phase thread = .allocUnlock (some claim)) :
      MoveStep store pid state thread .unlock (State.goto { state with lock := none } thread (.initRc claim))
  | attachFailed (claim : Claim) (hphase : state.phase thread = .initRc claim) :
      MoveStep store pid state thread .attachFailed (state.goto thread .idle)
  | initRc (claim : Claim) (hphase : state.phase thread = .initRc claim) :
      MoveStep store pid state thread .init
        ((state.setHdr claim.place { state.hdr claim.place with rc := 1 }).goto thread (.initClass claim))
  | initClass (claim : Claim) (hphase : state.phase thread = .initClass claim) :
      MoveStep store pid state thread .init
        ((state.setHdr claim.place { state.hdr claim.place with cls := claim.cls }).goto thread
          (.initLen claim))
  | initLen (claim : Claim) (hphase : state.phase thread = .initLen claim) :
      MoveStep store pid state thread .init
        (State.goto { (state.setHdr claim.place { state.hdr claim.place with len := claim.nbytes }).setStatus
          claim.place .live with blocks := state.blocks ++ [⟨pid thread, claim.place, claim.nbytes⟩] } thread
            .idle)
  | reserve (nbytes size : ℕ) (hphase : state.phase thread = .dedReserve nbytes size) :
      MoveStep store pid state thread .reserve
        (State.goto { state with ctl := { state.ctl with used := (state.ctl.used + size) % 2 ^ 64 } } thread
          (if store.limit < (state.ctl.used + size) % 2 ^ 64 then .giveBack size else .dedId nbytes size))
  | takeId (nbytes size : ℕ) (hphase : state.phase thread = .dedId nbytes size) :
      MoveStep store pid state thread .takeId
        (State.goto { state with ctl := { state.ctl with nded := state.ctl.nded + 1 } } thread
          (.dedCreate nbytes size state.ctl.nded))
  | createDedicated (nbytes size id : ℕ) (hphase : state.phase thread = .dedCreate nbytes size id)
      (hpos : 0 < size) (hmax : size ≤ 2 ^ 40) :
      MoveStep store pid state thread (.create true)
        (State.goto (State.setCarved { state with
          segments := Function.update state.segments (id, true) (some size) } ⟨id, 0, true⟩ size
            (.held thread)) thread (.initRc ⟨nbytes, 2 ^ 32 - 1, ⟨id, 0, true⟩⟩))
  | dedicatedFailed (nbytes size id : ℕ) (hphase : state.phase thread = .dedCreate nbytes size id) :
      MoveStep store pid state thread (.create false) (state.goto thread (.giveBack size))
  | giveBack (size : ℕ) (hphase : state.phase thread = .giveBack size) :
      MoveStep store pid state thread .giveBack
        (State.goto { state with ctl := { state.ctl with used := sub64 state.ctl.used size } } thread .idle)
  | share (block : Block) (hphase : state.phase thread = .idle) (hblock : block ∈ state.blocks)
      (howner : block.owner = pid thread) :
      MoveStep store pid state thread (.share block)
        { state.setHdr block.place { state.hdr block.place with
          rc := ((state.hdr block.place).rc + 1) % 2 ^ 32 } with handles := state.handles ++ [block.place] }
  | adopt (place : Place) (hphase : state.phase thread = .idle) (hhandle : place ∈ state.handles) :
      MoveStep store pid state thread (.adopt place) (adopt pid state thread place)
  | drop (block : Block) (hphase : state.phase thread = .idle) (hblock : block ∈ state.blocks)
      (howner : block.owner = pid thread) :
      MoveStep store pid state thread (.drop block) (dropBlock state thread block)
  | unlink (place : Place) (hphase : state.phase thread = .unlinking place) :
      MoveStep store pid state thread .unlink
        (State.goto (State.setStatus { state with
          segments := Function.update state.segments (place.seg, true) none } place .gone) thread
            (.giveBack ((state.segments (place.seg, true)).getD 0)))
  | acquireFree (place : Place) (hphase : state.phase thread = .freeing place)
      (hlockable : lockable pid state = true) :
      MoveStep store pid state thread .acquire
        (State.goto { state with lock := some thread } thread (.freeLocked place (state.hdr place).cls))
  | link (place : Place) (cls : ℕ) (hphase : state.phase thread = .freeLocked place cls) :
      MoveStep store pid state thread .link
        ((state.setHdr place { state.hdr place with next := state.ctl.free cls }).goto thread
          (.linked place cls))
  | publish (place : Place) (cls : ℕ) (hphase : state.phase thread = .linked place cls) :
      MoveStep store pid state thread .publish
        (State.goto (State.setStatus { state with
          ctl := { state.ctl with free := Function.update state.ctl.free cls (wordOf place) }
          freeList := Function.update state.freeList cls (place :: state.freeList cls) } place (.free cls))
            thread .freeUnlock)
  | unlockFree (hphase : state.phase thread = .freeUnlock) :
      MoveStep store pid state thread .unlock (State.goto { state with lock := none } thread .idle)

theorem moveStep_cases {store : PayloadStore} {pid : ℕ → UInt32} {state next : State} {thread : ℕ}
    {move : Move} (h : moveStep store pid state thread move = some next) :
    MoveStep store pid state thread move next := by
  unfold moveStep at h
  split at h
  case h_1 nbytes hphase =>
    simp only [Option.ite_none_right_eq_some, Option.some.injEq] at h
    obtain ⟨hword, rfl⟩ := h
    exact .alloc nbytes hphase hword
  case h_2 request hphase =>
    simp only [Option.ite_none_right_eq_some, Option.some.injEq] at h
    obtain ⟨hlockable, rfl⟩ := h
    exact .acquireAlloc request hphase hlockable
  case h_3 attached request hphase =>
    cases h
    exact .choose request attached hphase
  case h_4 request id hphase =>
    simp only [Option.ite_none_right_eq_some, Option.some.injEq] at h
    obtain ⟨hmax, rfl⟩ := h
    exact .createRegular request id hphase hmax
  case h_5 request id hphase =>
    cases h
    exact .regularFailed request id hphase
  case h_6 request id hphase =>
    cases h
    exact .addUsed request id hphase
  case h_7 request id hphase =>
    cases h
    exact .setCur request id hphase
  case h_8 request id hphase =>
    cases h
    exact .setBump request id hphase
  case h_9 claim hphase =>
    cases h
    cases claim with
    | none => exact .unlockRefused hphase
    | some claim => exact .unlockClaim claim hphase
  case h_10 claim hphase =>
    cases h
    exact .attachFailed claim hphase
  case h_11 claim hphase =>
    cases h
    exact .initRc claim hphase
  case h_12 claim hphase =>
    cases h
    exact .initClass claim hphase
  case h_13 claim hphase =>
    cases h
    exact .initLen claim hphase
  case h_14 nbytes size hphase =>
    cases h
    exact .reserve nbytes size hphase
  case h_15 nbytes size hphase =>
    cases h
    exact .takeId nbytes size hphase
  case h_16 nbytes size id hphase =>
    simp only [Option.ite_none_right_eq_some, Option.some.injEq] at h
    obtain ⟨⟨hpos, hmax⟩, rfl⟩ := h
    exact .createDedicated nbytes size id hphase hpos hmax
  case h_17 nbytes size id hphase =>
    cases h
    exact .dedicatedFailed nbytes size id hphase
  case h_18 size hphase =>
    cases h
    exact .giveBack size hphase
  case h_19 block hphase =>
    simp only [Option.ite_none_right_eq_some, Option.some.injEq] at h
    obtain ⟨⟨hblock, howner⟩, rfl⟩ := h
    exact .share block hphase hblock howner
  case h_20 place hphase =>
    simp only [Option.ite_none_right_eq_some, Option.some.injEq] at h
    obtain ⟨hhandle, rfl⟩ := h
    exact .adopt place hphase hhandle
  case h_21 block hphase =>
    simp only [Option.ite_none_right_eq_some, Option.some.injEq] at h
    obtain ⟨⟨hblock, howner⟩, rfl⟩ := h
    exact .drop block hphase hblock howner
  case h_22 place hphase =>
    cases h
    exact .unlink place hphase
  case h_23 place hphase =>
    simp only [Option.ite_none_right_eq_some, Option.some.injEq] at h
    obtain ⟨hlockable, rfl⟩ := h
    exact .acquireFree place hphase hlockable
  case h_24 place cls hphase =>
    cases h
    exact .link place cls hphase
  case h_25 place cls hphase =>
    cases h
    exact .publish place cls hphase
  case h_26 hphase =>
    cases h
    exact .unlockFree hphase
  case h_27 => cases h

end GpuPipe.Store
