import GpuPipe.Store.Layout

/-!
# The store invariant

Layout, references and lists, together with what each thread knows in its phase. What a
thread knows about the block in its hands holds whether it lives or not; what the lock
holder knows about the control words only while it lives, because whoever takes the lock
over changes them.
-/

namespace GpuPipe.Store

variable (store : PayloadStore) (pid : ℕ → UInt32) (state : State)

def Phase.locked : Phase → Bool
  | .allocLocked _ | .creating _ _ | .addUsed _ _ | .setCur _ _ | .setBump _ _ | .allocUnlock _
  | .freeLocked _ _ | .linked _ _ | .freeUnlock => true
  | _ => false

def Phase.claim : Phase → Option Claim
  | .allocUnlock claim => claim
  | .initRc claim | .initClass claim | .initLen claim => some claim
  | _ => none

/-- The dedicated segment id a thread has taken and not yet used. -/
def Phase.dedicatedId : Phase → Option ℕ
  | .dedCreate _ _ id => some id
  | _ => none

structure RequestOk (request : Request) : Prop where
  room : blkHdr + request.nbytes ≤ request.size
  size : request.size = classSize request.cls
  cls : request.cls < nClass
  fits : request.size ≤ store.segBytes

/-- The claimed block is the thread's own and holds the request. -/
def ClaimOk (thread : ℕ) (claim : Claim) : Prop :=
  ∃ size, state.carved claim.place = some ⟨size, .held thread⟩ ∧ blkHdr + claim.nbytes ≤ size ∧
    (claim.place.dedicated = false → size = classSize claim.cls ∧ claim.cls < nClass)

/-- The block a thread is freeing is its own and of the class its header says. -/
structure FreeingOk (thread : ℕ) (place : Place) (cls : ℕ) : Prop where
  regular : place.dedicated = false
  header : (state.hdr place).cls = cls
  lt : cls < nClass
  carved : state.carved place = some ⟨classSize cls, .held thread⟩

/-- What a thread knows about its own request and block. -/
def HoldOk (thread : ℕ) : Phase → Prop
  | .alloc request | .allocLocked request | .creating request _ | .addUsed request _ | .setCur request _
  | .setBump request _ => RequestOk store request
  | .allocUnlock (some claim) | .initRc claim => ClaimOk state thread claim
  | .initClass claim => ClaimOk state thread claim ∧ (state.hdr claim.place).rc = 1
  | .initLen claim => ClaimOk state thread claim ∧ (state.hdr claim.place).rc = 1 ∧
      (state.hdr claim.place).cls = claim.cls
  | .dedReserve nbytes size | .dedId nbytes size => 0 < size → blkHdr + nbytes ≤ size
  | .dedCreate nbytes size id => (0 < size → blkHdr + nbytes ≤ size) ∧ id < state.ctl.nded ∧
      state.carved ⟨id, 0, true⟩ = none
  | .freeing place => FreeingOk state thread place (state.hdr place).cls
  | .freeLocked place cls | .linked place cls => FreeingOk state thread place cls
  | .unlinking place => place.dedicated = true ∧ ∃ size, state.carved place = some ⟨size, .held thread⟩
  | _ => True

/-- No block of the regular segment `id` has been carved. -/
def Uncarved (id : ℕ) : Prop :=
  ∀ place block, state.carved place = some block → place.dedicated = false → place.seg ≠ id

/-- A new segment that only the lock holder knows. -/
structure NewSegment (id : ℕ) : Prop where
  lt_nreg : id < state.ctl.nreg
  lt_max : id < 2 ^ 24
  length : state.segments (id, false) = some store.segBytes
  uncarved : Uncarved state id

/-- What the lock holder knows about the control words. -/
def GuardOk : Phase → Prop
  | .creating _ id => id + 1 = state.ctl.nreg ∧ Uncarved state id ∧ state.ctl.cur ≠ some id
  | .addUsed _ id | .setCur _ id => NewSegment store state id
  | .setBump _ id => NewSegment store state id ∧ state.ctl.cur = some id
  | .linked place cls => (state.hdr place).next = state.ctl.free cls
  | _ => True

structure ThreadOk (thread : ℕ) (phase : Phase) : Prop where
  hold : HoldOk store state thread phase
  locked : state.dead (pid thread) = false → phase.locked = true → state.lock = some thread
  guard : state.dead (pid thread) = false → GuardOk store state phase

structure Inv : Prop where
  layout : Layout store state.ctl state.segments state.carved
  refs : Refs state.hdr state.blocks state.handles state.carved
  lists : Lists state.hdr state.ctl.free state.freeList state.carved
  threads : ∀ thread, ThreadOk store pid state thread (state.phase thread)
  ids : ∀ first second id, (state.phase first).dedicatedId = some id →
    (state.phase second).dedicatedId = some id → first = second

variable {store pid state} {next : State} {thread : ℕ} {phase : Phase}

theorem inv_start : Inv store pid .start where
  layout := by constructor <;> simp [State.start]
  refs := by constructor <;> simp [State.start, Store.refs]
  lists := by
    refine ⟨fun _ ↦ .nil, ?_, ?_⟩ <;> simp [State.start]
  threads _ := ⟨trivial, nofun, fun _ ↦ trivial⟩
  ids := by simp [State.start, Phase.dedicatedId]

/-! ## What a step of one thread leaves to the others -/

/-- Blocks in other threads' hands stay as they are, with their headers. -/
structure Frame (state next : State) (thread : ℕ) : Prop where
  dead : next.dead = state.dead
  held : ∀ other, other ≠ thread → ∀ place size, state.carved place = some ⟨size, .held other⟩ →
    next.carved place = some ⟨size, .held other⟩ ∧ next.hdr place = state.hdr place
  nded : state.ctl.nded ≤ next.ctl.nded
  fresh : ∀ other, other ≠ thread → ∀ id, (state.phase other).dedicatedId = some id →
    state.carved ⟨id, 0, true⟩ = none → next.carved ⟨id, 0, true⟩ = none

theorem HoldOk.frame (h : HoldOk store state thread phase) {mover : ℕ} (hframe : Frame state next mover)
    (hne : thread ≠ mover) (hphase : phase = state.phase thread) : HoldOk store next thread phase := by
  have hclaim (claim : Claim) (hclaim : ClaimOk state thread claim) :
      ClaimOk next thread claim ∧ next.hdr claim.place = state.hdr claim.place := by
    obtain ⟨size, hcarved, hroom⟩ := hclaim
    obtain ⟨hcarved', hhdr⟩ := hframe.held thread hne _ _ hcarved
    exact ⟨⟨size, hcarved', hroom⟩, hhdr⟩
  have hfreeing (place : Place) (cls : ℕ) (hfreeing : FreeingOk state thread place cls) :
      FreeingOk next thread place cls ∧ next.hdr place = state.hdr place := by
    obtain ⟨hcarved', hhdr⟩ := hframe.held thread hne _ _ hfreeing.carved
    exact ⟨⟨hfreeing.regular, hhdr ▸ hfreeing.header, hfreeing.lt, hcarved'⟩, hhdr⟩
  cases phase with
  | allocUnlock claim =>
    cases claim with
    | none => trivial
    | some claim => exact (hclaim claim h).1
  | initRc claim => exact (hclaim claim h).1
  | initClass claim =>
    obtain ⟨hclaim', hhdr⟩ := hclaim claim h.1
    exact ⟨hclaim', hhdr ▸ h.2⟩
  | initLen claim =>
    obtain ⟨hclaim', hhdr⟩ := hclaim claim h.1
    exact ⟨hclaim', hhdr ▸ h.2⟩
  | freeing place =>
    obtain ⟨hfreeing', hhdr⟩ := hfreeing place _ h
    rw [← hhdr] at hfreeing'
    exact hfreeing'
  | freeLocked place cls => exact (hfreeing place cls h).1
  | linked place cls => exact (hfreeing place cls h).1
  | unlinking place =>
    obtain ⟨hdedicated, size, hcarved⟩ := h
    exact ⟨hdedicated, size, (hframe.held thread hne _ _ hcarved).1⟩
  | dedCreate nbytes size id =>
    exact ⟨h.1, h.2.1.trans_le hframe.nded, hframe.fresh thread hne id (by rw [← hphase]; rfl) h.2.2⟩
  | _ => exact h

/-- A step from outside the critical section: control words and regular places stay. -/
structure Outside (state next : State) : Prop where
  lock : next.lock = state.lock
  nreg : next.ctl.nreg = state.ctl.nreg
  cur : next.ctl.cur = state.ctl.cur
  free : next.ctl.free = state.ctl.free
  segments : ∀ id, next.segments (id, false) = state.segments (id, false)
  regular : ∀ place block, next.carved place = some block → place.dedicated = false →
    ∃ block', state.carved place = some block'

theorem Uncarved.outside {id : ℕ} (h : Uncarved state id) (hout : Outside state next) :
    Uncarved next id := by
  intro place block hblock hregular
  obtain ⟨block', hblock'⟩ := hout.regular place block hblock hregular
  exact h place block' hblock' hregular

theorem NewSegment.outside {id : ℕ} (h : NewSegment store state id) (hout : Outside state next) :
    NewSegment store next id where
  lt_nreg := hout.nreg ▸ h.lt_nreg
  lt_max := h.lt_max
  length := (hout.segments id).trans h.length
  uncarved := h.uncarved.outside hout

/-- What the lock holder knows of the control words stands when a thread outside moves. -/
theorem GuardOk.outside (h : GuardOk store state phase) (hout : Outside state next)
    (hhdr : ∀ place cls, phase = .linked place cls → next.hdr place = state.hdr place) :
    GuardOk store next phase := by
  cases phase with
  | creating request id =>
    obtain ⟨hnreg, huncarved, hcur⟩ := h
    exact ⟨hout.nreg ▸ hnreg, huncarved.outside hout, hout.cur ▸ hcur⟩
  | addUsed request id => exact NewSegment.outside h hout
  | setCur request id => exact NewSegment.outside h hout
  | setBump request id => exact ⟨h.1.outside hout, hout.cur ▸ h.2⟩
  | linked place cls =>
    show (next.hdr place).next = next.ctl.free cls
    rw [hhdr place cls rfl, hout.free]
    exact h
  | _ => trivial

theorem GuardOk.of_not_locked (h : phase.locked = false) : GuardOk store state phase := by
  cases phase with
  | creating | addUsed | setCur | setBump | linked => cases h
  | _ => trivial

theorem Inv.not_locked (h : Inv store pid state) (halive : state.dead (pid thread) = false)
    (hlocked : (state.phase thread).locked = true) {other : ℕ} (hne : other ≠ thread)
    (hother : state.dead (pid other) = false) : (state.phase other).locked = false := by
  by_contra hcontra
  have hmine := (h.threads thread).locked halive hlocked
  have htheirs := (h.threads other).locked hother (by simpa using hcontra)
  rw [hmine, Option.some.injEq] at htheirs
  exact hne htheirs.symm

theorem Inv.not_locked_of_lockable (h : Inv store pid state) (hlockable : lockable pid state = true)
    {other : ℕ} (hother : state.dead (pid other) = false) : (state.phase other).locked = false := by
  by_contra hcontra
  have hlock := (h.threads other).locked hother (by simpa using hcontra)
  simp [lockable, hlock, hother] at hlockable

/-- Every other thread keeps what it knows: either the mover is outside the critical
section, or no other live thread is inside. -/
theorem Inv.others (h : Inv store pid state) (hframe : Frame state next thread)
    (hlock : Outside state next ∨
      ∀ other, other ≠ thread → state.dead (pid other) = false → (state.phase other).locked = false)
    {other : ℕ} (hne : other ≠ thread) : ThreadOk store pid next other (state.phase other) := by
  have hold := h.threads other
  refine ⟨hold.hold.frame hframe hne rfl, ?_, ?_⟩
  · intro halive hlocked
    rw [hframe.dead] at halive
    rcases hlock with hout | halone
    · exact hout.lock.trans (hold.locked halive hlocked)
    · rw [halone other hne halive] at hlocked
      cases hlocked
  · intro halive
    rw [hframe.dead] at halive
    rcases hlock with hout | halone
    · apply (hold.guard halive).outside hout
      intro place cls hphase
      have hmine := hold.hold
      rw [hphase] at hmine
      exact (hframe.held other hne _ _ hmine.carved).2
    · exact .of_not_locked (halone other hne halive)

/-- One step, part by part. -/
theorem Inv.move (h : Inv store pid state)
    (hphase : next.phase = Function.update state.phase thread phase)
    (hlayout : Layout store next.ctl next.segments next.carved)
    (hrefs : Refs next.hdr next.blocks next.handles next.carved)
    (hlists : Lists next.hdr next.ctl.free next.freeList next.carved)
    (hframe : Frame state next thread)
    (hlock : Outside state next ∨
      ∀ other, other ≠ thread → state.dead (pid other) = false → (state.phase other).locked = false)
    (hself : ThreadOk store pid next thread phase)
    (hid : ∀ id, phase.dedicatedId = some id → ∀ other, other ≠ thread →
      (state.phase other).dedicatedId ≠ some id) : Inv store pid next where
  layout := hlayout
  refs := hrefs
  lists := hlists
  threads := by
    rw [hphase]
    refine (Function.forall_update_iff _ (ThreadOk store pid next)).mpr ⟨hself, fun other hne ↦ ?_⟩
    exact h.others hframe hlock hne
  ids := by
    rw [hphase]
    intro first second id hfirst hsecond
    by_cases hfirst' : first = thread <;> by_cases hsecond' : second = thread
    · rw [hfirst', hsecond']
    · rw [hfirst', Function.update_self] at hfirst
      rw [Function.update_of_ne hsecond'] at hsecond
      exact absurd hsecond (hid id hfirst second hsecond')
    · rw [hsecond', Function.update_self] at hsecond
      rw [Function.update_of_ne hfirst'] at hfirst
      exact absurd hfirst (hid id hsecond first hfirst')
    · rw [Function.update_of_ne hfirst'] at hfirst
      rw [Function.update_of_ne hsecond'] at hsecond
      exact h.ids first second id hfirst hsecond

end GpuPipe.Store
