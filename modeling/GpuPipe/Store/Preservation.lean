import GpuPipe.Store.Invariant

/-!
# Every step keeps the store invariant

Most steps change one block, and it is one in the mover's own hands, or one control
word, and then the mover holds the lock. Two conditions are needed: the size of an
allocation must not wrap 64 bits, and a block must not get 2^32 references.
-/

namespace GpuPipe.Store

variable {store : PayloadStore} {pid : ℕ → UInt32} {state next : State} {thread : ℕ} {phase : Phase}
  {place : Place}

/-! ## Steps that change one block -/

theorem Refs.atPlace {hdr hdr' : Place → Hdr} {blocks : List Block} {handles : List Place}
    {carved carved' : Place → Option Carved} (h : Refs hdr blocks handles carved)
    (hcarved : ∀ other, other ≠ place → carved' other = carved other)
    (hhdr : ∀ other, other ≠ place → hdr' other = hdr other)
    (hbefore : ∀ size, carved place ≠ some ⟨size, .live⟩)
    (hafter : ∀ size, carved' place ≠ some ⟨size, .live⟩) : Refs hdr' blocks handles carved' := by
  apply h.frame
  · intro other size hlive
    have hne : other ≠ place := by
      rintro rfl
      exact hbefore size hlive
    exact ⟨(hcarved other hne).trans hlive, hhdr other hne⟩
  · intro other size hlive
    have hne : other ≠ place := by
      rintro rfl
      exact hafter size hlive
    rwa [hcarved other hne] at hlive

theorem Lists.atPlace {hdr hdr' : Place → Hdr} {free : ℕ → ℕ} {freeList : ℕ → List Place}
    {carved carved' : Place → Option Carved} (h : Lists hdr free freeList carved)
    (hcarved : ∀ other, other ≠ place → carved' other = carved other)
    (hhdr : ∀ other, other ≠ place → hdr' other = hdr other)
    (hbefore : ∀ size cls, carved place ≠ some ⟨size, .free cls⟩) : Lists hdr' free freeList carved' := by
  apply h.frame
  intro other size cls hfree
  have hne : other ≠ place := by
    rintro rfl
    exact hbefore size cls hfree
  exact ⟨hcarved other hne, hhdr other hne⟩

theorem frame_atPlace (hcarved : ∀ other, other ≠ place → next.carved other = state.carved other)
    (hhdr : ∀ other, other ≠ place → next.hdr other = state.hdr other)
    (hmine : ∀ other, other ≠ thread → ∀ size, state.carved place ≠ some ⟨size, .held other⟩)
    (hdead : next.dead = state.dead) (hnded : state.ctl.nded ≤ next.ctl.nded)
    (hfresh : ∀ other, other ≠ thread → ∀ id, (state.phase other).dedicatedId = some id →
      state.carved ⟨id, 0, true⟩ = none → place ≠ ⟨id, 0, true⟩) : Frame state next thread where
  dead := hdead
  held other hother other_place size hheld := by
    have hne : other_place ≠ place := by
      rintro rfl
      exact hmine other hother size hheld
    exact ⟨(hcarved _ hne).trans hheld, hhdr _ hne⟩
  nded := hnded
  fresh other hother id hid hnone := by
    rw [hcarved _ (hfresh other hother id hid hnone).symm]
    exact hnone

/-- A block that is carved is not one a thread is about to create. -/
theorem ne_of_carved {block : Carved} (h : state.carved place = some block) :
    ∀ other, other ≠ thread → ∀ id, (state.phase other).dedicatedId = some id →
      state.carved ⟨id, 0, true⟩ = none → place ≠ ⟨id, 0, true⟩ := by
  rintro _ _ id _ hnone rfl
  rw [h] at hnone
  cases hnone

theorem held_ne {size : ℕ} (h : state.carved place = some ⟨size, .held thread⟩) :
    ∀ other, other ≠ thread → ∀ size', state.carved place ≠ some ⟨size', .held other⟩ := by
  intro other hne size' hother
  rw [h, Option.some.injEq, Carved.mk.injEq, Status.held.injEq] at hother
  exact hne hother.2.symm

theorem status_ne {carved : Place → Option Carved} {size size' : ℕ} {status status' : Status}
    (h : carved place = some ⟨size, status⟩) (hne : status ≠ status') :
    carved place ≠ some ⟨size', status'⟩ := by
  intro hother
  rw [h, Option.some.injEq, Carved.mk.injEq] at hother
  exact hne hother.2

theorem alone_of_holder (h : Inv store pid state) (halive : state.dead (pid thread) = false)
    (hlocked : (state.phase thread).locked = true) :
    ∀ other, other ≠ thread → state.dead (pid other) = false → (state.phase other).locked = false :=
  fun _ hne hother ↦ h.not_locked halive hlocked hne hother

/-! ## Steps that change no block -/

/-- Same blocks, headers, references, lists and segments; other words may change. -/
structure SameStore (state next : State) : Prop where
  carved : next.carved = state.carved
  hdr : next.hdr = state.hdr
  blocks : next.blocks = state.blocks
  handles : next.handles = state.handles
  freeList : next.freeList = state.freeList
  segments : next.segments = state.segments
  dead : next.dead = state.dead
  nreg : next.ctl.nreg = state.ctl.nreg
  cur : next.ctl.cur = state.ctl.cur
  bump : next.ctl.bump = state.ctl.bump
  free : next.ctl.free = state.ctl.free
  nded : state.ctl.nded ≤ next.ctl.nded

theorem SameStore.frame (h : SameStore state next) : Frame state next thread where
  dead := h.dead
  held _ _ place size hheld := ⟨h.carved ▸ hheld, by rw [h.hdr]⟩
  nded := h.nded
  fresh _ _ _ _ hnone := h.carved ▸ hnone

theorem SameStore.outside (h : SameStore state next) (hlock : next.lock = state.lock) :
    Outside state next where
  lock := hlock
  nreg := h.nreg
  cur := h.cur
  free := h.free
  segments _ := by rw [h.segments]
  regular place block hblock _ := ⟨block, h.carved ▸ hblock⟩

/-- A step that changes neither blocks nor lists keeps the invariant. -/
theorem Inv.quiet (h : Inv store pid state) (hsame : SameStore state next)
    (hphase : next.phase = Function.update state.phase thread phase)
    (hlock : next.lock = state.lock ∨
      ∀ other, other ≠ thread → state.dead (pid other) = false → (state.phase other).locked = false)
    (hhold : HoldOk store next thread phase)
    (hlocked : phase.locked = true → next.lock = some thread)
    (hguard : GuardOk store next phase)
    (hid : ∀ id, phase.dedicatedId = some id → ∀ other, other ≠ thread →
      (state.phase other).dedicatedId ≠ some id) : Inv store pid next := by
  refine h.move hphase ?_ ?_ ?_ hsame.frame (hlock.imp_left hsame.outside)
    ⟨hhold, fun _ ↦ hlocked, fun _ ↦ hguard⟩ hid
  · rw [hsame.segments, hsame.carved]
    exact h.layout.congr hsame.nreg hsame.nded hsame.cur hsame.bump
  · rw [hsame.hdr, hsame.blocks, hsame.handles, hsame.carved]
    exact h.refs
  · rw [hsame.hdr, hsame.free, hsame.freeList, hsame.carved]
    exact h.lists

/-- The header of a block in the thread's own hands. -/
theorem Inv.setHdr (h : Inv store pid state) {size : ℕ} {hdr : Hdr}
    (hheld : state.carved place = some ⟨size, .held thread⟩)
    (hlocked : phase.locked = true → state.lock = some thread)
    (hhold : HoldOk store ((state.setHdr place hdr).goto thread phase) thread phase)
    (hguard : GuardOk store ((state.setHdr place hdr).goto thread phase) phase)
    (hid : phase.dedicatedId = none) : Inv store pid ((state.setHdr place hdr).goto thread phase) := by
  have hhdr : ∀ other, other ≠ place →
      ((state.setHdr place hdr).goto thread phase).hdr other = state.hdr other :=
    fun other hne ↦ Function.update_of_ne hne _ _
  refine h.move rfl h.layout ?_ ?_ ?_ (.inl ⟨rfl, rfl, rfl, rfl, fun _ ↦ rfl, ?_⟩)
    ⟨hhold, fun _ ↦ hlocked, fun _ ↦ hguard⟩ (by simp [hid])
  · exact h.refs.atPlace (fun _ _ ↦ rfl) hhdr (fun _ ↦ status_ne hheld nofun) (fun _ ↦ status_ne hheld nofun)
  · exact h.lists.atPlace (fun _ _ ↦ rfl) hhdr (fun _ _ ↦ status_ne hheld nofun)
  · exact frame_atPlace (fun _ _ ↦ rfl) hhdr (held_ne hheld) rfl le_rfl (ne_of_carved hheld)
  · exact fun place block hblock _ ↦ ⟨block, hblock⟩

/-! ## Carving -/

/-- A block nobody had is new in the mover's hands; only the lock holder carves. -/
theorem Inv.carve (h : Inv store pid state) (halive : state.dead (pid thread) = false)
    (hlocked : (state.phase thread).locked = true) {request : Request} (hrequest : RequestOk store request)
    {ctl : Ctl} (hnone : state.carved place = none) (hregular : place.dedicated = false)
    (hfree : ctl.free = state.ctl.free) (hnded : ctl.nded = state.ctl.nded)
    (hlayout : Layout store ctl state.segments
      (Function.update state.carved place (some ⟨request.size, .held thread⟩))) :
    Inv store pid (State.goto (State.setCarved { state with ctl := ctl } place request.size (.held thread))
      thread (.allocUnlock (some ⟨request.nbytes, request.cls, place⟩))) := by
  have hcarved : ∀ other, other ≠ place →
      Function.update state.carved place (some ⟨request.size, .held thread⟩) other = state.carved other :=
    fun other hne ↦ Function.update_of_ne hne _ _
  have hself : Function.update state.carved place (some ⟨request.size, .held thread⟩) place =
      some ⟨request.size, .held thread⟩ := Function.update_self ..
  have hbefore (block : Carved) : state.carved place ≠ some block := by simp [hnone]
  refine h.move rfl hlayout ?_ ?_ ?_ (.inr (alone_of_holder h halive hlocked)) ⟨?_, ?_, ?_⟩ nofun
  · exact h.refs.atPlace hcarved (fun _ _ ↦ rfl) (fun _ ↦ hbefore _) (fun _ ↦ status_ne hself nofun)
  · show Lists state.hdr ctl.free state.freeList _
    rw [hfree]
    exact h.lists.atPlace hcarved (fun _ _ ↦ rfl) (fun _ _ ↦ hbefore _)
  · refine frame_atPlace hcarved (fun _ _ ↦ rfl) (fun _ _ _ ↦ hbefore _) rfl hnded.ge ?_
    rintro _ _ id _ _ rfl
    cases hregular
  · exact ⟨request.size, hself, hrequest.room, fun _ ↦ ⟨hrequest.size, hrequest.cls⟩⟩
  · exact fun _ _ ↦ (h.threads thread).locked halive hlocked
  · exact fun _ ↦ trivial

/-- Nothing carved in the current segment reaches the place to carve next. -/
theorem Layout.fresh {ctl : Ctl} {segments : ℕ × Bool → Option ℕ} {carved : Place → Option Carved}
    (h : Layout store ctl segments carved) {seg : ℕ} (hcur : ctl.cur = some seg) :
    carved ⟨seg, ctl.bump, false⟩ = none := by
  by_contra hcontra
  obtain ⟨block, hblock⟩ := Option.ne_none_iff_exists'.mp hcontra
  have hbump := (h.regular _ block hblock rfl).2.2.2.2 hcur
  have hheader := h.header _ block hblock
  unfold blkHdr at hheader
  simp only at hbump
  omega

theorem blkHdr_le_size {request : Request} (h : RequestOk store request) : blkHdr ≤ request.size :=
  (Nat.le_add_right _ _).trans h.room

/-! ## The critical section of `alloc` -/

theorem Inv.grow (h : Inv store pid state) (halive : state.dead (pid thread) = false) {request : Request}
    (hphase : state.phase thread = .allocLocked request) :
    Inv store pid (choose.grow store state thread request) := by
  have hlocked : (state.phase thread).locked = true := by rw [hphase]; rfl
  have hrequest : RequestOk store request := by
    have hold := (h.threads thread).hold
    rwa [hphase] at hold
  have hlock := (h.threads thread).locked halive hlocked
  unfold choose.grow
  split
  · exact h.quiet ⟨rfl, rfl, rfl, rfl, rfl, rfl, rfl, rfl, rfl, rfl, rfl, le_rfl⟩ rfl (.inl rfl) trivial
      (fun _ ↦ hlock) trivial nofun
  · have hseg (place : Place) (block : Carved) (hblock : state.carved place = some block)
        (hregular : place.dedicated = false) : place.seg < state.ctl.nreg :=
      (h.layout.regular place block hblock hregular).1
    refine h.move rfl ?_ h.refs h.lists ⟨rfl, fun _ _ _ _ hheld ↦ ⟨hheld, rfl⟩, le_rfl, fun _ _ _ _ ↦ id⟩
      (.inr (alone_of_holder h halive hlocked)) ⟨hrequest, fun _ _ ↦ hlock, fun _ ↦ ⟨rfl, ?_, ?_⟩⟩ nofun
    · apply h.layout.setNreg
      · exact fun place block hblock hregular ↦ (hseg place block hblock hregular).trans (Nat.lt_succ_self _)
      · exact fun seg hseg ↦ (h.layout.cur seg hseg).1.trans (Nat.lt_succ_self _)
    · exact fun place block hblock hregular ↦ (hseg place block hblock hregular).ne
    · intro hcur
      exact absurd (h.layout.cur _ hcur).1 (lt_irrefl _)

/-- `alloc` takes a free block, carves one, or begins a new segment. -/
theorem Inv.choose (h : Inv store pid state) (halive : state.dead (pid thread) = false) {request : Request}
    (hphase : state.phase thread = .allocLocked request) (attached : Bool) :
    Inv store pid (choose store state thread request attached) := by
  have hlocked : (state.phase thread).locked = true := by rw [hphase]; rfl
  have hrequest : RequestOk store request := by
    have hold := (h.threads thread).hold
    rwa [hphase] at hold
  have hlock := (h.threads thread).locked halive hlocked
  unfold Store.choose
  dsimp only
  split
  · rename_i hword
    split
    · obtain ⟨hmem, hlists⟩ := h.lists.pop hword (.held thread)
      obtain ⟨hfree, hregular, -, -⟩ := h.lists.listed _ _ hmem
      have hcarved (other : Place) (hne : other ≠ placeAt (state.ctl.free request.cls)) :
          restatus state.carved (placeAt (state.ctl.free request.cls)) (.held thread) other =
            state.carved other := restatus_of_ne hne _
      have hself := restatus_self hfree (.held thread)
      refine h.move rfl ?_ ?_ hlists ?_ (.inr (alone_of_holder h halive hlocked)) ⟨?_, ?_, ?_⟩ nofun
      · exact (h.layout.setStatus hfree nofun (.held thread)).congr rfl le_rfl rfl rfl
      · exact h.refs.atPlace hcarved (fun _ _ ↦ rfl) (fun _ ↦ status_ne hfree nofun)
          (fun _ ↦ status_ne hself nofun)
      · exact frame_atPlace hcarved (fun _ _ ↦ rfl) (fun _ _ _ ↦ status_ne hfree nofun) rfl le_rfl
          (ne_of_carved hfree)
      · exact ⟨classSize request.cls, hself, hrequest.size ▸ hrequest.room, fun _ ↦ ⟨rfl, hrequest.cls⟩⟩
      · exact fun _ _ ↦ hlock
      · exact fun _ ↦ trivial
    · exact h.quiet ⟨rfl, rfl, rfl, rfl, rfl, rfl, rfl, rfl, rfl, rfl, rfl, le_rfl⟩ rfl (.inl rfl) trivial
        (fun _ ↦ hlock) trivial nofun
  · split
    · rename_i seg hcur
      split
      · exact h.carve halive hlocked hrequest (h.layout.fresh hcur) rfl rfl rfl
          (h.layout.carve hcur ‹_› (blkHdr_le_size hrequest) (.held thread))
      · exact h.grow halive hphase
    · exact h.grow halive hphase

theorem Inv.createSegment (h : Inv store pid state) (halive : state.dead (pid thread) = false)
    {request : Request} {id : ℕ} (hphase : state.phase thread = .creating request id) (hmax : id < 2 ^ 24) :
    Inv store pid (State.goto { state with
      segments := Function.update state.segments (id, false) (some store.segBytes) } thread
        (.addUsed request id)) := by
  have hlocked : (state.phase thread).locked = true := by rw [hphase]; rfl
  have hthread := h.threads thread
  rw [hphase] at hthread
  obtain ⟨hnreg, huncarved, -⟩ := hthread.guard halive
  refine h.move rfl (h.layout.create id) h.refs h.lists
    ⟨rfl, fun _ _ _ _ hheld ↦ ⟨hheld, rfl⟩, le_rfl, fun _ _ _ _ ↦ fun hnone ↦ hnone⟩
    (.inr (alone_of_holder h halive hlocked)) ⟨hthread.hold, fun _ _ ↦ hthread.locked halive rfl, ?_⟩ nofun
  refine fun _ ↦ ⟨?_, hmax, Function.update_self .., huncarved⟩
  show id < state.ctl.nreg
  omega

theorem Inv.createFailed (h : Inv store pid state) (halive : state.dead (pid thread) = false)
    {request : Request} {id : ℕ} (hphase : state.phase thread = .creating request id) :
    Inv store pid (State.goto { state with ctl := { state.ctl with nreg := id } } thread
      (.allocUnlock none)) := by
  have hlocked : (state.phase thread).locked = true := by rw [hphase]; rfl
  have hthread := h.threads thread
  rw [hphase] at hthread
  obtain ⟨hnreg, huncarved, hcur⟩ := hthread.guard halive
  refine h.move rfl (h.layout.setNreg ?_ ?_) h.refs h.lists
    ⟨rfl, fun _ _ _ _ hheld ↦ ⟨hheld, rfl⟩, le_rfl, fun _ _ _ _ ↦ fun hnone ↦ hnone⟩
    (.inr (alone_of_holder h halive hlocked))
    ⟨trivial, fun _ _ ↦ hthread.locked halive rfl, fun _ ↦ trivial⟩ nofun
  · intro place block hblock hregular
    have hlt := (h.layout.regular place block hblock hregular).1
    have hne := huncarved place block hblock hregular
    omega
  · intro seg hseg
    have hlt := (h.layout.cur seg hseg).1
    have hne : seg ≠ id := by
      rintro rfl
      exact hcur hseg
    omega

theorem Inv.setCur (h : Inv store pid state) (halive : state.dead (pid thread) = false)
    {request : Request} {id : ℕ} (hphase : state.phase thread = .setCur request id) :
    Inv store pid (State.goto { state with ctl := { state.ctl with cur := some id } } thread
      (.setBump request id)) := by
  have hlocked : (state.phase thread).locked = true := by rw [hphase]; rfl
  have hthread := h.threads thread
  rw [hphase] at hthread
  obtain ⟨hid, hmax, hsegment, huncarved⟩ := hthread.guard halive
  exact h.move rfl (h.layout.setCur hid hmax hsegment huncarved state.ctl.bump) h.refs h.lists
    ⟨rfl, fun _ _ _ _ hheld ↦ ⟨hheld, rfl⟩, le_rfl, fun _ _ _ _ ↦ fun hnone ↦ hnone⟩
    (.inr (alone_of_holder h halive hlocked))
    ⟨hthread.hold, fun _ _ ↦ hthread.locked halive rfl, fun _ ↦ ⟨⟨hid, hmax, hsegment, huncarved⟩, rfl⟩⟩ nofun

theorem Inv.setBump (h : Inv store pid state) (halive : state.dead (pid thread) = false)
    {request : Request} {id : ℕ} (hphase : state.phase thread = .setBump request id) :
    Inv store pid (State.goto (State.setCarved { state with ctl := { state.ctl with bump := request.size } }
      ⟨id, 0, false⟩ request.size (.held thread)) thread
        (.allocUnlock (some ⟨request.nbytes, request.cls, ⟨id, 0, false⟩⟩))) := by
  have hlocked : (state.phase thread).locked = true := by rw [hphase]; rfl
  have hthread := h.threads thread
  rw [hphase] at hthread
  have hrequest : RequestOk store request := hthread.hold
  obtain ⟨⟨hid, hmax, hsegment, huncarved⟩, hcur⟩ := hthread.guard halive
  have hnone : state.carved ⟨id, 0, false⟩ = none := by
    by_contra hcontra
    obtain ⟨block, hblock⟩ := Option.ne_none_iff_exists'.mp hcontra
    exact huncarved _ block hblock rfl rfl
  refine h.carve halive hlocked hrequest hnone rfl rfl rfl ?_
  -- The segment is empty, so carving starts at offset 0 whatever the stale offset was.
  have hempty := h.layout.setCur hid hmax hsegment huncarved 0
  have hcarved := hempty.carve rfl (by rw [Nat.zero_add]; exact hrequest.fits) (blkHdr_le_size hrequest)
    (.held thread)
  exact hcarved.congr rfl le_rfl hcur (Nat.zero_add _).symm

/-! ## Initialising a block -/

theorem Inv.initRc (h : Inv store pid state) {claim : Claim} (hphase : state.phase thread = .initRc claim) :
    Inv store pid ((state.setHdr claim.place { state.hdr claim.place with rc := 1 }).goto thread
      (.initClass claim)) := by
  have hclaim : ClaimOk state thread claim := by
    have hold := (h.threads thread).hold
    rwa [hphase] at hold
  obtain ⟨size, hcarved, hroom⟩ := hclaim
  refine h.setHdr hcarved nofun ⟨⟨size, hcarved, hroom⟩, ?_⟩ trivial rfl
  simp [State.goto, State.setHdr]

theorem Inv.initClass (h : Inv store pid state) {claim : Claim}
    (hphase : state.phase thread = .initClass claim) :
    Inv store pid ((state.setHdr claim.place { state.hdr claim.place with cls := claim.cls }).goto thread
      (.initLen claim)) := by
  have hhold := (h.threads thread).hold
  rw [hphase] at hhold
  obtain ⟨⟨size, hcarved, hroom⟩, hrc⟩ := hhold
  refine h.setHdr hcarved nofun ⟨⟨size, hcarved, hroom⟩, ?_⟩ trivial rfl
  simp [State.goto, State.setHdr, hrc]

/-- The initialised block gets its first reference. -/
theorem Inv.initLen (h : Inv store pid state) {claim : Claim}
    (hphase : state.phase thread = .initLen claim) :
    Inv store pid (State.goto { (state.setHdr claim.place { state.hdr claim.place with
      len := claim.nbytes }).setStatus claim.place .live with
        blocks := state.blocks ++ [⟨pid thread, claim.place, claim.nbytes⟩] } thread .idle) := by
  have hhold := (h.threads thread).hold
  rw [hphase] at hhold
  obtain ⟨⟨size, hcarved, hroom, hregular⟩, hrc, hcls⟩ := hhold
  have hsame : ∀ other, other ≠ claim.place → restatus state.carved claim.place .live other =
      state.carved other := fun other hne ↦ restatus_of_ne hne _
  have hhdr : ∀ other, other ≠ claim.place → Function.update state.hdr claim.place
      { state.hdr claim.place with len := claim.nbytes } other = state.hdr other :=
    fun other hne ↦ Function.update_of_ne hne _ _
  refine h.move rfl (h.layout.setStatus hcarved nofun .live) ?_ ?_ ?_
    (.inl ⟨rfl, rfl, rfl, rfl, fun _ ↦ rfl, ?_⟩) ⟨trivial, nofun, fun _ ↦ trivial⟩ nofun
  · exact h.refs.init ⟨pid thread, claim.place, claim.nbytes⟩ hcarved nofun hrc hroom (hcls ▸ hregular)
  · exact h.lists.atPlace hsame hhdr fun _ _ ↦ status_ne hcarved nofun
  · exact frame_atPlace hsame hhdr (held_ne hcarved) rfl le_rfl (ne_of_carved hcarved)
  · intro place block hblock _
    rcases eq_or_ne place claim.place with rfl | hne
    · exact ⟨_, hcarved⟩
    · exact ⟨block, (hsame place hne).symm.trans hblock⟩

theorem Inv.createDedicated (h : Inv store pid state) {nbytes size id : ℕ}
    (hphase : state.phase thread = .dedCreate nbytes size id) (hpos : 0 < size) :
    Inv store pid (State.goto (State.setCarved { state with
      segments := Function.update state.segments (id, true) (some size) } ⟨id, 0, true⟩ size
        (.held thread)) thread (.initRc ⟨nbytes, 2 ^ 32 - 1, ⟨id, 0, true⟩⟩)) := by
  have hhold := (h.threads thread).hold
  rw [hphase] at hhold
  obtain ⟨hroom, hid, hnone⟩ := hhold
  have hheader : blkHdr ≤ size := (Nat.le_add_right _ _).trans (hroom hpos)
  have hsame : ∀ other, other ≠ ⟨id, 0, true⟩ → Function.update state.carved ⟨id, 0, true⟩
      (some ⟨size, .held thread⟩) other = state.carved other := fun other hne ↦ Function.update_of_ne hne _ _
  have hself : Function.update state.carved ⟨id, 0, true⟩ (some ⟨size, .held thread⟩) ⟨id, 0, true⟩ =
      some ⟨size, .held thread⟩ := Function.update_self ..
  have hbefore (block : Carved) : state.carved ⟨id, 0, true⟩ ≠ some block := by simp [hnone]
  refine h.move rfl (h.layout.createDedicated hid hheader (.held thread)) ?_ ?_ ?_
    (.inl ⟨rfl, rfl, rfl, rfl, fun _ ↦ Function.update_of_ne (by simp) _ _, ?_⟩)
    ⟨⟨size, hself, hroom hpos, nofun⟩, nofun, fun _ ↦ trivial⟩ nofun
  · exact h.refs.atPlace hsame (fun _ _ ↦ rfl) (fun _ ↦ hbefore _) (fun _ ↦ status_ne hself nofun)
  · exact h.lists.atPlace hsame (fun _ _ ↦ rfl) (fun _ _ ↦ hbefore _)
  · refine frame_atPlace hsame (fun _ _ ↦ rfl) (fun _ _ _ ↦ hbefore _) rfl le_rfl ?_
    intro other hne other_id hother _ heq
    rw [Place.mk.injEq] at heq
    exact hne (h.ids other thread other_id hother (by rw [hphase, ← heq.1]; rfl))
  · intro place block hblock hregular
    have hne : place ≠ ⟨id, 0, true⟩ := by
      rintro rfl
      cases hregular
    exact ⟨block, (hsame place hne).symm.trans hblock⟩

/-! ## References come and go -/

theorem goto_self (state : State) {phase : Phase} (h : state.phase thread = phase) :
    state.phase = Function.update state.phase thread phase := by
  rw [← h, Function.update_eq_self]

/-- A share adds the handle that its message carries. -/
theorem Inv.share (h : Inv store pid state) (hidle : state.phase thread = .idle) {block : Block}
    (hblock : block ∈ state.blocks) (hmax : Store.refs state.blocks state.handles block.place + 1 < 2 ^ 32) :
    Inv store pid { state.setHdr block.place { state.hdr block.place with
      rc := ((state.hdr block.place).rc + 1) % 2 ^ 32 } with handles := state.handles ++ [block.place] } := by
  obtain ⟨size, hlive⟩ := h.refs.live_of_pos block.place (refs_block hblock)
  have hhdr : ∀ other, other ≠ block.place → Function.update state.hdr block.place
      { state.hdr block.place with rc := ((state.hdr block.place).rc + 1) % 2 ^ 32 } other =
        state.hdr other := fun other hne ↦ Function.update_of_ne hne _ _
  refine h.move (goto_self state hidle) h.layout (h.refs.share hblock hmax) ?_ ?_
    (.inl ⟨rfl, rfl, rfl, rfl, fun _ ↦ rfl, fun _ block hblock _ ↦ ⟨block, hblock⟩⟩)
    ⟨trivial, nofun, fun _ ↦ trivial⟩ nofun
  · exact h.lists.atPlace (fun _ _ ↦ rfl) hhdr fun _ _ ↦ status_ne hlive nofun
  · exact frame_atPlace (fun _ _ ↦ rfl) hhdr (fun _ _ _ ↦ status_ne hlive nofun) rfl le_rfl
      (ne_of_carved hlive)

/-- The segment of a referenced block is there and holds its header. -/
theorem Inv.segment_of_live (h : Inv store pid state) {size : ℕ}
    (hlive : state.carved place = some ⟨size, .live⟩) :
    ∃ length, state.segments (place.seg, place.dedicated) = some length ∧ place.off + size ≤ length := by
  cases hdedicated : place.dedicated with
  | true =>
    obtain ⟨hoff, -, hsegment⟩ := h.layout.dedicated place _ hlive hdedicated
    exact ⟨size, hsegment nofun, by omega⟩
  | false =>
    obtain ⟨-, -, hsegment, hinside, -⟩ := h.layout.regular place _ hlive hdedicated
    exact ⟨store.segBytes, hsegment, hinside⟩

/-- `adopt` makes a `Block` of a handle. -/
theorem Inv.adopt (h : Inv store pid state) (hidle : state.phase thread = .idle)
    (hhandle : place ∈ state.handles) : Inv store pid (adopt pid state thread place) := by
  obtain ⟨size, hlive⟩ := h.refs.live_of_pos place (refs_handle hhandle)
  obtain ⟨length, hsegment, hinside⟩ := h.segment_of_live hlive
  have hheader := h.layout.header place _ hlive
  have hadopt : Store.adopt pid state thread place = { state with
      handles := state.handles.erase place
      blocks := state.blocks ++ [⟨pid thread, place, (state.hdr place).len⟩] } := by
    simp only [Store.adopt, hsegment]
    rw [if_neg]
    simp only at hheader
    omega
  rw [hadopt]
  refine h.move (goto_self state hidle) h.layout ?_ h.lists ?_
    (.inl ⟨rfl, rfl, rfl, rfl, fun _ ↦ rfl, fun _ block hblock _ ↦ ⟨block, hblock⟩⟩)
    ⟨trivial, nofun, fun _ ↦ trivial⟩ nofun
  · exact h.refs.adopt ⟨pid thread, place, (state.hdr place).len⟩ hhandle rfl
  · exact ⟨rfl, fun _ _ _ _ hheld ↦ ⟨hheld, rfl⟩, le_rfl, fun _ _ _ _ hnone ↦ hnone⟩

/-- The last reference frees the block. -/
theorem Inv.dropBlock (h : Inv store pid state) (hidle : state.phase thread = .idle) {block : Block}
    (hblock : block ∈ state.blocks) : Inv store pid (dropBlock state thread block) := by
  obtain ⟨size, hlive⟩ := h.refs.live_of_pos block.place (refs_block hblock)
  obtain ⟨-, -, -, -, hclass⟩ := h.refs.live block.place size hlive
  have hhdr (hdr : Hdr) : ∀ other, other ≠ block.place →
      Function.update state.hdr block.place hdr other = state.hdr other :=
    fun other hne ↦ Function.update_of_ne hne _ _
  unfold Store.dropBlock
  dsimp only
  split
  · rename_i hrc
    refine h.move (goto_self state hidle) h.layout (h.refs.drop hblock hrc) ?_ ?_
      (.inl ⟨rfl, rfl, rfl, rfl, fun _ ↦ rfl, fun _ block hblock _ ↦ ⟨block, hblock⟩⟩)
      ⟨trivial, nofun, fun _ ↦ trivial⟩ nofun
    · exact h.lists.atPlace (fun _ _ ↦ rfl) (hhdr _) fun _ _ ↦ status_ne hlive nofun
    · exact frame_atPlace (fun _ _ ↦ rfl) (hhdr _) (fun _ _ _ ↦ status_ne hlive nofun) rfl le_rfl
        (ne_of_carved hlive)
  · rename_i hrc
    have hone : (state.hdr block.place).rc = 1 := by simpa using hrc
    have hsame : ∀ other, other ≠ block.place → restatus state.carved block.place (.held thread) other =
        state.carved other := fun other hne ↦ restatus_of_ne hne _
    have hself := restatus_self hlive (.held thread)
    have hrefs := h.refs.dropLast hblock hone (.held thread) nofun { state.hdr block.place with
      rc := ((state.hdr block.place).rc + (2 ^ 32 - 1)) % 2 ^ 32 }
    refine h.move rfl (h.layout.setStatus hlive nofun (.held thread)) hrefs ?_ ?_
      (.inl ⟨rfl, rfl, rfl, rfl, fun _ ↦ rfl, ?_⟩) ⟨?_, ?_, ?_⟩ ?_
    · exact h.lists.atPlace hsame (hhdr _) fun _ _ ↦ status_ne hlive nofun
    · exact frame_atPlace hsame (hhdr _) (fun _ _ _ ↦ status_ne hlive nofun) rfl le_rfl (ne_of_carved hlive)
    · intro place block' hblock' _
      rcases eq_or_ne place block.place with rfl | hne
      · exact ⟨_, hlive⟩
      · exact ⟨block', (hsame place hne).symm.trans hblock'⟩
    · cases hdedicated : block.place.dedicated with
      | true => exact ⟨hdedicated, size, hself⟩
      | false =>
        obtain ⟨hsize, hlt⟩ := hclass hdedicated
        have hcls : (Function.update state.hdr block.place { state.hdr block.place with
            rc := ((state.hdr block.place).rc + (2 ^ 32 - 1)) % 2 ^ 32 } block.place).cls =
            (state.hdr block.place).cls := by rw [Function.update_self]
        refine ⟨hdedicated, rfl, ?_, ?_⟩
        · exact hcls.symm ▸ hlt
        · refine hself.trans ?_
          rw [hsize]
          exact congrArg (fun cls ↦ some (Carved.mk (classSize cls) (.held thread))) hcls.symm
    · cases block.place.dedicated <;> nofun
    · intro _
      cases block.place.dedicated <;> trivial
    · cases block.place.dedicated <;> nofun

/-! ## Freeing a block -/

theorem Inv.unlink (h : Inv store pid state) (hphase : state.phase thread = .unlinking place) (size : ℕ) :
    Inv store pid (State.goto (State.setStatus { state with
      segments := Function.update state.segments (place.seg, true) none } place .gone) thread
        (.giveBack size)) := by
  have hhold := (h.threads thread).hold
  rw [hphase] at hhold
  obtain ⟨hdedicated, size', hcarved⟩ := hhold
  have hsame : ∀ other, other ≠ place → restatus state.carved place .gone other = state.carved other :=
    fun other hne ↦ restatus_of_ne hne _
  have hself := restatus_self hcarved .gone
  refine h.move rfl (h.layout.unlink hcarved hdedicated nofun) ?_ ?_ ?_
    (.inl ⟨rfl, rfl, rfl, rfl, fun _ ↦ Function.update_of_ne (by simp) _ _, ?_⟩)
    ⟨trivial, nofun, fun _ ↦ trivial⟩ nofun
  · exact h.refs.atPlace hsame (fun _ _ ↦ rfl) (fun _ ↦ status_ne hcarved nofun)
      (fun _ ↦ status_ne hself nofun)
  · exact h.lists.atPlace hsame (fun _ _ ↦ rfl) fun _ _ ↦ status_ne hcarved nofun
  · exact frame_atPlace hsame (fun _ _ ↦ rfl) (held_ne hcarved) rfl le_rfl (ne_of_carved hcarved)
  · intro other block hblock _
    rcases eq_or_ne other place with rfl | hne
    · exact ⟨_, hcarved⟩
    · exact ⟨block, (hsame other hne).symm.trans hblock⟩

theorem Inv.link (h : Inv store pid state) (halive : state.dead (pid thread) = false) {cls : ℕ}
    (hphase : state.phase thread = .freeLocked place cls) :
    Inv store pid ((state.setHdr place { state.hdr place with next := state.ctl.free cls }).goto thread
      (.linked place cls)) := by
  have hthread := h.threads thread
  rw [hphase] at hthread
  have hfreeing : FreeingOk state thread place cls := hthread.hold
  refine h.setHdr hfreeing.carved (fun _ ↦ hthread.locked halive rfl) ?_ ?_ rfl
  · refine ⟨hfreeing.regular, ?_, hfreeing.lt, hfreeing.carved⟩
    simpa [State.goto, State.setHdr] using hfreeing.header
  · simp [GuardOk, State.goto, State.setHdr]

/-- The word of a regular block in its segment names that block. -/
theorem wordOf_regular (h : Layout store state.ctl state.segments state.carved) {block : Carved}
    (hblock : state.carved place = some block) (hregular : place.dedicated = false) :
    wordOf place ≠ 0 ∧ placeAt (wordOf place) = place := by
  obtain ⟨-, hseg, -, hinside, -⟩ := h.regular place block hblock hregular
  have hheader := h.header place block hblock
  have hmax := store.le_max
  unfold blkHdr at hheader
  have hoff : place.off < 2 ^ 40 := by omega
  have hpack := pack_eq hseg hoff
  have hword : wordOf place = pack place.seg place.off + 1 := by
    rw [wordOf, Nat.mod_eq_of_lt]
    omega
  refine ⟨by omega, ?_⟩
  rw [placeAt, hword, Nat.add_sub_cancel, unpack_pack hseg hoff]
  cases place
  simp_all

/-- The store of the list's word makes the block free for all. -/
theorem Inv.publish (h : Inv store pid state) (halive : state.dead (pid thread) = false) {cls : ℕ}
    (hphase : state.phase thread = .linked place cls) :
    Inv store pid (State.goto (State.setStatus { state with
      ctl := { state.ctl with free := Function.update state.ctl.free cls (wordOf place) }
      freeList := Function.update state.freeList cls (place :: state.freeList cls) } place (.free cls)) thread
        .freeUnlock) := by
  have hlocked : (state.phase thread).locked = true := by rw [hphase]; rfl
  have hthread := h.threads thread
  rw [hphase] at hthread
  have hfreeing : FreeingOk state thread place cls := hthread.hold
  have hnext : (state.hdr place).next = state.ctl.free cls := hthread.guard halive
  obtain ⟨hword, hplace⟩ := wordOf_regular h.layout hfreeing.carved hfreeing.regular
  have hsame : ∀ other, other ≠ place → restatus state.carved place (.free cls) other =
      state.carved other := fun other hne ↦ restatus_of_ne hne _
  have hself := restatus_self hfreeing.carved (.free cls)
  refine h.move rfl ((h.layout.setStatus hfreeing.carved nofun (.free cls)).congr rfl le_rfl rfl rfl) ?_ ?_ ?_
    (.inr (alone_of_holder h halive hlocked)) ⟨trivial, fun _ _ ↦ hthread.locked halive rfl, fun _ ↦ trivial⟩
    nofun
  · exact h.refs.atPlace hsame (fun _ _ ↦ rfl) (fun _ ↦ status_ne hfreeing.carved nofun)
      (fun _ ↦ status_ne hself nofun)
  · exact h.lists.push hfreeing.carved nofun hfreeing.regular hfreeing.header hfreeing.lt hnext hword hplace
  · exact frame_atPlace hsame (fun _ _ ↦ rfl) (held_ne hfreeing.carved) rfl le_rfl
      (ne_of_carved hfreeing.carved)

/-! ## Whole steps -/

/-- The size of an allocation does not wrap, and a block gets fewer than 2^32 references. -/
def sound (state : State) : Action → Bool
  | .act _ (.alloc nbytes) => blkHdr + nbytes < 2 ^ 64
  | .act _ (.share block) => refs state.blocks state.handles block.place + 1 < 2 ^ 32
  | _ => true

theorem RequestOk.ofClass {nbytes : ℕ} (h : blkHdr + nbytes ≤ store.maxClassBlock) :
    RequestOk store ⟨nbytes, (classOf (blkHdr + nbytes)).1, (classOf (blkHdr + nbytes)).2⟩ := by
  have hmax : store.maxClassBlock ≤ Store.maxClassBlock := min_le_left _ _
  have hquarter : store.maxClassBlock ≤ store.segBytes / 4 := min_le_right _ _
  obtain ⟨hlt, hsize, hroom, hfits⟩ := classOf_spec (h.trans hmax)
  refine ⟨hroom, hsize, hlt, hfits.trans (max_le ?_ ?_)⟩
  · have := store.min_le
    unfold minBlock
    omega
  · omega

theorem Inv.allocBegin (h : Inv store pid state) {nbytes : ℕ}
    (hwrap : blkHdr + nbytes < 2 ^ 64) : Inv store pid (allocBegin store state thread nbytes) := by
  have hsame (phase : Phase) : SameStore state (state.goto thread phase) :=
    ⟨rfl, rfl, rfl, rfl, rfl, rfl, rfl, rfl, rfl, rfl, rfl, le_rfl⟩
  unfold Store.allocBegin
  rw [Nat.mod_eq_of_lt hwrap]
  dsimp only
  split
  · refine h.quiet (hsame _) rfl (.inl rfl) ?_ nofun trivial nofun
    exact le_dedicatedSize hwrap
  · rename_i hfits
    exact h.quiet (hsame _) rfl (.inl rfl) (RequestOk.ofClass (Nat.not_lt.mp hfits)) nofun trivial nofun

/-- An id just taken is beyond all that other threads hold. -/
theorem Inv.id_fresh (h : Inv store pid state) (other : ℕ) :
    (state.phase other).dedicatedId ≠ some state.ctl.nded := by
  intro hid
  have hhold := (h.threads other).hold
  cases hphase : state.phase other with
  | dedCreate nbytes size id =>
    rw [hphase] at hhold hid
    cases hid
    exact absurd hhold.2.1 (lt_irrefl _)
  | _ =>
    rw [hphase] at hid
    cases hid

theorem Inv.takeId (h : Inv store pid state) {nbytes size : ℕ}
    (hphase : state.phase thread = .dedId nbytes size) :
    Inv store pid (State.goto { state with ctl := { state.ctl with nded := state.ctl.nded + 1 } } thread
      (.dedCreate nbytes size state.ctl.nded)) := by
  have hhold := (h.threads thread).hold
  rw [hphase] at hhold
  refine h.quiet ⟨rfl, rfl, rfl, rfl, rfl, rfl, rfl, rfl, rfl, rfl, rfl, Nat.le_succ _⟩ rfl (.inl rfl) ?_
    nofun trivial ?_
  · refine ⟨hhold, Nat.lt_succ_self _, ?_⟩
    by_contra hcontra
    obtain ⟨block, hblock⟩ := Option.ne_none_iff_exists'.mp hcontra
    exact absurd (h.layout.dedicated _ block hblock rfl).2.1 (lt_irrefl _)
  · rintro id ⟨⟩ other _
    exact h.id_fresh other

/-- Every sound move of a live thread keeps the invariant. -/
theorem Inv.moveStep (h : Inv store pid state) (halive : state.dead (pid thread) = false) {move : Move}
    (hsound : sound state (.act thread move) = true)
    (hnext : moveStep store pid state thread move = some next) : Inv store pid next := by
  have hthread := h.threads thread
  have hquiet (lock : Option ℕ) (used : ℕ) (phase : Phase) : SameStore state (State.goto { state with
      lock := lock, ctl := { state.ctl with used := used } } thread phase) :=
    ⟨rfl, rfl, rfl, rfl, rfl, rfl, rfl, rfl, rfl, rfl, rfl, le_rfl⟩
  have hkeep (phase : Phase) : SameStore state (state.goto thread phase) :=
    ⟨rfl, rfl, rfl, rfl, rfl, rfl, rfl, rfl, rfl, rfl, rfl, le_rfl⟩
  have hrelock (lock : Option ℕ) (phase : Phase) : SameStore state (State.goto { state with
      lock := lock } thread phase) :=
    ⟨rfl, rfl, rfl, rfl, rfl, rfl, rfl, rfl, rfl, rfl, rfl, le_rfl⟩
  cases moveStep_cases hnext with
  | alloc nbytes hphase => exact h.allocBegin (by simpa [sound] using hsound)
  | acquireAlloc request hphase hlockable =>
    rw [hphase] at hthread
    exact h.quiet (hrelock _ _) rfl (.inr fun _ _ ↦ h.not_locked_of_lockable hlockable) hthread.hold
      (fun _ ↦ rfl) trivial nofun
  | choose request attached hphase => exact h.choose halive hphase attached
  | createRegular request id hphase hmax => exact h.createSegment halive hphase hmax
  | regularFailed request id hphase => exact h.createFailed halive hphase
  | addUsed request id hphase =>
    rw [hphase] at hthread
    have hsegment : NewSegment store state id := hthread.guard halive
    exact h.quiet (hquiet _ _ _) rfl (.inl rfl) hthread.hold (fun _ ↦ hthread.locked halive rfl)
      (hsegment.outside ((hquiet _ _ _).outside rfl)) nofun
  | setCur request id hphase => exact h.setCur halive hphase
  | setBump request id hphase => exact h.setBump halive hphase
  | unlockRefused hphase | unlockFree hphase =>
    have hlocked : (state.phase thread).locked = true := by rw [hphase]; rfl
    exact h.quiet (hrelock _ _) rfl (.inr (alone_of_holder h halive hlocked)) trivial nofun trivial nofun
  | unlockClaim claim hphase =>
    have hlocked : (state.phase thread).locked = true := by rw [hphase]; rfl
    rw [hphase] at hthread
    exact h.quiet (hrelock _ _) rfl (.inr (alone_of_holder h halive hlocked)) hthread.hold nofun trivial nofun
  | attachFailed claim hphase => exact h.quiet (hkeep _) rfl (.inl rfl) trivial nofun trivial nofun
  | initRc claim hphase => exact h.initRc hphase
  | initClass claim hphase => exact h.initClass hphase
  | initLen claim hphase => exact h.initLen hphase
  | reserve nbytes size hphase =>
    rw [hphase] at hthread
    split
    · exact h.quiet (hquiet _ _ _) rfl (.inl rfl) trivial nofun trivial nofun
    · exact h.quiet (hquiet _ _ _) rfl (.inl rfl) hthread.hold nofun trivial nofun
  | takeId nbytes size hphase => exact h.takeId hphase
  | createDedicated nbytes size id hphase hpos => exact h.createDedicated hphase hpos
  | dedicatedFailed nbytes size id hphase =>
    exact h.quiet (hkeep _) rfl (.inl rfl) trivial nofun trivial nofun
  | giveBack size hphase => exact h.quiet (hquiet _ _ _) rfl (.inl rfl) trivial nofun trivial nofun
  | share block hphase hblock => exact h.share hphase hblock (by simpa [sound] using hsound)
  | adopt place hphase hhandle => exact h.adopt hphase hhandle
  | drop block hphase hblock => exact h.dropBlock hphase hblock
  | unlink place hphase => exact h.unlink hphase _
  | acquireFree place hphase hlockable =>
    rw [hphase] at hthread
    have hfreeing : FreeingOk state thread place (state.hdr place).cls := hthread.hold
    exact h.quiet (hrelock _ _) rfl (.inr fun _ _ ↦ h.not_locked_of_lockable hlockable)
      ⟨hfreeing.regular, hfreeing.header, hfreeing.lt, hfreeing.carved⟩ (fun _ ↦ rfl) trivial nofun
  | link place cls hphase => exact h.link halive hphase
  | publish place cls hphase => exact h.publish halive hphase

/-- A death only takes obligations away. -/
theorem Inv.die (h : Inv store pid state) (process : UInt32) :
    Inv store pid { state with dead := Function.update state.dead process true } := by
  refine ⟨h.layout, h.refs, h.lists, fun thread ↦ ?_, h.ids⟩
  have hthread := h.threads thread
  have halive (hafter : Function.update state.dead process true (pid thread) = false) :
      state.dead (pid thread) = false := by
    rcases eq_or_ne (pid thread) process with heq | hne
    · simp [heq] at hafter
    · rwa [Function.update_of_ne hne] at hafter
  refine ⟨?_, fun hafter ↦ hthread.locked (halive hafter), fun hafter ↦ ?_⟩
  · have hhold := hthread.hold
    revert hhold
    cases state.phase thread with
    | allocUnlock claim => cases claim <;> exact id
    | _ =>
      intro hhold
      first | exact hhold | exact ⟨hhold.regular, hhold.header, hhold.lt, hhold.carved⟩
  · have hguard := hthread.guard (halive hafter)
    revert hguard
    cases state.phase thread with
    | addUsed | setCur => exact fun hguard ↦ ⟨hguard.lt_nreg, hguard.lt_max, hguard.length, hguard.uncarved⟩
    | setBump =>
      exact fun hguard ↦ ⟨⟨hguard.1.lt_nreg, hguard.1.lt_max, hguard.1.length, hguard.1.uncarved⟩, hguard.2⟩
    | _ => exact id

/-- So does every step, deaths included. -/
theorem Inv.step (h : Inv store pid state) {action : Action} (hsound : sound state action = true)
    (hnext : step store pid state action = some next) : Inv store pid next := by
  cases action with
  | act thread move =>
    simp only [Store.step, Option.ite_none_left_eq_some, Bool.not_eq_true] at hnext
    exact h.moveStep hnext.1 hsound hnext.2
  | die process =>
    cases hnext
    exact h.die process

/-- The invariant holds in every state of every run whose steps are sound. -/
theorem inv_of_reachable (h : ((machine store pid).restrict sound).Reachable state) :
    Inv store pid state := by
  refine h.invariant (Inv store pid) inv_start ?_
  intro state action next hinv hstep
  obtain ⟨hsound, hnext⟩ := Machine.restrict_step hstep
  exact hinv.step hsound hnext

end GpuPipe.Store
