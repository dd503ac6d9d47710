import GpuPipe.Store.Preservation

/-!
# The store never hands out overlapping memory

Read off the shared words alone: a block is in use if a live `Block` object or a handle
refers to it, if a free list leads to it, or if a thread is initialising it. In every
run whose steps are sound, blocks in use lie in their segments, apart from each other,
with room for what they hold, and each free list is a finite chain of its class.
-/

namespace GpuPipe.Store

variable {store : PayloadStore} {pid : ℕ → UInt32} {state : State} {place : Place} {size : ℕ}

/-- The bytes a block of this class takes; a dedicated block takes its whole segment. -/
def blockSize (state : State) (place : Place) (cls : ℕ) : ℕ :=
  if place.dedicated then (state.segments (place.seg, true)).getD 0 else classSize cls

/-- A block in use and the bytes it takes. -/
inductive InUse (state : State) : Place → ℕ → Prop
  | referenced {place : Place} (hrefs : 0 < refs state.blocks state.handles place) :
      InUse state place (blockSize state place (state.hdr place).cls)
  | listed {place : Place} {cls : ℕ} {list : List Place} (hlt : cls < nClass)
      (hchain : FreeChain state.hdr (state.ctl.free cls) list) (hmem : place ∈ list) :
      InUse state place (classSize cls)
  | initialising {thread : ℕ} {claim : Claim} (hclaim : (state.phase thread).claim = some claim) :
      InUse state claim.place (blockSize state claim.place claim.cls)

structure NoOverlap (state : State) : Prop where
  inside : ∀ place size, InUse state place size →
    ∃ length, state.segments (place.seg, place.dedicated) = some length ∧ place.off + size ≤ length
  apart : ∀ first second size size', InUse state first size → InUse state second size' → first ≠ second →
    first.seg = second.seg → first.dedicated = second.dedicated →
      first.off + size ≤ second.off ∨ second.off + size' ≤ first.off
  /-- Header and payload fit, as the `Block` object, the header and the allocation say. -/
  room : (∀ block ∈ state.blocks,
      blkHdr + block.len ≤ blockSize state block.place (state.hdr block.place).cls) ∧
    (∀ place ∈ state.handles,
      blkHdr + (state.hdr place).len ≤ blockSize state place (state.hdr place).cls) ∧
    ∀ thread claim, (state.phase thread).claim = some claim →
      blkHdr + claim.nbytes ≤ blockSize state claim.place claim.cls
  /-- A block being initialised is one thread's, and nobody refers to it. -/
  claims : ∀ thread claim, (state.phase thread).claim = some claim →
    refs state.blocks state.handles claim.place = 0 ∧
      ∀ other claim', (state.phase other).claim = some claim' → claim'.place = claim.place → other = thread
  /-- Each free list is acyclic and holds unreferenced blocks of its class. -/
  lists : ∀ cls, cls < nClass → ∃ list, FreeChain state.hdr (state.ctl.free cls) list ∧ list.Nodup ∧
    ∀ place ∈ list, place.dedicated = false ∧ (state.hdr place).cls = cls ∧
      refs state.blocks state.handles place = 0 ∧
        ∀ thread claim, (state.phase thread).claim = some claim → claim.place ≠ place
  lists_apart : ∀ cls cls' list list', cls < nClass → cls' < nClass → cls ≠ cls' →
    FreeChain state.hdr (state.ctl.free cls) list → FreeChain state.hdr (state.ctl.free cls') list' →
      list.Disjoint list'

theorem Inv.claimOk (h : Inv store pid state) {thread : ℕ} {claim : Claim}
    (hclaim : (state.phase thread).claim = some claim) : ClaimOk state thread claim := by
  have hhold := (h.threads thread).hold
  cases hphase : state.phase thread with
  | allocUnlock claim' =>
    rw [hphase] at hclaim hhold
    cases hclaim
    exact hhold
  | initRc claim' =>
    rw [hphase] at hclaim hhold
    cases hclaim
    exact hhold
  | initClass claim' | initLen claim' =>
    rw [hphase] at hclaim hhold
    cases hclaim
    exact hhold.1
  | _ =>
    rw [hphase] at hclaim
    cases hclaim

/-- The size a header or a claim stands for is the size that was carved. -/
theorem Layout.blockSize_eq {cls : ℕ} {status : Status}
    (h : Layout store state.ctl state.segments state.carved)
    (hcarved : state.carved place = some ⟨size, status⟩) (hgone : status ≠ .gone)
    (hregular : place.dedicated = false → size = classSize cls) : blockSize state place cls = size := by
  unfold blockSize
  split
  · rename_i hdedicated
    rw [(h.dedicated place _ hcarved hdedicated).2.2 hgone, Option.getD_some]
  · rename_i hdedicated
    exact (hregular (by simpa using hdedicated)).symm

theorem Inv.listed (h : Inv store pid state) {cls : ℕ} {list : List Place}
    (hchain : FreeChain state.hdr (state.ctl.free cls) list) (hmem : place ∈ list) :
    place ∈ state.freeList cls := by
  rw [(h.lists.chain cls).unique hchain]
  exact hmem

/-- Every block in use was carved with the size it is used for. -/
theorem Inv.carved_of_inUse (h : Inv store pid state) (huse : InUse state place size) :
    ∃ status, state.carved place = some ⟨size, status⟩ ∧ status ≠ .gone := by
  cases huse with
  | referenced hrefs =>
    obtain ⟨size', hlive⟩ := h.refs.live_of_pos place hrefs
    have hregular := (h.refs.live place size' hlive).2.2.2.2
    rw [h.layout.blockSize_eq hlive nofun fun hplace ↦ (hregular hplace).1]
    exact ⟨.live, hlive, nofun⟩
  | @listed _ cls list hlt hchain hmem =>
    exact ⟨.free cls, (h.lists.listed cls place (h.listed hchain hmem)).1, nofun⟩
  | @initialising thread claim hclaim =>
    obtain ⟨size', hcarved, -, hregular⟩ := h.claimOk hclaim
    rw [h.layout.blockSize_eq hcarved nofun fun hplace ↦ (hregular hplace).1]
    exact ⟨.held thread, hcarved, nofun⟩

/-- A block that is not live has no references. -/
theorem Inv.unreferenced (h : Inv store pid state) {status : Status}
    (hcarved : state.carved place = some ⟨size, status⟩) (hstatus : status ≠ .live) :
    Store.refs state.blocks state.handles place = 0 := by
  by_contra hpos
  obtain ⟨size', hlive⟩ := h.refs.live_of_pos place (Nat.pos_of_ne_zero hpos)
  exact status_ne hcarved hstatus hlive

theorem Inv.inside (h : Inv store pid state) (huse : InUse state place size) :
    ∃ length, state.segments (place.seg, place.dedicated) = some length ∧ place.off + size ≤ length := by
  obtain ⟨status, hcarved, hgone⟩ := h.carved_of_inUse huse
  cases hdedicated : place.dedicated with
  | true =>
    obtain ⟨hoff, -, hsegment⟩ := h.layout.dedicated place _ hcarved hdedicated
    exact ⟨size, hsegment hgone, by omega⟩
  | false =>
    obtain ⟨-, -, hsegment, hinside, -⟩ := h.layout.regular place _ hcarved hdedicated
    exact ⟨store.segBytes, hsegment, hinside⟩

/-- Two blocks in use share no byte. -/
theorem Inv.apart (h : Inv store pid state) {first second : Place} {size' : ℕ}
    (hfirst : InUse state first size) (hsecond : InUse state second size') (hne : first ≠ second)
    (hseg : first.seg = second.seg) (hkind : first.dedicated = second.dedicated) :
    first.off + size ≤ second.off ∨ second.off + size' ≤ first.off := by
  obtain ⟨status, hcarved, -⟩ := h.carved_of_inUse hfirst
  obtain ⟨status', hcarved', -⟩ := h.carved_of_inUse hsecond
  cases hdedicated : first.dedicated with
  | true =>
    -- Two blocks of one dedicated segment would be one block.
    have hoff := (h.layout.dedicated first _ hcarved hdedicated).1
    have hoff' := (h.layout.dedicated second _ hcarved' (hkind ▸ hdedicated)).1
    refine absurd ?_ hne
    cases first
    cases second
    simp_all
  | false => exact h.layout.disjoint first second _ _ hcarved hcarved' hne hseg hdedicated (hkind ▸ hdedicated)

/-- The invariant says that blocks in use lie inside their segments and apart. -/
theorem Inv.noOverlap (h : Inv store pid state) : NoOverlap state where
  inside _ _ huse := h.inside huse
  apart _ _ _ _ hfirst hsecond := h.apart hfirst hsecond
  room := by
    have hlive (place : Place) (hrefs : 0 < Store.refs state.blocks state.handles place) :
        blkHdr + (state.hdr place).len ≤ blockSize state place (state.hdr place).cls := by
      obtain ⟨size, hlive⟩ := h.refs.live_of_pos place hrefs
      obtain ⟨-, -, -, hroom, hregular⟩ := h.refs.live place size hlive
      rwa [h.layout.blockSize_eq hlive nofun fun hplace ↦ (hregular hplace).1]
    refine ⟨?_, fun place hplace ↦ hlive place (refs_handle hplace), ?_⟩
    · intro block hblock
      rw [h.refs.len block hblock]
      exact hlive block.place (refs_block hblock)
    · intro thread claim hclaim
      obtain ⟨size, hcarved, hroom, hregular⟩ := h.claimOk hclaim
      rwa [h.layout.blockSize_eq hcarved nofun fun hplace ↦ (hregular hplace).1]
  claims thread claim hclaim := by
    obtain ⟨size, hcarved, -⟩ := h.claimOk hclaim
    refine ⟨h.unreferenced hcarved nofun, fun other claim' hclaim' hplace ↦ ?_⟩
    obtain ⟨size', hcarved', -⟩ := h.claimOk hclaim'
    by_contra hne
    rw [hplace] at hcarved'
    exact held_ne hcarved other hne size' hcarved'
  lists cls _ := by
    refine ⟨state.freeList cls, h.lists.chain cls, h.lists.nodup cls, fun place hplace ↦ ?_⟩
    obtain ⟨hcarved, hregular, hcls, -⟩ := h.lists.listed cls place hplace
    refine ⟨hregular, hcls, h.unreferenced hcarved nofun, fun thread claim hclaim heq ↦ ?_⟩
    obtain ⟨size, hheld, -⟩ := h.claimOk hclaim
    rw [heq, hcarved] at hheld
    cases hheld
  lists_apart cls cls' list list' _ _ hne hchain hchain' := by
    intro place hmem hmem'
    have hfirst := (h.lists.listed cls place (h.listed hchain hmem)).1
    have hsecond := (h.lists.listed cls' place (h.listed hchain' hmem')).1
    rw [hfirst, Option.some.injEq, Carved.mk.injEq, Status.free.injEq] at hsecond
    exact hne hsecond.2

/-- In every run, with any deaths, whose allocations do not wrap and whose blocks get fewer
than 2^32 references. -/
theorem no_overlap_of_sound (store : PayloadStore) (pid : ℕ → UInt32) (state : State)
    (h : ((machine store pid).restrict sound).Reachable state) : NoOverlap state :=
  (inv_of_reachable h).noOverlap

/-! ## Runs -/

def smallStore : PayloadStore := .new (2 ^ 20) 65536 (by decide)

def firstAlloc (nbytes : ℕ) : List Action :=
  [.act 0 (.alloc nbytes), .act 0 .acquire, .act 0 (.choose true), .act 0 (.create true), .act 0 .addUsed,
    .act 0 .setCur, .act 0 .setBump, .act 0 .unlock, .act 0 .init, .act 0 .init, .act 0 .init]

/-- A block is shared, adopted in another process and dropped in the first, which then dies
while it frees a second block. -/
def shareAndDie : List Action :=
  firstAlloc 100 ++
    [Action.act 0 (.share ⟨0, ⟨0, 0, false⟩, 100⟩), .act 1 (.adopt ⟨0, 0, false⟩),
      .act 0 (.drop ⟨0, ⟨0, 0, false⟩, 100⟩), .act 0 (.alloc 200), .act 0 .acquire, .act 0 (.choose true),
      .act 0 .unlock, .act 0 .init, .act 0 .init, .act 0 .init, .act 0 (.drop ⟨0, ⟨0, 4096, false⟩, 200⟩),
      .act 0 .acquire, .act 0 .link, .die 0, .act 1 (.alloc 8), .act 1 .acquire, .act 1 (.choose true)]

/-- A process dies while it frees a block, and the other's block is still its own. -/
theorem no_overlap_shareAndDie : ∃ state,
    ((machine smallStore UInt32.ofNat).restrict sound).Reachable state ∧
      state.blocks = [⟨1, ⟨0, 0, false⟩, 100⟩] ∧ NoOverlap state := by
  have hrun : (((machine smallStore UInt32.ofNat).restrict sound).runFrom .start shareAndDie).map
      State.blocks = some [⟨1, ⟨0, 0, false⟩, 100⟩] := by decide +kernel
  obtain ⟨state, hstate, hblocks⟩ := Option.map_eq_some_iff.mp hrun
  have hreachable : ((machine smallStore UInt32.ofNat).restrict sound).Reachable state :=
    ⟨shareAndDie, hstate⟩
  exact ⟨state, hreachable, hblocks, no_overlap_of_sound smallStore _ state hreachable⟩

/-- `alloc(2^64 - 64)`: the total wraps to 0, and the caller gets a 4 KiB block that claims
to hold the whole request. -/
theorem not_no_overlap : ¬∀ (store : PayloadStore) (pid : ℕ → UInt32) (state : State),
    (machine store pid).Reachable state → NoOverlap state := by
  intro hall
  have hrun : ((machine smallStore UInt32.ofNat).runFrom .start (firstAlloc (2 ^ 64 - 64))).map
      (fun state ↦ (state.blocks, (state.hdr ⟨0, 0, false⟩).cls)) =
        some ([⟨0, ⟨0, 0, false⟩, 2 ^ 64 - 64⟩], 0) := by decide +kernel
  obtain ⟨state, hstate, hends⟩ := Option.map_eq_some_iff.mp hrun
  obtain ⟨hblocks, hcls⟩ := Prod.mk.inj hends
  have hroom := (hall smallStore UInt32.ofNat state ⟨_, hstate⟩).room.1 ⟨0, ⟨0, 0, false⟩, 2 ^ 64 - 64⟩
    (by rw [hblocks]; exact List.mem_singleton_self _)
  have hsize : blockSize state ⟨0, 0, false⟩ (state.hdr ⟨0, 0, false⟩).cls = 4096 := by
    rw [hcls]
    rfl
  simp only [hsize, blkHdr] at hroom
  omega

end GpuPipe.Store
