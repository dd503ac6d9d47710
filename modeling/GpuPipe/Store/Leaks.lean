import GpuPipe.Store.NoOverlap

/-!
# No block is lost

Where a block that was carved can be: somebody refers to it, a free list leads to it, its segment was removed,
or one thread has it in hand. A killed thread keeps what it had in hand, and with it nothing else; only an
`alloc` that cannot map its segment drops a block on the floor, and such runs are left out.
-/

namespace GpuPipe.Store

/-- The block a thread is initialising or freeing. -/
def Phase.inHand : Phase → Option Place
  | .allocUnlock (some claim) | .initRc claim | .initClass claim | .initLen claim => some claim.place
  | .unlinking place | .freeing place | .freeLocked place _ | .linked place _ => some place
  | _ => none

/-- Sound steps, and every segment can be mapped again. -/
def maps (state : State) (action : Action) : Bool :=
  sound state action &&
    match action with
    | .act _ .attachFailed => false
    | _ => true

/-- What became of each block can be seen in the shared words or in a thread. -/
structure Tracked (state : State) : Prop where
  held : ∀ place size thread, state.carved place = some ⟨size, .held thread⟩ →
    (state.phase thread).inHand = some place
  free : ∀ place size cls, state.carved place = some ⟨size, .free cls⟩ → place ∈ state.freeList cls
  gone : ∀ place size, state.carved place = some ⟨size, .gone⟩ →
    place.dedicated = true ∧ state.segments (place.seg, true) = none
  segments : ∀ id length, state.segments (id, true) = some length →
    ∃ block, state.carved ⟨id, 0, true⟩ = some block ∧ block.status ≠ .gone

section Steps

variable {store : PayloadStore} {pid : ℕ → UInt32} {state next : State} {thread : ℕ} {place : Place}

/-- A step that changes no block and no list. -/
theorem Tracked.quiet (h : Tracked state) {phase : Phase}
    (hphase : next.phase = Function.update state.phase thread phase)
    (hhand : ∀ place, (state.phase thread).inHand = some place → phase.inHand = some place)
    (hcarved : next.carved = state.carved) (hlist : next.freeList = state.freeList)
    (hsegments : ∀ id, next.segments (id, true) = state.segments (id, true)) : Tracked next := by
  constructor
  · intro place size other hheld
    rw [hcarved] at hheld
    have hbefore := h.held place size other hheld
    rw [hphase]
    by_cases hother : other = thread
    · rw [hother, Function.update_self]
      rw [hother] at hbefore
      exact hhand place hbefore
    · rw [Function.update_of_ne hother]
      exact hbefore
  · rw [hcarved, hlist]
    exact h.free
  · intro place size hgone
    rw [hcarved] at hgone
    rw [hsegments]
    exact h.gone place size hgone
  · intro id length hlength
    rw [hsegments] at hlength
    rw [hcarved]
    exact h.segments id length hlength

/-- What the status of a block claims about the state after a step. -/
def Shows (next : State) (thread : ℕ) (phase : Phase) (place : Place) : Status → Prop
  | .held holder => holder = thread ∧ phase.inHand = some place
  | .live => True
  | .free cls => place ∈ next.freeList cls
  | .gone => place.dedicated = true ∧ next.segments (place.seg, true) = none

/-- A step that changes one block. -/
theorem Tracked.at (h : Tracked state) (hinv : Inv store pid state) {phase : Phase} {size : ℕ} {status : Status}
    (hphase : next.phase = Function.update state.phase thread phase)
    (hhand : ∀ other, (state.phase thread).inHand = some other → other = place)
    (hcarved : next.carved place = some ⟨size, status⟩)
    (hothers : ∀ other, other ≠ place → next.carved other = state.carved other)
    (hlist : ∀ cls, ∀ other ∈ state.freeList cls, other ≠ place → other ∈ next.freeList cls)
    (hshows : Shows next thread phase place status)
    (hsegments : ∀ id, ⟨id, 0, true⟩ ≠ place → next.segments (id, true) = state.segments (id, true)) :
    Tracked next := by
  constructor
  · intro other size' holder hheld
    by_cases hother : other = place
    · rw [hother, hcarved] at hheld
      cases hheld
      obtain ⟨rfl, hinHand⟩ := hshows
      rw [hphase, Function.update_self, hother]
      exact hinHand
    · rw [hothers other hother] at hheld
      have hbefore := h.held other size' holder hheld
      rw [hphase]
      by_cases hholder : holder = thread
      · rw [hholder] at hbefore
        exact absurd (hhand other hbefore) hother
      · rw [Function.update_of_ne hholder]
        exact hbefore
  · intro other size' cls hfree
    by_cases hother : other = place
    · rw [hother, hcarved] at hfree
      cases hfree
      rw [hother]
      exact hshows
    · rw [hothers other hother] at hfree
      exact hlist cls other (h.free other size' cls hfree) hother
  · intro other size' hgone
    by_cases hother : other = place
    · rw [hother, hcarved] at hgone
      cases hgone
      rw [hother]
      exact hshows
    · rw [hothers other hother] at hgone
      obtain ⟨hdedicated, hnone⟩ := h.gone other size' hgone
      have hoff := (hinv.layout.dedicated other _ hgone hdedicated).1
      have hsame : other = ⟨other.seg, 0, true⟩ := by
        rw [← hoff, ← hdedicated]
      rw [hsegments other.seg (hsame ▸ hother)]
      exact ⟨hdedicated, hnone⟩
  · intro id length hlength
    by_cases hsame : (⟨id, 0, true⟩ : Place) = place
    · refine ⟨⟨size, status⟩, by rw [hsame]; exact hcarved, ?_⟩
      intro hgone
      dsimp only at hgone
      rw [hgone] at hshows
      rw [← hsame] at hshows
      rw [hshows.2] at hlength
      cases hlength
    · rw [hsegments id hsame] at hlength
      rw [hothers _ hsame]
      exact h.segments id length hlength

theorem Tracked.choose (h : Tracked state) (hinv : Inv store pid state) {request : Request}
    (hphase : state.phase thread = .allocLocked request) (attached : Bool) :
    Tracked (choose store state thread request attached) := by
  have hnone (place : Place) : (state.phase thread).inHand ≠ some place := by
    rw [hphase]
    nofun
  have hgrow : Tracked (choose.grow store state thread request) := by
    unfold choose.grow
    split
    · exact h.quiet rfl (fun place hplace ↦ absurd hplace (hnone place)) rfl rfl fun _ ↦ rfl
    · exact h.quiet rfl (fun place hplace ↦ absurd hplace (hnone place)) rfl rfl fun _ ↦ rfl
  unfold Store.choose
  dsimp only
  split
  · rename_i hword
    split
    · obtain ⟨hmem, -⟩ := hinv.lists.pop hword (.held thread)
      obtain ⟨hfree, -⟩ := hinv.lists.listed _ _ hmem
      obtain ⟨hlist, -⟩ := (hinv.lists.chain request.cls).uncons hword
      refine h.at hinv rfl (fun place hplace ↦ absurd hplace (hnone place)) (restatus_self hfree (.held thread))
        (fun other hother ↦ restatus_of_ne hother _) ?_ ⟨rfl, rfl⟩ fun _ _ ↦ rfl
      intro cls other hother hne
      show other ∈ Function.update state.freeList request.cls _ cls
      by_cases hcls : cls = request.cls
      · rw [hcls, hlist] at hother
        rw [hcls, Function.update_self]
        exact (List.mem_cons.mp hother).resolve_left hne
      · rw [Function.update_of_ne hcls]
        exact hother
    · exact h.quiet rfl (fun place hplace ↦ absurd hplace (hnone place)) rfl rfl fun _ ↦ rfl
  · split
    · split
      · exact h.at hinv rfl (fun place hplace ↦ absurd hplace (hnone place)) (Function.update_self _ _ _)
          (fun other hother ↦ Function.update_of_ne hother _ _) (fun _ _ hother _ ↦ hother) ⟨rfl, rfl⟩ fun _ _ ↦ rfl
      · exact hgrow
    · exact hgrow

theorem Tracked.dropBlock (h : Tracked state) (hinv : Inv store pid state) (hidle : state.phase thread = .idle)
    {block : Block} (hblock : block ∈ state.blocks) : Tracked (dropBlock state thread block) := by
  obtain ⟨size, hlive⟩ := hinv.refs.live_of_pos block.place (refs_block hblock)
  unfold Store.dropBlock
  dsimp only
  split
  · exact h.quiet (goto_self state hidle) (fun place hplace ↦ by rw [hidle] at hplace; cases hplace) rfl rfl
      fun _ ↦ rfl
  · refine h.at hinv rfl ?_ (restatus_self hlive (.held thread)) (fun other hother ↦ restatus_of_ne hother _)
      (fun _ _ hother _ ↦ hother) ?_ fun _ _ ↦ rfl
    · intro other hother
      rw [hidle] at hother
      cases hother
    · constructor
      · rfl
      · cases block.place.dedicated <;> rfl

/-- After every move it shows what has become of each block. -/
theorem Tracked.moveStep {move : Move} (h : Tracked state) (hinv : Inv store pid state)
    (hmaps : maps state (.act thread move) = true) (hnext : moveStep store pid state thread move = some next) :
    Tracked next := by
  have hthread := (hinv.threads thread).hold
  cases moveStep_cases hnext with
  | alloc nbytes hphase =>
    unfold Store.allocBegin
    dsimp only
    split
    · exact h.quiet rfl (fun place hplace ↦ by rw [hphase] at hplace; cases hplace) rfl rfl fun _ ↦ rfl
    · exact h.quiet rfl (fun place hplace ↦ by rw [hphase] at hplace; cases hplace) rfl rfl fun _ ↦ rfl
  | choose request attached hphase => exact h.choose hinv hphase attached
  | createRegular request id hphase =>
    exact h.quiet rfl (fun place hplace ↦ by rw [hphase] at hplace; cases hplace) rfl rfl
      fun _ ↦ Function.update_of_ne (by simp) _ _
  | setBump request id hphase =>
    exact h.at hinv rfl (fun place hplace ↦ by rw [hphase] at hplace; cases hplace) (Function.update_self _ _ _)
      (fun other hother ↦ Function.update_of_ne hother _ _) (fun _ _ hother _ ↦ hother) ⟨rfl, rfl⟩ fun _ _ ↦ rfl
  | attachFailed claim hphase =>
    simp [maps] at hmaps
  | initLen claim hphase =>
    rw [hphase] at hthread
    obtain ⟨⟨size, hcarved, -⟩, -⟩ := hthread
    refine h.at hinv rfl ?_ (restatus_self hcarved .live) (fun other hother ↦ restatus_of_ne hother _)
      (fun _ _ hother _ ↦ hother) trivial fun _ _ ↦ rfl
    intro other hother
    rw [hphase] at hother
    cases hother
    rfl
  | createDedicated nbytes size id hphase =>
    refine h.at hinv rfl ?_ (Function.update_self _ _ _) (fun other hother ↦ Function.update_of_ne hother _ _)
      (fun _ _ hother _ ↦ hother) ⟨rfl, rfl⟩ ?_
    · intro other hother
      rw [hphase] at hother
      cases hother
    · intro other hne
      exact Function.update_of_ne (fun hsame ↦ hne (by cases hsame; rfl)) _ _
  | share block hphase =>
    exact h.quiet (goto_self state hphase) (fun place hplace ↦ by rw [hphase] at hplace; cases hplace) rfl rfl
      fun _ ↦ rfl
  | adopt place hphase =>
    unfold Store.adopt
    dsimp only
    split
    · exact h.quiet (goto_self state hphase) (fun place hplace ↦ by rw [hphase] at hplace; cases hplace) rfl rfl
        fun _ ↦ rfl
    · split
      · exact h.quiet (goto_self state hphase) (fun place hplace ↦ by rw [hphase] at hplace; cases hplace) rfl rfl
          fun _ ↦ rfl
      · exact h.quiet (goto_self state hphase) (fun place hplace ↦ by rw [hphase] at hplace; cases hplace) rfl rfl
          fun _ ↦ rfl
  | drop block hphase hblock => exact h.dropBlock hinv hphase hblock
  | unlink place hphase =>
    rw [hphase] at hthread
    obtain ⟨hdedicated, size, hcarved⟩ := hthread
    have hoff := (hinv.layout.dedicated place _ hcarved hdedicated).1
    refine h.at hinv rfl ?_ (restatus_self hcarved .gone) (fun other hother ↦ restatus_of_ne hother _)
      (fun _ _ hother _ ↦ hother) ⟨hdedicated, Function.update_self _ _ _⟩ ?_
    · intro other hother
      rw [hphase] at hother
      cases hother
      rfl
    · intro id hne
      apply Function.update_of_ne
      intro hsame
      cases hsame
      apply hne
      rw [← hoff, ← hdedicated]
  | publish place cls hphase =>
    rw [hphase] at hthread
    have hfreeing : FreeingOk state thread place cls := hthread
    refine h.at hinv rfl ?_ (restatus_self hfreeing.carved (.free cls)) (fun other hother ↦ restatus_of_ne hother _)
      ?_ ?_ fun _ _ ↦ rfl
    · intro other hother
      rw [hphase] at hother
      cases hother
      rfl
    · intro cls' other hother _
      show other ∈ Function.update state.freeList cls _ cls'
      by_cases hcls : cls' = cls
      · rw [hcls, Function.update_self]
        exact List.mem_cons_of_mem _ (hcls ▸ hother)
      · rw [Function.update_of_ne hcls]
        exact hother
    · show place ∈ Function.update state.freeList cls _ cls
      rw [Function.update_self]
      exact List.mem_cons_self
  | unlockRefused hphase | unlockFree hphase | acquireAlloc request hphase | regularFailed request id hphase
  | addUsed request id hphase | setCur request id hphase | takeId nbytes size hphase
  | dedicatedFailed nbytes size id hphase | giveBack size hphase =>
    exact h.quiet rfl (fun place hplace ↦ by rw [hphase] at hplace; cases hplace) rfl rfl fun _ ↦ rfl
  | reserve nbytes size hphase =>
    exact h.quiet rfl (fun place hplace ↦ by rw [hphase] at hplace; cases hplace) rfl rfl fun _ ↦ rfl
  | unlockClaim claim hphase | initRc claim hphase | initClass claim hphase | acquireFree place hphase
  | link place cls hphase =>
    exact h.quiet rfl (fun place hplace ↦ by rw [hphase] at hplace; exact hplace) rfl rfl fun _ ↦ rfl

theorem tracked_start : Tracked .start where
  held := nofun
  free := nofun
  gone := nofun
  segments := nofun

/-- So it does in every state of a run. -/
theorem tracked_of_reachable (h : ((machine store pid).restrict maps).Reachable state) :
    Inv store pid state ∧ Tracked state := by
  apply h.invariant fun state ↦ Inv store pid state ∧ Tracked state
  · exact ⟨inv_start, tracked_start⟩
  · intro before action after hbefore hstep
    obtain ⟨hmaps, hstep⟩ := Machine.restrict_step hstep
    have hsound : sound before action = true := (Bool.and_eq_true _ _ ▸ hmaps).1
    refine ⟨hbefore.1.step hsound hstep, ?_⟩
    cases action with
    | act thread move =>
      have hnext : step store pid before (.act thread move) = some after := hstep
      rw [step, Option.ite_none_left_eq_some] at hnext
      exact hbefore.2.moveStep hbefore.1 hmaps hnext.2
    | die process =>
      cases hstep
      exact ⟨hbefore.2.held, hbefore.2.free, hbefore.2.gone, hbefore.2.segments⟩

/-- Where a block that was carved is now. -/
inductive Whereabouts (state : State) (place : Place) (size : ℕ) : Prop
  | referenced (hrefs : 0 < refs state.blocks state.handles place)
      (hrc : (state.hdr place).rc = refs state.blocks state.handles place)
  | listed (cls : ℕ) (list : List Place) (hlt : cls < nClass)
      (hchain : FreeChain state.hdr (state.ctl.free cls) list) (hmem : place ∈ list) (hsize : size = classSize cls)
  | removed (hdedicated : place.dedicated = true) (hsegment : state.segments (place.seg, true) = none)
  | inHand (thread : ℕ) (hthread : (state.phase thread).inHand = some place)

/-- A block that was carved is referenced as often as it counts, on its list, gone with its segment, or in the hand of
a thread. -/
theorem Tracked.whereabouts (h : Tracked state) (hinv : Inv store pid state) {block : Carved}
    (hcarved : state.carved place = some block) : Whereabouts state place block.size := by
  obtain ⟨size, status⟩ := block
  cases status with
  | held thread => exact .inHand thread (h.held place size thread hcarved)
  | live =>
    obtain ⟨hrefs, hrc, -⟩ := hinv.refs.live place size hcarved
    exact .referenced hrefs hrc
  | free cls =>
    have hmem := h.free place size cls hcarved
    obtain ⟨hlisted, -, -, hlt⟩ := hinv.lists.listed cls place hmem
    rw [hcarved, Option.some.injEq, Carved.mk.injEq] at hlisted
    exact .listed cls (state.freeList cls) hlt (hinv.lists.chain cls) hmem hlisted.1
  | gone =>
    obtain ⟨hdedicated, hsegment⟩ := h.gone place size hcarved
    exact .removed hdedicated hsegment

/-- Nothing the store has carved is lost, with any deaths: it is referred to, on the free list of its class,
removed, or in the hands of one thread. Once nobody refers to a block or has one in hand, all regular blocks
are on their free lists and all dedicated segments are removed. -/
theorem nothing_lost (h : ((machine store pid).restrict maps).Reachable state) :
    (∀ place block, state.carved place = some block → Whereabouts state place block.size) ∧
      ((∀ thread, (state.phase thread).inHand = none) → state.blocks = [] → state.handles = [] →
        (∀ place block, state.carved place = some block → place.dedicated = false →
          ∃ cls list, cls < nClass ∧ block.size = classSize cls ∧
            FreeChain state.hdr (state.ctl.free cls) list ∧ place ∈ list) ∧
        ∀ id, state.segments (id, true) = none) := by
  obtain ⟨hinv, htracked⟩ := tracked_of_reachable h
  constructor
  · exact fun place block hcarved ↦ htracked.whereabouts hinv hcarved
  · intro hhands hblocks hhandles
    have hrefs (place : Place) : refs state.blocks state.handles place = 0 := by
      rw [hblocks, hhandles]
      rfl
    constructor
    · intro place block hcarved hregular
      cases htracked.whereabouts hinv hcarved with
      | referenced hpos =>
        rw [hrefs] at hpos
        exact absurd hpos (lt_irrefl 0)
      | listed cls list hlt hchain hmem hsize => exact ⟨cls, list, hlt, hsize, hchain, hmem⟩
      | removed hdedicated =>
        rw [hregular] at hdedicated
        cases hdedicated
      | inHand thread hthread =>
        rw [hhands] at hthread
        cases hthread
    · intro id
      by_contra hsome
      obtain ⟨length, hlength⟩ := Option.ne_none_iff_exists'.mp hsome
      obtain ⟨block, hcarved, -⟩ := htracked.segments id length hlength
      cases htracked.whereabouts hinv hcarved with
      | referenced hpos =>
        rw [hrefs] at hpos
        exact absurd hpos (lt_irrefl 0)
      | listed cls list hlt hchain hmem =>
        have hregular := (hinv.lists.listed cls _ (hinv.listed hchain hmem)).2.1
        cases hregular
      | removed hdedicated hsegment => exact hsome hsegment
      | inHand thread hthread =>
        rw [hhands] at hthread
        cases hthread

/-- Two blocks are carved; one is dropped, and the process that frees the other is killed. -/
def freedAndKilled : List Action :=
  firstAlloc 100 ++
    [Action.act 0 (.drop ⟨0, ⟨0, 0, false⟩, 100⟩), .act 0 .acquire, .act 0 .link, .act 0 .publish, .act 0 .unlock,
      .act 1 (.alloc 5000), .act 1 .acquire, .act 1 (.choose true), .act 1 .unlock, .act 1 .init, .die 1]

/-- A block that a process was freeing when it was killed is still in its hand. -/
theorem nothing_lost_freedAndKilled : ∃ state,
    ((machine smallStore UInt32.ofNat).restrict maps).Reachable state ∧
      (state.phase 1).inHand = some ⟨0, 4096, false⟩ ∧
      Whereabouts state ⟨0, 0, false⟩ 4096 := by
  have hrun : (((machine smallStore UInt32.ofNat).restrict maps).runFrom .start freedAndKilled).map
      (fun state ↦ ((state.phase 1).inHand, state.carved ⟨0, 0, false⟩)) =
        some (some ⟨0, 4096, false⟩, some ⟨4096, .free 0⟩) := by decide +kernel
  obtain ⟨state, hstate, hseen⟩ := Option.map_eq_some_iff.mp hrun
  rw [Prod.mk.injEq] at hseen
  have hreachable : ((machine smallStore UInt32.ofNat).restrict maps).Reachable state := ⟨freedAndKilled, hstate⟩
  exact ⟨state, hreachable, hseen.1, (nothing_lost hreachable).1 _ _ hseen.2⟩

end Steps

end GpuPipe.Store
