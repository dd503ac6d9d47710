import GpuPipe.Store.Cap
import GpuPipe.Sys.Names

/-!
# Names registered up front

The owner of a store registers, before any worker runs, the names of all the regular segments the store could
ever have; the workers register none. There are enough of them because regular segments are numbered without
gaps and none is ever removed, so that the ids are bounded by what fits under the limit.
-/

namespace GpuPipe.Store

/-- `_default_limit`: what `PIPE_STORE_MB` says, else half of what is free in `/dev/shm` and at most 16 GiB, or
2 GiB where `/dev/shm` has no size. -/
def defaultLimit (configured free : Option ℕ) : ℕ :=
  match configured, free with
  | some bytes, _ => bytes
  | none, none => 2 * 2 ^ 30
  | none, some free => min (free / 2) (16 * 2 ^ 30)

/-- The segment size of an owner that is given none: 64 MiB, or less for a small store. -/
def defaultSegBytes (limit : ℕ) : ℕ := min (64 * 2 ^ 20) (max (1 * 2 ^ 20) (limit / 8))

/-- `x or y` of Python, for a number that may be `None` or zero. -/
def orElse (value : Option ℕ) (other : ℕ) : ℕ :=
  match value with
  | none | some 0 => other
  | some value => value

/-- `PayloadStore.__init__` up to the names. -/
def owned (limitBytes segBytes configured free : Option ℕ)
    (h : orElse segBytes (defaultSegBytes (orElse limitBytes (defaultLimit configured free))) ≤ 2 ^ 40) :
    PayloadStore :=
  .new (orElse limitBytes (defaultLimit configured free))
    (orElse segBytes (defaultSegBytes (orElse limitBytes (defaultLimit configured free)))) h

def segmentNames (base : Bytes) (count : ℕ) : List Bytes :=
  (List.range count).map fun id ↦ Sys.segName base id false

/-- What the owner registers with the resource tracker. -/
def registered (store : PayloadStore) (base : Bytes) : List Bytes :=
  base :: segmentNames base (store.limit / store.segBytes)

/-- With the default size a store of at least 1 MiB has room for a segment. -/
theorem segBytes_le_limit {limitBytes configured free : Option ℕ}
    (hlimit : 2 ^ 20 ≤ orElse limitBytes (defaultLimit configured free))
    (h : defaultSegBytes (orElse limitBytes (defaultLimit configured free)) ≤ 2 ^ 40) :
    (owned limitBytes none configured free h).segBytes ≤ (owned limitBytes none configured free h).limit := by
  have hnone (other : ℕ) : orElse none other = other := rfl
  simp only [owned, PayloadStore.new, hnone, defaultSegBytes, minBlock, dedicatedAlign]
  omega

/-! ## The numbering -/

/-- Regular segments have the ids below `nreg`, but for one that is being created. -/
structure Numbered (store : PayloadStore) (state : State) : Prop where
  creating : ∀ thread request id, state.phase thread = .creating request id →
    id + 1 = state.ctl.nreg ∧ state.segments (id, false) = none
  existing : ∀ id, state.segments (id, false) ≠ none →
    id < state.ctl.nreg ∧ state.segments (id, false) = some store.segBytes
  complete : ∀ id, id < state.ctl.nreg → state.segments (id, false) = none →
    ∃ thread request, state.phase thread = .creating request id

def Phase.isCreating : Phase → Bool
  | .creating _ _ => true
  | _ => false

section Steps

variable {store : PayloadStore} {pid : ℕ → UInt32} {state next : State} {thread : ℕ}

/-- A step of a thread that neither creates a regular segment nor changes their number. -/
theorem Numbered.quiet (h : Numbered store state) {phase : Phase}
    (hphase : next.phase = Function.update state.phase thread phase)
    (hbefore : (state.phase thread).isCreating = false) (hafter : phase.isCreating = false)
    (hnreg : next.ctl.nreg = state.ctl.nreg)
    (hsegments : ∀ id, next.segments (id, false) = state.segments (id, false)) : Numbered store next := by
  have hother {other : ℕ} {request : Request} {id : ℕ} (hcreating : next.phase other = .creating request id) :
      other ≠ thread := by
    intro hsame
    rw [hphase, hsame, Function.update_self] at hcreating
    rw [hcreating] at hafter
    cases hafter
  constructor
  · intro other request id hcreating
    have hne := hother hcreating
    rw [hphase, Function.update_of_ne hne] at hcreating
    rw [hnreg, hsegments]
    exact h.creating other request id hcreating
  · intro id hid
    rw [hsegments] at hid ⊢
    rw [hnreg]
    exact h.existing id hid
  · intro id hid hnone
    rw [hnreg] at hid
    rw [hsegments] at hnone
    obtain ⟨other, request, hcreating⟩ := h.complete id hid hnone
    have hne : other ≠ thread := by
      intro hsame
      rw [hsame] at hcreating
      rw [hcreating] at hbefore
      cases hbefore
    refine ⟨other, request, ?_⟩
    rw [hphase, Function.update_of_ne hne]
    exact hcreating

/-- While one thread is in the critical section no other creates a segment. -/
theorem Account.creator (h : Account store pid state) (hlocked : (state.phase thread).locked = true) {other : ℕ}
    {request : Request} {id : ℕ} (hcreating : state.phase other = .creating request id) : other = thread := by
  have halive (thread : ℕ) : state.alive pid thread = true := by simp [State.alive, h.alive]
  by_contra hne
  have hunlocked := h.exclusive.alone (halive thread) hlocked hne (halive other)
  rw [State.locked, hcreating] at hunlocked
  cases hunlocked

theorem Numbered.grow (h : Numbered store state) (haccount : Account store pid state) {request : Request}
    (hphase : state.phase thread = .allocLocked request) :
    Numbered store (choose.grow store state thread request) := by
  have hnobody (other : ℕ) (request' : Request) (id : ℕ) : state.phase other ≠ .creating request' id := by
    intro hcreating
    have hsame := haccount.creator (by rw [hphase]; rfl) hcreating
    rw [hsame, hphase] at hcreating
    cases hcreating
  unfold choose.grow
  split
  · exact h.quiet rfl (by rw [hphase]; rfl) rfl rfl fun _ ↦ rfl
  · constructor
    · intro other request' id hcreating
      change Function.update state.phase thread _ other = _ at hcreating
      by_cases hother : other = thread
      · rw [hother, Function.update_self] at hcreating
        cases hcreating
        refine ⟨rfl, ?_⟩
        by_contra hsome
        exact absurd (h.existing _ hsome).1 (lt_irrefl _)
      · rw [Function.update_of_ne hother] at hcreating
        exact absurd hcreating (hnobody other request' id)
    · intro id hid
      obtain ⟨hlt, hsome⟩ := h.existing id hid
      exact ⟨Nat.lt_succ_of_lt hlt, hsome⟩
    · intro id hid hnone
      have hnew : id = state.ctl.nreg := by
        by_contra hne
        have hold : id < state.ctl.nreg + 1 := hid
        obtain ⟨other, request', hcreating⟩ := h.complete id (by omega) hnone
        exact hnobody other request' id hcreating
      refine ⟨thread, request, ?_⟩
      rw [hnew]
      exact Function.update_self _ _ _

theorem Numbered.create (h : Numbered store state) (haccount : Account store pid state) {request : Request} {id : ℕ}
    (hphase : state.phase thread = .creating request id) :
    Numbered store (State.goto { state with
      segments := Function.update state.segments (id, false) (some store.segBytes) } thread
        (.addUsed request id)) := by
  have hcreator {other : ℕ} {request' : Request} {id' : ℕ} (hcreating : state.phase other = .creating request' id') :
      other = thread := haccount.creator (by rw [hphase]; rfl) hcreating
  obtain ⟨hnreg, -⟩ := h.creating thread request id hphase
  constructor
  · intro other request' id' hcreating
    change Function.update state.phase thread _ other = _ at hcreating
    by_cases hother : other = thread
    · rw [hother, Function.update_self] at hcreating
      cases hcreating
    · rw [Function.update_of_ne hother] at hcreating
      exact absurd (hcreator hcreating) hother
  · intro id' hid
    change Function.update state.segments _ _ _ ≠ _ at hid
    show _ ∧ Function.update state.segments _ _ _ = _
    by_cases hsame : id' = id
    · rw [hsame, Function.update_self]
      exact ⟨hnreg ▸ Nat.lt_succ_self id, rfl⟩
    · have hne : (id', false) ≠ (id, false) := by simpa using hsame
      rw [Function.update_of_ne hne] at hid ⊢
      exact h.existing id' hid
  · intro id' hid hnone
    change Function.update state.segments _ _ _ = _ at hnone
    by_cases hsame : id' = id
    · rw [hsame, Function.update_self] at hnone
      cases hnone
    · have hne : (id', false) ≠ (id, false) := by simpa using hsame
      rw [Function.update_of_ne hne] at hnone
      obtain ⟨other, request', hcreating⟩ := h.complete id' hid hnone
      rw [hcreator hcreating, hphase] at hcreating
      cases hcreating
      exact absurd rfl hsame

theorem Numbered.fail (h : Numbered store state) (haccount : Account store pid state) {request : Request} {id : ℕ}
    (hphase : state.phase thread = .creating request id) :
    Numbered store (State.goto { state with ctl := { state.ctl with nreg := id } } thread (.allocUnlock none)) := by
  obtain ⟨hnreg, hunmade⟩ := h.creating thread request id hphase
  have hcreator {other : ℕ} {request' : Request} {id' : ℕ} (hcreating : state.phase other = .creating request' id') :
      other = thread := haccount.creator (by rw [hphase]; rfl) hcreating
  constructor
  · intro other request' id' hcreating
    change Function.update state.phase thread _ other = _ at hcreating
    by_cases hother : other = thread
    · rw [hother, Function.update_self] at hcreating
      cases hcreating
    · rw [Function.update_of_ne hother] at hcreating
      exact absurd (hcreator hcreating) hother
  · intro id' hid
    obtain ⟨hlt, hsome⟩ := h.existing id' hid
    have hne : id' ≠ id := by
      intro hsame
      rw [hsame, hunmade] at hsome
      cases hsome
    exact ⟨by show id' < id; omega, hsome⟩
  · intro id' hid hnone
    have hlt : id' < id := hid
    obtain ⟨other, request', hcreating⟩ := h.complete id' (by omega) hnone
    rw [hcreator hcreating, hphase] at hcreating
    cases hcreating
    exact absurd hlt (lt_irrefl _)

/-- A move takes the next number or none. -/
theorem Numbered.moveStep {move : Move} (h : Numbered store state) (haccount : Account store pid state)
    (hnext : moveStep store pid state thread move = some next) : Numbered store next := by
  cases moveStep_cases hnext with
  | alloc nbytes hphase =>
    unfold allocBegin
    dsimp only
    split
    · exact h.quiet rfl (by rw [hphase]; rfl) rfl rfl fun _ ↦ rfl
    · exact h.quiet rfl (by rw [hphase]; rfl) rfl rfl fun _ ↦ rfl
  | choose request attached hphase =>
    unfold choose
    dsimp only
    split
    · split
      · exact h.quiet rfl (by rw [hphase]; rfl) rfl rfl fun _ ↦ rfl
      · exact h.quiet rfl (by rw [hphase]; rfl) rfl rfl fun _ ↦ rfl
    · split
      · split
        · exact h.quiet rfl (by rw [hphase]; rfl) rfl rfl fun _ ↦ rfl
        · exact h.grow haccount hphase
      · exact h.grow haccount hphase
  | createRegular request id hphase => exact h.create haccount hphase
  | regularFailed request id hphase => exact h.fail haccount hphase
  | reserve nbytes size hphase =>
    refine h.quiet rfl (by rw [hphase]; rfl) ?_ rfl fun _ ↦ rfl
    split <;> rfl
  | createDedicated nbytes size id hphase =>
    exact h.quiet rfl (by rw [hphase]; rfl) rfl rfl fun _ ↦ Function.update_of_ne (by simp) _ _
  | unlink place hphase =>
    exact h.quiet rfl (by rw [hphase]; rfl) rfl rfl fun _ ↦ Function.update_of_ne (by simp) _ _
  | share block hphase => exact h.quiet (goto_self state hphase) (by rw [hphase]; rfl) rfl rfl fun _ ↦ rfl
  | adopt place hphase =>
    unfold adopt
    dsimp only
    split
    · exact h.quiet (goto_self state hphase) (by rw [hphase]; rfl) rfl rfl fun _ ↦ rfl
    · split <;> exact h.quiet (goto_self state hphase) (by rw [hphase]; rfl) rfl rfl fun _ ↦ rfl
  | drop block hphase =>
    unfold dropBlock
    dsimp only
    split
    · exact h.quiet (goto_self state hphase) (by rw [hphase]; rfl) rfl rfl fun _ ↦ rfl
    · refine h.quiet rfl (by rw [hphase]; rfl) ?_ rfl fun _ ↦ rfl
      split <;> rfl
  | acquireAlloc request hphase | addUsed request id hphase | setCur request id hphase | setBump request id hphase
  | unlockRefused hphase | unlockClaim claim hphase | unlockFree hphase | attachFailed claim hphase
  | initRc claim hphase | initClass claim hphase | initLen claim hphase | takeId nbytes size hphase
  | dedicatedFailed nbytes size id hphase | giveBack size hphase | acquireFree place hphase | link place cls hphase
  | publish place cls hphase =>
    exact h.quiet rfl (by rw [hphase]; rfl) rfl rfl fun _ ↦ rfl

/-- In every state of a run the segments are numbered without gaps. -/
theorem numbered_of_reachable (h : ((machine store pid).restrict (capped store)).Reachable state) :
    Account store pid state ∧ Numbered store state := by
  apply h.invariant fun state ↦ Account store pid state ∧ Numbered store state
  · refine ⟨account_start, ?_, ?_, ?_⟩
    · intro thread request id hcreating
      cases hcreating
    · intro id hid
      exact absurd rfl hid
    · intro id hid
      exact absurd hid (Nat.not_lt_zero id)
  · intro before action after hbefore hstep
    obtain ⟨hallowed, hstep⟩ := Machine.restrict_step hstep
    cases action with
    | die process => cases hallowed
    | act thread move =>
      have hnext : step store pid before (.act thread move) = some after := hstep
      rw [step, Option.ite_none_left_eq_some] at hnext
      exact ⟨hbefore.1.step hallowed hnext.2, hbefore.2.moveStep hbefore.1 hnext.2⟩

/-- The bytes of the first `count` regular segments are within what exists. -/
theorem Account.regular_le (h : Account store pid state) {count : ℕ}
    (hall : ∀ id, id < count → state.segments (id, false) = some store.segBytes) :
    count * store.segBytes ≤ state.existing := by
  have hinj : Set.InjOn (fun id : ℕ ↦ (id, false)) (Finset.range count : Set ℕ) := by
    intro first _ second _ hsame
    exact (Prod.mk.inj hsame).1
  calc
    count * store.segBytes = ∑ _id ∈ Finset.range count, store.segBytes := by
      rw [Finset.sum_const, Finset.card_range, smul_eq_mul]
    _ = ∑ id ∈ Finset.range count, (state.segments (id, false)).getD 0 := by
      apply Finset.sum_congr rfl
      intro id hid
      rw [hall id (Finset.mem_range.mp hid), Option.getD_some]
    _ = ∑ key ∈ (Finset.range count).image fun id ↦ (id, false), (state.segments key).getD 0 := by
      rw [Finset.sum_image hinj]
    _ ≤ state.existing := sum_le_finsum _ h.segments _

theorem Numbered.below (h : Numbered store state) {bound : ℕ} (hbound : bound < state.ctl.nreg) {id : ℕ}
    (hid : id < bound) : state.segments (id, false) = some store.segBytes := by
  by_cases hnone : state.segments (id, false) = none
  · obtain ⟨thread, request, hcreating⟩ := h.complete id (hid.trans hbound) hnone
    have hlast := (h.creating thread request id hcreating).1
    omega
  · exact (h.existing id hnone).2

/-- A segment that fits under the limit with all before it has a name that is registered. -/
theorem mem_registered {base : Bytes} {id : ℕ} (hbytes : (id + 1) * store.segBytes ≤ store.limit) :
    Sys.segName base id false ∈ registered store base := by
  have hpos : 0 < store.segBytes := Nat.lt_of_lt_of_le (by decide) store.min_le
  apply List.mem_cons_of_mem
  apply List.mem_map_of_mem
  rw [List.mem_range]
  exact (Nat.le_div_iff_mul_le hpos).mpr hbytes

/-- The numbers below the counter are those of the regular segments that exist or are being created. -/
theorem Numbered.mem_iff (h : Numbered store state) {id : ℕ} :
    ((state.segments (id, false)).isSome = true ∨ ∃ thread request, state.phase thread = .creating request id) ↔
      id < state.ctl.nreg := by
  constructor
  · rintro (hsome | ⟨thread, request, hcreating⟩)
    · exact (h.existing id (Option.isSome_iff_ne_none.mp hsome)).1
    · have hlast := (h.creating thread request id hcreating).1
      omega
  · intro hid
    by_cases hnone : state.segments (id, false) = none
    · exact .inr (h.complete id hid hnone)
    · exact .inl (Option.isSome_iff_ne_none.mpr hnone)

/-- The segments below the counter are within the limit, with the one that is being created. -/
theorem Account.numbered_le (h : Account store pid state) (hnumbered : Numbered store state) {id : ℕ}
    (hid : id < state.ctl.nreg) : (id + 1) * store.segBytes ≤ store.limit := by
  have hcap := h.cap
  have hall (other : ℕ) (hother : other < id) : state.segments (other, false) = some store.segBytes :=
    hnumbered.below (by omega) hother
  rcases hnumbered.mem_iff.mpr hid with hsome | ⟨thread, request, hcreating⟩
  · have hexists := (hnumbered.existing id (Option.isSome_iff_ne_none.mp hsome)).2
    have hle := h.regular_le fun other hother ↦ by
      rcases Nat.lt_succ_iff_lt_or_eq.mp hother with hlt | rfl
      · exact hall other hlt
      · exact hexists
    exact hle.trans (by omega)
  · have hle := h.regular_le hall
    have hplanned : store.segBytes ≤ state.total (Phase.planned store) := by
      have hpart := sum_le_finsum _ (h.support (Phase.planned store) rfl) {thread}
      rwa [Finset.sum_singleton, hcreating] at hpart
    rw [Nat.succ_mul]
    omega

/-- In every run that keeps the cap, the regular segments that exist or are about to be created are numbered
without gaps, only the last of them can be missing still, and each has a name that the owner registered at the
start. -/
theorem segments_registered (base : Bytes) (h : ((machine store pid).restrict (capped store)).Reachable state) :
    (∀ id, ((state.segments (id, false)).isSome = true ∨
        ∃ thread request, state.phase thread = .creating request id) ↔ id < state.ctl.nreg) ∧
      (∀ thread request id, state.phase thread = .creating request id →
        id + 1 = state.ctl.nreg ∧ state.segments (id, false) = none) ∧
      ∀ id, id < state.ctl.nreg → Sys.segName base id false ∈ registered store base := by
  obtain ⟨haccount, hnumbered⟩ := numbered_of_reachable h
  refine ⟨fun id ↦ hnumbered.mem_iff, hnumbered.creating, fun id hid ↦ ?_⟩
  exact mem_registered (haccount.numbered_le hnumbered hid)

def oneSegment : PayloadStore := owned (some (2 ^ 20)) none none none (by decide)

/-- The first segment is made by the first worker that needs it. -/
theorem segments_registered_oneSegment : ∃ state,
    ((machine oneSegment UInt32.ofNat).restrict (capped oneSegment)).Reachable state ∧
      (state.segments (0, false)).isSome = true ∧ Sys.segName [] 0 false ∈ registered oneSegment [] := by
  have hrun : (((machine oneSegment UInt32.ofNat).restrict (capped oneSegment)).runFrom .start (firstAlloc 100)).map
      (fun state ↦ (state.segments (0, false)).isSome) = some true := by decide +kernel
  obtain ⟨state, hstate, hsome⟩ := Option.map_eq_some_iff.mp hrun
  have hreachable : ((machine oneSegment UInt32.ofNat).restrict (capped oneSegment)).Reachable state :=
    ⟨firstAlloc 100, hstate⟩
  have hregistered := segments_registered [] hreachable
  exact ⟨state, hreachable, hsome, hregistered.2.2 0 ((hregistered.1 0).mp (.inl hsome))⟩

end Steps

end GpuPipe.Store
