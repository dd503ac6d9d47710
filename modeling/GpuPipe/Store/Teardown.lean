import GpuPipe.Store.Segments

/-!
# Teardown finds every segment

`Store::unlink` reads each counter once and removes the names below it, while other processes may still drop
their blocks. Once no live process is on the way to a new segment, nothing is left behind, the segments of
processes that died halfway included.
-/

namespace GpuPipe.Store.Teardown

section Unlink

variable {store : PayloadStore} {pid : ℕ → UInt32} {state next : State} {thread : ℕ}

/-- No live thread is on the way to a new segment. -/
def Quiet (pid : ℕ → UInt32) (state : State) : Prop :=
  ∀ thread, state.store.alive pid thread = true → (state.store.phase thread).mayCreate = false

def noAlloc (_ : State) : Action → Bool
  | .move _ move => !move.isAlloc
  | _ => true

/-- Nothing is left of the names that `unlink` has passed. -/
def Swept (state : State) : Sweep → Prop
  | .idle => True
  | .regular i n => state.control = false ∧ n = state.store.ctl.nreg ∧
      ∀ id < i, state.store.segments (id, false) = none
  | .dedicated i n => state.control = false ∧ n = state.store.ctl.nded ∧
      (∀ id, state.store.segments (id, false) = none) ∧ ∀ id < i, state.store.segments (id, true) = none
  | .done => state.control = false ∧ ∀ key, state.store.segments key = none

structure Calm (pid : ℕ → UInt32) (state : State) : Prop where
  covered : Covered pid state
  quiet : Quiet pid state
  swept : Swept state state.sweep

theorem Swept.mono {sweep : Sweep} (h : Swept state sweep) (hcontrol : next.control = state.control)
    (hnreg : next.store.ctl.nreg = state.store.ctl.nreg) (hnded : next.store.ctl.nded = state.store.ctl.nded)
    (hsegments : ∀ key, next.store.segments key ≠ none → state.store.segments key ≠ none) :
    Swept next sweep := by
  have hgone (key : ℕ × Bool) (hnone : state.store.segments key = none) : next.store.segments key = none := by
    by_contra hsome
    exact hsegments key hsome hnone
  cases sweep with
  | idle => trivial
  | regular i n => exact ⟨hcontrol.trans h.1, h.2.1.trans hnreg.symm, fun id hid ↦ hgone _ (h.2.2 id hid)⟩
  | dedicated i n =>
    exact ⟨hcontrol.trans h.1, h.2.1.trans hnded.symm, fun id ↦ hgone _ (h.2.2.1 id),
      fun id hid ↦ hgone _ (h.2.2.2 id hid)⟩
  | done => exact ⟨hcontrol.trans h.1, fun key ↦ hgone key (h.2 key)⟩

/-- One round of a loop of `unlink` passes one more name. -/
theorem gone_succ {segments : Store.State} {dedicated : Bool} {i : ℕ}
    (h : ∀ id < i, segments.segments (id, dedicated) = none) :
    ∀ id < i + 1, (segments.setSegment (i, dedicated) none).segments (id, dedicated) = none := by
  intro id hid
  show Function.update segments.segments (i, dedicated) none (id, dedicated) = none
  rw [Function.update_apply]
  split
  · rfl
  · rename_i hne
    refine h id ((Nat.lt_succ_iff.mp hid).lt_of_ne fun hsame ↦ hne ?_)
    rw [hsame]

theorem Calm.sweep (h : Calm pid state) (hsweep : stepSweep state = some next) : Calm pid next := by
  have hcovered := h.covered.sweep hsweep
  have hswept := h.swept
  unfold stepSweep at hsweep
  split at hsweep
  · cases hsweep
    refine ⟨hcovered, h.quiet, rfl, rfl, fun id hid ↦ ?_⟩
    exact absurd hid (Nat.not_lt_zero id)
  · rename_i i n hcase
    rw [hcase] at hswept
    obtain ⟨hcontrol, hn, hgone⟩ := hswept
    split at hsweep
    · cases hsweep
      exact ⟨hcovered, h.quiet, hcontrol, hn, gone_succ hgone⟩
    · rename_i hend
      cases hsweep
      refine ⟨hcovered, h.quiet, hcontrol, rfl, fun id ↦ ?_, fun id hid ↦ absurd hid (Nat.not_lt_zero id)⟩
      by_contra hsome
      have hlt := h.covered.regular id hsome
      exact hsome (hgone id (by omega))
  · rename_i i n hcase
    rw [hcase] at hswept
    obtain ⟨hcontrol, hn, hregular, hgone⟩ := hswept
    split at hsweep
    · cases hsweep
      refine ⟨hcovered, h.quiet, hcontrol, hn, fun id ↦ ?_, gone_succ hgone⟩
      by_contra hsome
      exact setSegment_none hsome (hregular id)
    · rename_i hend
      cases hsweep
      refine ⟨hcovered, h.quiet, hcontrol, fun key ↦ ?_⟩
      obtain ⟨id, dedicated⟩ := key
      cases dedicated with
      | false => exact hregular id
      | true =>
        by_contra hsome
        have hlt := h.covered.dedicated id hsome
        exact hsome (hgone id (by omega))
  · cases hsweep

theorem Quiet.creates {stage : Making} {key : ℕ × Bool} (h : Quiet pid state)
    (hcreates : state.creates pid thread stage = some key) : False := by
  obtain ⟨halive, -, hkey⟩ := creates_some hcreates
  have hmay := h thread halive
  rw [Phase.mayCreate_of_key hkey] at hmay
  cases hmay

theorem Calm.move (h : Calm pid state) {move : Move} {after : Store.State}
    (halive : state.store.alive pid thread = true) (hmove : move.isCreate = false)
    (halloc : move.isAlloc = false) (hnext : moveStep store pid state.store thread move = some after) :
    Calm pid { state with store := after } := by
  obtain ⟨phase, hbooked⟩ := moveStep_booked hnext
  have hbefore := h.quiet thread halive
  cases moveStep_naming hmove hnext with
  | grows request hphase =>
    rw [hphase] at hbefore
    cases hbefore
  | takes nbytes size hphase =>
    rw [hphase] at hbefore
    cases hbefore
  | keeps hnreg hnded hsegments hkey hcreate =>
    refine ⟨h.covered.move halive hmove hnext, fun other hother ↦ ?_, h.swept.mono rfl hnreg hnded hsegments⟩
    obtain rfl | hne := eq_or_ne other thread
    · by_contra hmay
      have hor := hcreate (by simpa using hmay)
      rw [hbefore, halloc] at hor
      simp at hor
    · have hother' : state.store.alive pid other = true := by
        rw [Store.State.alive, ← hbooked.dead]
        exact hother
      have hsame : after.phase other = state.store.phase other := by
        rw [hbooked.phase, Function.update_of_ne hne]
      show (after.phase other).mayCreate = false
      rw [hsame]
      exact h.quiet other hother'

/-- Once nobody allocates, every step leaves what the sweep has passed empty. -/
theorem Calm.step {action : Action} (h : Calm pid state)
    (hstep : ((machine store pid).restrict noAlloc).step state action = some next) : Calm pid next := by
  obtain ⟨hallowed, hnext⟩ := Machine.restrict_step hstep
  cases action with
  | move thread move =>
    simp only [machine, Teardown.step, Option.ite_none_left_eq_some, Option.map_eq_some_iff, not_or,
      Bool.not_eq_true] at hnext
    obtain ⟨⟨halive, hmove⟩, after, hafter, rfl⟩ := hnext
    exact h.move (alive_of_not_dead halive) hmove (by simpa [noAlloc] using hallowed) hafter
  | shmOpen thread ok | shmUnlink thread =>
    simp only [machine, Teardown.step, Option.map_eq_some_iff] at hnext
    obtain ⟨key, hcreates, -⟩ := hnext
    exact (h.quiet.creates hcreates).elim
  | reserve thread ok | fail thread =>
    simp only [machine, Teardown.step, Option.bind_eq_some_iff] at hnext
    obtain ⟨key, hcreates, -⟩ := hnext
    exact (h.quiet.creates hcreates).elim
  | die process =>
    cases hnext
    exact ⟨h.covered.die process, fun thread hthread ↦ h.quiet thread (alive_of_die hthread),
      h.swept.mono rfl rfl rfl fun _ ↦ id⟩
  | sweep => exact h.sweep hnext

/-- The counters cover every segment that exists; a name that a live thread is about to create does not exist,
and no other live thread is creating it; and once nobody allocates any more, an `unlink` that has run to its
end leaves no segment, then and later. -/
theorem teardown_finds (store : PayloadStore) (pid : ℕ → UInt32) (state : State)
    (h : (machine store pid).Reachable state) :
    ((∀ id, state.store.segments (id, false) ≠ none → id < state.store.ctl.nreg) ∧
        ∀ id, state.store.segments (id, true) ≠ none → id < state.store.ctl.nded) ∧
      (∀ thread key, state.creates pid thread .fresh = some key → state.store.segments key = none ∧
        ∀ other stage, state.creates pid other stage = some key → other = thread) ∧
      (Quiet pid state → state.sweep = .idle → ∀ actions last,
        ((machine store pid).restrict noAlloc).runFrom state actions = some last → last.sweep = .done →
          last.control = false ∧ ∀ key, last.store.segments key = none) := by
  have hcovered := covered_of_reachable h
  refine ⟨⟨hcovered.regular, hcovered.dedicated⟩, fun thread key hcreates ↦ ?_, ?_⟩
  · obtain ⟨halive, hmaking, hkey⟩ := creates_some hcreates
    refine ⟨(hcovered.threads thread).absent halive key hkey (.inl hmaking), fun other stage hother ↦ ?_⟩
    obtain ⟨halive', -, hkey'⟩ := creates_some hother
    exact hcovered.alone halive' halive hkey' hkey
  · intro hquiet hidle actions last hrun hdone
    have hcalm : Calm pid state := ⟨hcovered, hquiet, by rw [hidle]; trivial⟩
    have hlast : Calm pid last :=
      Machine.run_invariant (Calm pid) (fun _ _ _ hstate hstep ↦ hstate.step hstep) hcalm hrun
    have hswept := hlast.swept
    rw [hdone] at hswept
    exact hswept

/-- A process dies with a segment it has not published; another takes over, allocates and is through. -/
def deadCreator : List Action :=
  [.move 0 (.alloc 100), .move 0 .acquire, .move 0 (.choose true), .shmOpen 0 true, .die 0,
    .move 1 (.alloc 100), .move 1 .acquire, .move 1 (.choose true), .shmOpen 1 true, .reserve 1 true,
    .move 1 .addUsed, .move 1 .setCur, .move 1 .setBump, .move 1 .unlock, .move 1 .init, .move 1 .init,
    .move 1 .init]

def twoProcesses (thread : ℕ) : UInt32 := if thread = 1 then 1 else 0

theorem eq_one_of_alive (hdead : state.store.dead 0 = true)
    (halive : state.store.alive twoProcesses thread = true) : thread = 1 := by
  by_contra hne
  rw [Store.State.alive, twoProcesses, if_neg hne, hdead] at halive
  cases halive

/-- `unlink` over two regular numbers and no dedicated one. -/
theorem teardown_finds_deadCreator :
    ∃ state last,
      (machine smallStore twoProcesses).runFrom (machine smallStore twoProcesses).start deadCreator =
        some state ∧
      ((machine smallStore twoProcesses).restrict noAlloc).runFrom state (List.replicate 5 .sweep) =
        some last ∧
      state.store.segments (0, false) = some 0 ∧ ∀ key, last.store.segments key = none := by
  have hfirst : ((machine smallStore twoProcesses).runFrom (machine smallStore twoProcesses).start
      deadCreator).map (fun state ↦
        (state.store.dead 0, state.store.phase 1, state.store.segments (0, false), state.sweep)) =
          some (true, .idle, some 0, .idle) := by decide +kernel
  have hsecond : (((machine smallStore twoProcesses).runFrom (machine smallStore twoProcesses).start
      deadCreator).bind fun state ↦ ((machine smallStore twoProcesses).restrict noAlloc).runFrom state
        (List.replicate 5 .sweep)).map State.sweep = some .done := by decide +kernel
  obtain ⟨state, hstate, hvalues⟩ := Option.map_eq_some_iff.mp hfirst
  simp only [Prod.mk.injEq] at hvalues
  obtain ⟨hdead, hphase, hsegment, hidle⟩ := hvalues
  rw [hstate, Option.bind_some] at hsecond
  obtain ⟨last, hlast, hdone⟩ := Option.map_eq_some_iff.mp hsecond
  have hquiet : Quiet twoProcesses state := by
    intro thread halive
    rw [eq_one_of_alive hdead halive, hphase]
    rfl
  exact ⟨state, last, hstate, hlast, hsegment,
    ((teardown_finds smallStore twoProcesses state ⟨deadCreator, hstate⟩).2.2 hquiet hidle _ last hlast
      hdone).2⟩

end Unlink

end GpuPipe.Store.Teardown
