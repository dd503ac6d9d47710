import GpuPipe.Library.Totals
import GpuPipe.Store.Messages

/-!
# Conservation of store references

Every reference is in a live object, in an unread message, in a message still being sent, or
lost. The account holds in every run whose counts fit their word; a run is conserving exactly
when none of its steps drops a message that carries references.
-/

namespace GpuPipe.Messages

/-! ## Where references are -/

variable {n : ℕ} {kind : ℕ → Kind} {state next : State n} {thread : Fin n} {phase : Phase} {action : Action n}

/-- Handles of a block inside unread messages. -/
def State.unreadCount (state : State n) (block : ℕ) : ℕ := (state.unread.flatMap Prod.snd).count block

/-- Handles of a block inside messages that are being encoded or retried. -/
def State.sendingCount (state : State n) (block : ℕ) : ℕ :=
  ∑ thread, (state.phase thread).handles.count block

/-- A block's refcount is the number of its live objects and of its handles in messages. -/
def Conserved (state : State n) : Prop :=
  ∀ block, state.rc block = state.live block + state.unreadCount block + state.sendingCount block

/-- No share gives a block its 2^32nd reference. -/
def narrow (state : State n) : Action n → Bool
  | .reduce thread _ =>
    match state.phase thread with
    | .encoding _ _ _ (.view block :: _) _ => state.rc block + 1 < 2 ^ 32
    | _ => true
  | _ => true

/-- The step drops no message that carries references. -/
def keeps (kind : ℕ → Kind) (state : State n) : Action n → Bool
  | .fail thread => (state.phase thread).handles.isEmpty
  | .attempt thread true =>
    match state.phase thread with
    | .ready call queue _ handles => call.keeps (kind queue) || handles.isEmpty
    | _ => true
  | .giveUp thread => (state.phase thread).handles.isEmpty
  | _ => true

/-- The thread whose call the action is part of. -/
def Action.caller : Action n → Option (Fin n)
  | .begin thread _ _ _ | .tryPut thread | .reduce thread _ | .fail thread | .park thread
  | .encoded thread | .attempt thread _ | .giveUp thread => some thread
  | .get _ | .drop _ => none

/-! ## What a step does -/

/-- What a step does to the references: a thread moves on with its message, takes one more
reference, drops its message, keeps it or sends it; or a message is read, or an object ends. -/
inductive Effect (kind : ℕ → Kind) (state : State n) (action : Action n) : State n → Prop
  | move {thread : Fin n} {phase : Phase} (hcaller : action.caller = some thread)
      (hkeeps : keeps kind state action = true) (hhandles : phase.handles = (state.phase thread).handles) :
      Effect kind state action (state.goto thread phase)
  | share {thread : Fin n} {phase : Phase} {block : ℕ} (hcaller : action.caller = some thread)
      (hkeeps : keeps kind state action = true) (hlive : 0 < state.live block)
      (hnarrow : narrow state action = true → state.rc block + 1 < 2 ^ 32)
      (hhandles : phase.handles = (state.phase thread).handles ++ [block]) :
      Effect kind state action ((state.share block).goto thread phase)
  | store {thread : Fin n} {phase : Phase} (hcaller : action.caller = some thread)
      (hkeeps : keeps kind state action = true)
      (hhandles : phase.handles = (state.phase thread).handles ++ [state.next]) :
      Effect kind state action (state.store.goto thread phase)
  | lose {thread : Fin n} {phase : Phase} {handles : List ℕ} (hcaller : action.caller = some thread)
      (hhandles : (state.phase thread).handles = handles) (hnone : phase.handles = [])
      (hkeeps : handles = [] ↔ keeps kind state action = true) :
      Effect kind state action (State.goto { state with lost := state.lost ++ handles } thread phase)
  | hold (hkeeps : keeps kind state action = true) : Effect kind state action state
  | send {thread : Fin n} {queue : ℕ} {handles : List ℕ} (hcaller : action.caller = some thread)
      (hkeeps : keeps kind state action = true) (hhandles : (state.phase thread).handles = handles) :
      Effect kind state action
        (State.goto { state with unread := state.unread ++ [(queue, handles)] } thread .idle)
  | get {queue : ℕ} {next : State n} (hcaller : action.caller = none)
      (hkeeps : keeps kind state action = true) (hget : get state queue = some next) :
      Effect kind state action next
  | drop {block : ℕ} (hcaller : action.caller = none) (hkeeps : keeps kind state action = true)
      (hlive : 0 < state.live block) :
      Effect kind state action { state with
        rc := Function.update state.rc block ((state.rc block + (2 ^ 32 - 1)) % 2 ^ 32)
        live := Function.update state.live block (state.live block - 1) }

theorem reduce_effect {call : Call} {queue : ℕ} {parts rest : List Part} {handles : List ℕ}
    {stored : Bool} {part : Part}
    (hphase : state.phase thread = .encoding call queue parts (part :: rest) handles)
    (hstep : reduce state thread call queue parts rest handles stored part = some next) :
    Effect kind state (.reduce thread stored) next := by
  have hhandles : (state.phase thread).handles = handles := by rw [hphase, Phase.handles]
  cases part with
  | view block =>
    simp only [reduce] at hstep
    split at hstep
    · rename_i hlive
      cases hstep
      refine Effect.share rfl rfl hlive ?_ (by rw [hhandles, Phase.handles])
      intro hnarrow
      simpa only [narrow, hphase, decide_eq_true_eq] using hnarrow
    · cases hstep
  | fresh =>
    simp only [reduce] at hstep
    split at hstep
    · cases hstep
      exact Effect.store rfl rfl (by rw [hhandles, Phase.handles])
    · cases hstep
      exact Effect.move rfl rfl hhandles.symm
  | copied =>
    cases hstep
    exact Effect.move rfl rfl hhandles.symm

theorem full_effect {call : Call} {queue : ℕ} {parts : List Part} {handles : List ℕ}
    (hphase : state.phase thread = .ready call queue parts handles) :
    Effect kind state (.attempt thread true) (full kind state thread call queue parts handles) := by
  simp only [full]
  split
  · rename_i hkeeps
    apply Effect.hold
    simp [keeps, hphase, hkeeps]
  · rename_i hkeeps
    apply Effect.lose rfl
    · rw [hphase, Phase.handles]
    · cases call <;> rfl
    · simp [keeps, hphase, hkeeps]

/-- What one step does to the references of a block. -/
theorem step_effect (hstep : step kind state action = some next) : Effect kind state action next := by
  cases action with
  | begin thread call queue parts =>
    simp only [step] at hstep
    split at hstep
    · rename_i hphase
      split at hstep <;> cases hstep <;> exact Effect.move rfl rfl (by rw [hphase]; rfl)
    · cases hstep
  | reduce thread stored =>
    simp only [step] at hstep
    split at hstep
    · rename_i hphase
      exact reduce_effect hphase hstep
    · cases hstep
  | fail thread =>
    simp only [step] at hstep
    split at hstep <;> cases hstep
    rename_i hphase
    exact Effect.lose rfl (by rw [hphase, Phase.handles]) rfl (by simp [keeps, hphase, Phase.handles])
  | park thread =>
    simp only [step] at hstep
    split at hstep <;> cases hstep
    rename_i hphase
    exact Effect.store rfl rfl (by rw [hphase]; rfl)
  | tryPut thread | encoded thread =>
    simp only [step] at hstep
    split at hstep <;> cases hstep
    rename_i hphase
    exact Effect.move rfl rfl (by rw [hphase]; rfl)
  | attempt thread isFull =>
    simp only [step] at hstep
    split at hstep
    · rename_i hphase
      split at hstep <;> cases hstep
      · rename_i hfull
        subst hfull
        exact full_effect hphase
      · rename_i hfull
        exact Effect.send rfl (by simp [keeps, hfull]) (by rw [hphase, Phase.handles])
    · cases hstep
  | giveUp thread =>
    simp only [step] at hstep
    split at hstep
    · rename_i hphase
      cases hstep
      exact Effect.move rfl (by simp [keeps, hphase, Phase.handles]) (by rw [hphase]; rfl)
    · rename_i hphase
      split at hstep <;> cases hstep
      exact Effect.lose rfl (by rw [hphase, Phase.handles]) rfl (by simp [keeps, hphase, Phase.handles])
    · cases hstep
  | get queue => exact Effect.get rfl rfl hstep
  | drop block =>
    simp only [step] at hstep
    split at hstep <;> cases hstep
    rename_i hlive
    exact Effect.drop rfl rfl hlive

/-! ## The account -/

/-- Every reference is somewhere, lost ones included. -/
structure Accounted (state : State n) : Prop where
  total : ∀ block, state.rc block = state.live block + state.unreadCount block +
    state.sendingCount block + state.lost.count block
  fits : ∀ block, state.rc block < 2 ^ 32
  unused : ∀ block, state.next ≤ block → state.rc block = 0

/-- A thread's move changes the messages in its own hands. -/
theorem sendingCount_goto (state : State n) (thread : Fin n) (phase : Phase) (block : ℕ) :
    (state.goto thread phase).sendingCount block + (state.phase thread).handles.count block =
      state.sendingCount block + phase.handles.count block :=
  sum_update_comp (fun phase ↦ phase.handles.count block) state.phase thread phase

theorem accounted_start : Accounted (State.start n) where
  total block := by simp [State.start, State.unreadCount, State.sendingCount, Phase.handles]
  fits block := by simp [State.start]
  unused block _ := rfl

/-- How a step's changes to the count, the live objects, the queues and the lost handles have
to balance with the change of the message in the moving thread's hands. -/
theorem Accounted.goto (h : Accounted state) {middle : State n} (hphase : middle.phase = state.phase)
    (htotal : ∀ block, middle.rc block + (state.phase thread).handles.count block +
        (state.live block + state.unreadCount block + state.lost.count block) =
      state.rc block + phase.handles.count block +
        (middle.live block + middle.unreadCount block + middle.lost.count block))
    (hfits : ∀ block, middle.rc block < 2 ^ 32)
    (hunused : ∀ block, middle.next ≤ block → middle.rc block = 0) :
    Accounted (middle.goto thread phase) where
  total block := by
    have hsending := sendingCount_goto middle thread phase block
    have hsame : middle.sendingCount block = state.sendingCount block := by
      simp only [State.sendingCount, hphase]
    have hbefore := h.total block
    have hbalance := htotal block
    rw [hphase, hsame] at hsending
    show middle.rc block = middle.live block + middle.unreadCount block +
      (middle.goto thread phase).sendingCount block + middle.lost.count block
    omega
  fits := hfits
  unused := hunused

/-- The thread moves on with the message it has. -/
theorem Accounted.goto_same (h : Accounted state)
    (hhandles : phase.handles = (state.phase thread).handles) : Accounted (state.goto thread phase) := by
  apply h.goto
  · rfl
  · intro block
    rw [hhandles]
  · exact h.fits
  · exact h.unused

/-- The thread drops the message it has. -/
theorem Accounted.goto_lose (h : Accounted state) {handles : List ℕ}
    (hhandles : (state.phase thread).handles = handles) (hnone : phase.handles = []) :
    Accounted (State.goto { state with lost := state.lost ++ handles } thread phase) := by
  apply h.goto
  · rfl
  · intro block
    simp only [hhandles, hnone, State.unreadCount, List.count_append, List.count_nil]
    omega
  · exact h.fits
  · exact h.unused

/-- The thread's message is in the queue. -/
theorem Accounted.goto_send (h : Accounted state) {queue : ℕ} {handles : List ℕ}
    (hhandles : (state.phase thread).handles = handles) (hnone : phase.handles = []) :
    Accounted (State.goto { state with unread := state.unread ++ [(queue, handles)] } thread phase) := by
  apply h.goto
  · rfl
  · intro block
    simp only [hhandles, hnone, State.unreadCount, List.flatMap_append, List.flatMap_singleton,
      List.count_append, List.count_nil]
    omega
  · exact h.fits
  · exact h.unused

/-- The thread's message takes one more reference on a block that has one. -/
theorem Accounted.goto_share (h : Accounted state) {block : ℕ} {handles : List ℕ}
    (hhandles : (state.phase thread).handles = handles) (hmore : phase.handles = handles ++ [block])
    (hlive : 0 < state.live block) (hnarrow : state.rc block + 1 < 2 ^ 32) :
    Accounted ((state.share block).goto thread phase) := by
  have hword : (state.rc block + 1) % 2 ^ 32 = state.rc block + 1 := Nat.mod_eq_of_lt hnarrow
  have hrc : ∀ other, (state.share block).rc other = state.rc other + [block].count other := by
    intro other
    rcases eq_or_ne other block with rfl | hne
    · simp only [State.share, Function.update_self, hword, List.count_singleton_self]
    · simp [State.share, hne, hne.symm]
  apply h.goto
  · rfl
  · intro other
    rw [hrc, hhandles, hmore, List.count_append]
    simp only [State.share, State.unreadCount]
    omega
  · intro other
    rcases eq_or_ne other block with rfl | hne
    · simp only [State.share, Function.update_self, hword]
      exact hnarrow
    · simpa [State.share, hne] using h.fits other
  · intro other hother
    have hne : other ≠ block := by
      rintro rfl
      have htotal := h.total other
      have hzero := h.unused other hother
      omega
    simpa [State.share, hne] using h.unused other hother

/-- The thread's message takes the first reference on a new block. -/
theorem Accounted.goto_store (h : Accounted state) {handles : List ℕ}
    (hhandles : (state.phase thread).handles = handles) (hmore : phase.handles = handles ++ [state.next]) :
    Accounted (state.store.goto thread phase) := by
  have hfree : state.rc state.next = 0 := h.unused state.next le_rfl
  have hrc : ∀ other, state.store.rc other = state.rc other + [state.next].count other := by
    intro other
    rcases eq_or_ne other state.next with rfl | hne
    · simp [State.store, hfree]
    · simp [State.store, hne, hne.symm]
  apply h.goto
  · rfl
  · intro other
    rw [hrc, hhandles, hmore, List.count_append]
    simp only [State.store, State.unreadCount]
    omega
  · intro other
    rcases eq_or_ne other state.next with rfl | hne
    · simp [State.store]
    · simpa [State.store, hne] using h.fits other
  · intro other hother
    have hne : other ≠ state.next := by
      have : state.next + 1 ≤ other := hother
      omega
    have hzero := h.unused other (Nat.le_of_succ_le hother)
    simpa [State.store, hne] using hzero

/-- A decoded message's handles are live objects. -/
theorem Accounted.get (h : Accounted state) {queue : ℕ} (hget : Messages.get state queue = some next) :
    Accounted next := by
  simp only [Messages.get] at hget
  split at hget
  · cases hget
  · rename_i message hfind
    cases hget
    have hmem : message ∈ state.unread := List.mem_of_find?_eq_some hfind
    have hperm := (List.perm_cons_erase hmem).flatMap_right (f := Prod.snd)
    refine ⟨fun block ↦ ?_, h.fits, h.unused⟩
    have hcount := hperm.count_eq block
    rw [List.flatMap_cons, List.count_append] at hcount
    have htotal := h.total block
    simp only [State.unreadCount, State.sendingCount] at htotal ⊢
    omega

/-- A `Block` object that ends gives its reference back. -/
theorem Accounted.drop (h : Accounted state) {block : ℕ} (hlive : 0 < state.live block) :
    Accounted { state with
      rc := Function.update state.rc block ((state.rc block + (2 ^ 32 - 1)) % 2 ^ 32)
      live := Function.update state.live block (state.live block - 1) } := by
  have htotal := h.total block
  have hfits := h.fits block
  have hword : (state.rc block + (2 ^ 32 - 1)) % 2 ^ 32 = state.rc block - 1 := by omega
  refine ⟨fun other ↦ ?_, fun other ↦ ?_, fun other hother ↦ ?_⟩
  · have hother := h.total other
    rcases eq_or_ne other block with rfl | hne
    · simp only [Function.update_self, hword, State.unreadCount, State.sendingCount] at htotal ⊢
      omega
    · simpa [hne, State.unreadCount, State.sendingCount] using hother
  · rcases eq_or_ne other block with rfl | hne
    · simp only [Function.update_self, hword]
      omega
    · simpa [hne] using h.fits other
  · have hzero := h.unused other hother
    rcases eq_or_ne other block with rfl | hne
    · simp only [Function.update_self, hword]
      omega
    · simpa [hne] using hzero

/-- Every step whose share fits the refcount word keeps the account. -/
theorem Accounted.step (h : Accounted state) (hnarrow : narrow state action = true)
    (hstep : Messages.step kind state action = some next) : Accounted next := by
  cases step_effect hstep with
  | move _ _ hhandles => exact h.goto_same hhandles
  | share _ _ hlive hword hhandles => exact h.goto_share rfl hhandles hlive (hword hnarrow)
  | store _ _ hhandles => exact h.goto_store rfl hhandles
  | lose _ hhandles hnone _ => exact h.goto_lose hhandles hnone
  | hold _ => exact h
  | send _ _ hhandles => exact h.goto_send hhandles rfl
  | get _ _ hget => exact h.get hget
  | drop _ _ hlive => exact h.drop hlive

/-! ## Which steps lose references -/

/-- A step loses references exactly when it drops a message that carries some. -/
theorem lost_step (hstep : step kind state action = some next) :
    ∃ dropped, next.lost = state.lost ++ dropped ∧ (dropped = [] ↔ keeps kind state action = true) := by
  cases step_effect hstep with
  | lose _ _ _ hkeeps => exact ⟨_, rfl, hkeeps⟩
  | get _ hkeeps hget =>
    simp only [get] at hget
    split at hget <;> cases hget
    exact ⟨[], by simp, by simp [hkeeps]⟩
  | hold hkeeps | drop _ hkeeps _ => exact ⟨[], by simp, by simp [hkeeps]⟩
  | move _ hkeeps _ | share _ hkeeps _ _ _ | store _ hkeeps _ | send _ hkeeps _ =>
    exact ⟨[], by simp [State.goto, State.share, State.store], by simp [hkeeps]⟩

/-- A run loses nothing exactly when all its steps keep their messages. -/
theorem lost_run {last : State n} {actions : List (Action n)}
    (hrun : (machine n kind).runFrom state actions = some last) :
    ∃ dropped, last.lost = state.lost ++ dropped ∧
      (dropped = [] ↔ ((machine n kind).restrict (keeps kind)).runFrom state actions = some last) := by
  induction actions generalizing state with
  | nil =>
    cases hrun
    exact ⟨[], by simp, by simp⟩
  | cons action rest ih =>
    rw [Machine.runFrom_cons, Option.bind_eq_some_iff] at hrun
    obtain ⟨middle, hmiddle, hrest⟩ := hrun
    obtain ⟨first, hfirst, hkeeps⟩ := lost_step hmiddle
    obtain ⟨second, hsecond, hrun'⟩ := ih hrest
    refine ⟨first ++ second, by rw [hsecond, hfirst, List.append_assoc], ?_⟩
    rw [List.append_eq_nil_iff, hkeeps, hrun', Machine.runFrom_cons]
    rcases hallowed : keeps kind state action with _ | _
    · simp [Machine.restrict, hallowed]
    · have hstep : (machine n kind).step state action = some middle := hmiddle
      simp [Machine.restrict, hallowed, hstep]

/-- Every reference of a run is in an object, in a message, or lost with a message that was dropped. -/
theorem accounted_run (h : Accounted state) {last : State n} {actions : List (Action n)}
    (hrun : ((machine n kind).restrict narrow).runFrom state actions = some last) : Accounted last := by
  refine Machine.run_invariant Accounted ?_ h hrun
  intro state action next hstate hstep
  obtain ⟨hnarrow, hnext⟩ := Machine.restrict_step hstep
  exact hstate.step hnarrow hnext

/-- With nothing lost, the account is conservation. -/
theorem Accounted.conserved_iff (h : Accounted state) : Conserved state ↔ state.lost = [] := by
  constructor
  · intro hconserved
    rw [List.eq_nil_iff_forall_not_mem]
    intro block hmem
    have hpos := List.count_pos_iff.mpr hmem
    have htotal := h.total block
    have hequal := hconserved block
    omega
  · intro hlost block
    have htotal := h.total block
    simpa [hlost] using htotal

/-! ## One call -/

/-- A sending thread leaves live objects and the other threads alone. -/
theorem step_frame (hthread : action.caller = some thread) (hstep : step kind state action = some next) :
    next.live = state.live ∧ ∀ other, other ≠ thread → next.phase other = state.phase other := by
  have hgoto : ∀ (middle : State n) (moving : Fin n) phase, action.caller = some moving →
      middle.live = state.live → middle.phase = state.phase →
      (middle.goto moving phase).live = state.live ∧
        ∀ other, other ≠ thread → (middle.goto moving phase).phase other = state.phase other := by
    intro middle moving phase hcaller hlive hphase
    obtain rfl : thread = moving := Option.some.inj (hthread.symm.trans hcaller)
    refine ⟨hlive, fun other hne ↦ ?_⟩
    simp [State.goto, hne, hphase]
  cases step_effect hstep with
  | hold _ => simp
  | move hcaller _ _ | share hcaller _ _ _ _ | store hcaller _ _ | lose hcaller _ _ _ | send hcaller _ _ =>
    exact hgoto _ _ _ hcaller rfl rfl
  | get hcaller _ _ | drop hcaller _ _ => cases hthread.symm.trans hcaller

theorem run_frame {last : State n} {actions : List (Action n)}
    (hthread : ∀ action ∈ actions, action.caller = some thread)
    (hrun : (machine n kind).runFrom state actions = some last) :
    last.live = state.live ∧ ∀ other, other ≠ thread → last.phase other = state.phase other := by
  induction actions generalizing state with
  | nil =>
    cases hrun
    simp
  | cons action rest ih =>
    rw [Machine.runFrom_cons, Option.bind_eq_some_iff] at hrun
    obtain ⟨middle, hmiddle, hrest⟩ := hrun
    obtain ⟨hlive, hphase⟩ := step_frame (hthread action List.mem_cons_self) hmiddle
    obtain ⟨hlive', hphase'⟩ := ih (fun other hother ↦ hthread other (List.mem_cons_of_mem _ hother)) hrest
    exact ⟨hlive'.trans hlive, fun other hne ↦ (hphase' other hne).trans (hphase other hne)⟩

/-- A call that ends without its message in the queue leaves the refcounts as they were exactly
when none of its steps drops a message. -/
theorem rc_eq_iff_of_call (h : Accounted state) {last : State n} (hlast : Accounted last)
    {actions : List (Action n)} (hthread : ∀ action ∈ actions, action.caller = some thread)
    (hrun : (machine n kind).runFrom state actions = some last) (hidle : state.phase thread = .idle)
    (hidle' : last.phase thread = .idle) (hunread : last.unread = state.unread) :
    last.rc = state.rc ↔ ((machine n kind).restrict (keeps kind)).runFrom state actions = some last := by
  obtain ⟨dropped, hlost, hdropped⟩ := lost_run hrun
  obtain ⟨hlive, hothers⟩ := run_frame hthread hrun
  have hphase : last.phase = state.phase := by
    funext other
    rcases eq_or_ne other thread with rfl | hne
    · rw [hidle, hidle']
    · exact hothers other hne
  have hrc : ∀ block, last.rc block = state.rc block + dropped.count block := by
    intro block
    have hbefore := h.total block
    have hafter := hlast.total block
    simp only [State.unreadCount, State.sendingCount, hunread, hphase, hlive, hlost,
      List.count_append] at hbefore hafter
    omega
  rw [← hdropped]
  constructor
  · intro hequal
    rw [List.eq_nil_iff_forall_not_mem]
    intro block hmem
    have hpos := List.count_pos_iff.mpr hmem
    have hsame := congrFun hequal block
    have hmore := hrc block
    omega
  · intro hnone
    funext block
    rw [hrc, hnone, List.count_nil, Nat.add_zero]

/-! ## Conservation -/

/-- In a run whose counts fit their word, references are conserved exactly when no step drops
a message that carries some, and likewise each call that ends without its message in the queue. -/
theorem references_conserved_iff {actions : List (Action n)}
    (hrun : ((machine n kind).restrict narrow).runFrom (machine n kind).start actions = some state) :
    (Conserved state ↔
      ((machine n kind).restrict (keeps kind)).runFrom (machine n kind).start actions = some state) ∧
    ∀ (thread : Fin n) (attempt : List (Action n)) (last : State n),
      (∀ action ∈ attempt, action.caller = some thread) →
      ((machine n kind).restrict narrow).runFrom state attempt = some last →
      state.phase thread = .idle → last.phase thread = .idle → last.unread = state.unread →
      (last.rc = state.rc ↔
        ((machine n kind).restrict (keeps kind)).runFrom state attempt = some last) := by
  have haccounted : Accounted state := accounted_run accounted_start hrun
  constructor
  · obtain ⟨dropped, hlost, hdropped⟩ := lost_run (Machine.runFrom_of_restrict hrun)
    rw [haccounted.conserved_iff, hlost, ← hdropped]
    exact Iff.rfl
  · intro thread attempt last hcaller hattempt hidle hidle' hunread
    have hlast : Accounted last := accounted_run haccounted hattempt
    exact rc_eq_iff_of_call haccounted hlast hcaller (Machine.runFrom_of_restrict hattempt) hidle hidle' hunread

/-- A retried put of a new array, accepted at the second attempt and then read. -/
def retriedPut : List (Action 1) :=
  [.begin 0 .putRetry 0 [.fresh], .reduce 0 true, .encoded 0, .attempt 0 true, .attempt 0 false, .get 0]

/-- A put that is retried once and read: no reference is lost. -/
theorem references_conserved_retriedPut : ∃ state,
    ((machine 1 fun _ ↦ .shm).restrict narrow).runFrom (State.start 1) retriedPut = some state ∧
      Conserved state := by
  refine ⟨_, rfl, ?_⟩
  have hrun : ((machine 1 fun _ ↦ .shm).restrict narrow).runFrom (State.start 1) retriedPut = some _ := rfl
  exact (references_conserved_iff hrun).1.mpr rfl

/-- A put of a new array that finds the queue full leaves the block's count at one. -/
theorem not_references_conserved : ¬ ∀ (n : ℕ) (kind : ℕ → Kind) (state : State n),
    (machine n kind).Reachable state → Conserved state := by
  intro hconserved
  have hstate := hconserved 1 (fun _ ↦ .shm) _
    ⟨[.begin 0 .put 0 [.copied], .reduce 0 false, .encoded 0, .attempt 0 false,
      .begin 0 .put 0 [.fresh], .reduce 0 true, .encoded 0, .attempt 0 true], rfl⟩ 0
  exact absurd hstate (by decide)

end GpuPipe.Messages
