import GpuPipe.Lifecycle.Process

/-!
# One monitor per pipeline

The stop event is cleared by the next `start`, so a monitor that is still there then goes on
beside the new one. It is never there when lifecycle calls do not overlap, come from no monitor
thread, wait for the threads they retire, and `start` finds the pipeline down.
-/

namespace GpuPipe.Lifecycle

variable {config : Config} {state next : State}

/-- Lifecycle calls do not overlap, no restart is called by a monitor, no join gives up, and
`start` is not called on a running pipeline. -/
def exclusive (state : State) : Action → Bool
  | .begin _ op => state.busy.isNone && (op ≠ .start || !state.up)
  | .call _ timeout => !timeout
  | .monitor _ (.decide full) => !full
  | .reader .begin => state.started || state.busy.isNone
  | .reader .test => state.shouldStop ≠ 2 || state.busy.isNone
  | .reader .fails => state.busy.isNone
  | .reader (.leave enough) => !enough || state.busy.isNone
  | _ => true

def State.noMonitor (state : State) : Prop := ∀ id, state.monitors id = .exited

def State.noScavenger (state : State) : Prop := ∀ id, state.scavengers id = .exited

/-- Which threads are gone at each statement of a call. -/
def Call.Ok (state : State) : Call → Prop
  | .stopping _ | .retiring _ => True
  | .joining _ target => state.monitor = some target
  | .joined _ | .retiringScavenger _ => state.noMonitor
  | .joiningScavenger _ target => state.noMonitor ∧ state.scavenger = some target
  | .joinedScavenger _ | .resetting _ | .building => state.noMonitor ∧ state.noScavenger
  | .clearing | .spawning => (state.noMonitor ∧ state.noScavenger) ∧ state.up = true
  | .clearingScavenger | .spawningScavenger => state.noScavenger ∧ state.up = true

/-- The live threads are the ones the pipeline knows, and there are none when it is down. -/
structure Single (state : State) : Prop where
  busy : ∀ caller call, state.call caller = some call → state.busy = some caller
  users : ∀ id, state.call (.monitor id) = none
  calls : ∀ caller call, state.call caller = some call → call.Ok state
  monitor : ∀ id, state.monitors id ≠ .exited → state.monitor = some id
  scavenger : ∀ id, state.scavengers id ≠ .exited → state.scavenger = some id
  started : state.up = true → state.started = true
  down : state.busy = none → state.up = false → state.noMonitor ∧ state.noScavenger

theorem single_start : Single State.start where
  busy caller call hcall := by cases hcall
  users id := rfl
  calls caller call hcall := by cases hcall
  monitor id hid := absurd rfl hid
  scavenger id hid := absurd rfl hid
  started hup := by cases hup
  down _ _ := ⟨fun _ ↦ rfl, fun _ ↦ rfl⟩

/-- A call begins when none is under way. -/
theorem Single.enter (h : Single state) {caller : Caller} {call : Call} (hidle : state.busy = none)
    (hcaller : ∀ id, caller ≠ .monitor id) (hcall : call.Ok (state.enter caller call)) :
    Single (state.enter caller call) := by
  have hnone : ∀ other, state.call other = none := by
    intro other
    cases hother : state.call other with
    | none => rfl
    | some call =>
      have hbusy := h.busy other call hother
      rw [hidle] at hbusy
      cases hbusy
  have honly : ∀ other call', (state.enter caller call).call other = some call' → other = caller ∧ call' = call := by
    intro other call' hother
    rcases eq_or_ne other caller with rfl | hne
    · simp only [State.enter, Function.update_self, Option.some_inj] at hother
      exact ⟨rfl, hother.symm⟩
    · simp [State.enter, hne, hnone] at hother
  constructor
  · intro other call' hother
    rw [(honly other call' hother).1]
    rfl
  · intro id
    simp [State.enter, (hcaller id).symm, hnone]
  · intro other call' hother
    rw [(honly other call' hother).2]
    exact hcall
  · exact h.monitor
  · exact h.scavenger
  · exact h.started
  · intro hbusy
    cases hbusy

/-- The one call under way goes on to its next statement. -/
theorem Single.goto (h : Single state) {caller : Caller} {before call : Call}
    (hbefore : state.call caller = some before)
    (hnext : next.call = Function.update state.call caller (some call)) (hbusy : next.busy = state.busy)
    (hcall : call.Ok next) (hmonitor : ∀ id, next.monitors id ≠ .exited → next.monitor = some id)
    (hscavenger : ∀ id, next.scavengers id ≠ .exited → next.scavenger = some id)
    (hstarted : next.up = true → next.started = true) : Single next := by
  have hown := h.busy caller before hbefore
  have honly : ∀ other call', next.call other = some call' → other = caller ∧ call' = call := by
    intro other call' hother
    rw [hnext] at hother
    rcases eq_or_ne other caller with rfl | hne
    · rw [Function.update_self, Option.some_inj] at hother
      exact ⟨rfl, hother.symm⟩
    · rw [Function.update_of_ne hne] at hother
      have hother' := h.busy other call' hother
      rw [hown, Option.some_inj] at hother'
      exact absurd hother'.symm hne
  constructor
  · intro other call' hother
    rw [(honly other call' hother).1, hbusy, hown]
  · intro id
    cases hid : next.call (.monitor id) with
    | none => rfl
    | some call' =>
      rw [← (honly _ call' hid).1, h.users] at hbefore
      cases hbefore
  · intro other call' hother
    rw [(honly other call' hother).2]
    exact hcall
  · exact hmonitor
  · exact hscavenger
  · exact hstarted
  · intro hnone
    rw [hbusy, hown] at hnone
    cases hnone

/-- The one call under way returns. -/
theorem Single.leave (h : Single state) {caller : Caller} {before : Call} (hbefore : state.call caller = some before)
    (hnext : next.call = Function.update state.call caller none)
    (hmonitor : ∀ id, next.monitors id ≠ .exited → next.monitor = some id)
    (hscavenger : ∀ id, next.scavengers id ≠ .exited → next.scavenger = some id)
    (hstarted : next.up = true → next.started = true)
    (hdown : next.up = false → next.noMonitor ∧ next.noScavenger) : Single next := by
  have hown := h.busy caller before hbefore
  have hnone : ∀ other, next.call other = none := by
    intro other
    rw [hnext]
    rcases eq_or_ne other caller with rfl | hne
    · rw [Function.update_self]
    · rw [Function.update_of_ne hne]
      cases hother : state.call other with
      | none => rfl
      | some call =>
        have hother' := h.busy other call hother
        rw [hown, Option.some_inj] at hother'
        exact absurd hother'.symm hne
  constructor
  · intro other call hother
    rw [hnone] at hother
    cases hother
  · intro id
    exact hnone _
  · intro other call hother
    rw [hnone] at hother
    cases hother
  · exact hmonitor
  · exact hscavenger
  · exact hstarted
  · intro _
    exact hdown

/-- A join that has not given up has seen the last live monitor exit. -/
theorem Single.noMonitor_of_joined (h : Single state) {target : ℕ} (hmonitor : state.monitor = some target)
    (hexited : state.monitors target = .exited) : state.noMonitor := by
  intro id
  by_contra hlive
  have hid := h.monitor id hlive
  rw [hmonitor, Option.some_inj] at hid
  exact hlive (hid ▸ hexited)

theorem Single.noScavenger_of_joined (h : Single state) {target : ℕ} (hscavenger : state.scavenger = some target)
    (hexited : state.scavengers target = .exited) : state.noScavenger := by
  intro id
  by_contra hlive
  have hid := h.scavenger id hlive
  rw [hscavenger, Option.some_inj] at hid
  exact hlive (hid ▸ hexited)

theorem Single.noMonitor_of_none (h : Single state) (hmonitor : state.monitor = none) : state.noMonitor := by
  intro id
  by_contra hlive
  have hid := h.monitor id hlive
  rw [hmonitor] at hid
  cases hid

theorem Single.noScavenger_of_none (h : Single state) (hscavenger : state.scavenger = none) :
    state.noScavenger := by
  intro id
  by_contra hlive
  have hid := h.scavenger id hlive
  rw [hscavenger] at hid
  cases hid

/-- Where all are gone, a thread just started is the only live one. -/
theorem started_of_live {Phase : Type} {phases : ℕ → Phase} {exited phase : Phase} {fresh id : ℕ}
    (hnone : ∀ other, phases other = exited) (hlive : Function.update phases fresh phase id ≠ exited) :
    some fresh = some id := by
  rcases eq_or_ne id fresh with rfl | hne
  · rfl
  · rw [Function.update_of_ne hne] at hlive
    exact absurd (hnone id) hlive

/-- Each statement of a call that waits for the threads it retires. -/
theorem Single.call (h : Single state) {caller : Caller} {call : Call} (hcall : state.call caller = some call)
    (hstep : stepCall config state caller false call = some next) : Single next := by
  have hok := h.calls caller call hcall
  cases call with
  | stopping again =>
    cases hstep
    exact h.goto hcall rfl rfl trivial h.monitor h.scavenger h.started
  | retiring again =>
    simp only [stepCall] at hstep
    split at hstep
    · rename_i target hmonitor
      split at hstep <;> cases hstep
      · rename_i hexited
        exact h.goto hcall rfl rfl (h.noMonitor_of_joined hmonitor hexited) h.monitor h.scavenger h.started
      · exact h.goto hcall rfl rfl hmonitor h.monitor h.scavenger h.started
    · rename_i hmonitor
      cases hstep
      exact h.goto hcall rfl rfl (h.noMonitor_of_none hmonitor) h.monitor h.scavenger h.started
  | joining again target =>
    simp only [stepCall] at hstep
    split at hstep <;> cases hstep
    rename_i hends
    have hother : caller ≠ .monitor target := by
      rintro rfl
      rw [h.users] at hcall
      cases hcall
    have hexited : state.monitors target = .exited := by simpa [hother] using hends
    exact h.goto hcall rfl rfl (h.noMonitor_of_joined hok hexited) h.monitor h.scavenger h.started
  | joined again =>
    cases hstep
    refine h.goto hcall rfl rfl hok ?_ h.scavenger h.started
    intro id hlive
    exact absurd (hok id) hlive
  | retiringScavenger again =>
    simp only [stepCall] at hstep
    split at hstep
    · rename_i target hscavenger
      split at hstep <;> cases hstep
      · rename_i hexited
        have hnone := h.noScavenger_of_joined hscavenger hexited
        exact h.goto hcall rfl rfl ⟨hok, hnone⟩ h.monitor h.scavenger h.started
      · exact h.goto hcall rfl rfl ⟨hok, hscavenger⟩ h.monitor h.scavenger h.started
    · rename_i hscavenger
      cases hstep
      exact h.goto hcall rfl rfl ⟨hok, h.noScavenger_of_none hscavenger⟩ h.monitor h.scavenger h.started
  | joiningScavenger again target =>
    simp only [stepCall] at hstep
    split at hstep <;> cases hstep
    rename_i hends
    have hexited : state.scavengers target = .exited := by simpa using hends
    exact h.goto hcall rfl rfl ⟨hok.1, h.noScavenger_of_joined hok.2 hexited⟩ h.monitor h.scavenger h.started
  | joinedScavenger again =>
    cases hstep
    refine h.goto hcall rfl rfl hok h.monitor ?_ h.started
    intro id hlive
    exact absurd (hok.2 id) hlive
  | resetting again =>
    simp only [stepCall] at hstep
    split at hstep <;> cases hstep
    · exact h.goto hcall rfl rfl hok h.monitor h.scavenger (by simp [State.reset, State.goto])
    · exact h.leave hcall rfl h.monitor h.scavenger (by simp [State.reset, State.leave]) fun _ ↦ hok
  | building =>
    cases hstep
    simp only [State.afterBuild]
    split
    · exact h.goto hcall rfl rfl ⟨hok, rfl⟩ h.monitor h.scavenger fun _ ↦ rfl
    · split
      · exact h.goto hcall rfl rfl ⟨hok.2, rfl⟩ h.monitor h.scavenger fun _ ↦ rfl
      · exact h.leave hcall rfl h.monitor h.scavenger (fun _ ↦ rfl) fun hup ↦ by cases hup
  | clearing =>
    cases hstep
    exact h.goto hcall rfl rfl hok h.monitor h.scavenger h.started
  | spawning =>
    cases hstep
    obtain ⟨⟨hnone, hnone'⟩, hup⟩ := hok
    have hnew : ∀ id, Function.update state.monitors state.nextMonitor .test id ≠ .exited →
        some state.nextMonitor = some id := fun _ hlive ↦ started_of_live hnone hlive
    simp only [State.afterMonitor]
    split
    · exact h.goto hcall rfl rfl ⟨hnone', hup⟩ hnew h.scavenger h.started
    · refine h.leave hcall rfl hnew h.scavenger h.started ?_
      intro hdown
      exact absurd (hup.symm.trans hdown) (by decide)
  | clearingScavenger =>
    cases hstep
    exact h.goto hcall rfl rfl hok h.monitor h.scavenger h.started
  | spawningScavenger =>
    cases hstep
    refine h.leave hcall rfl h.monitor (fun _ hlive ↦ started_of_live hok.1 hlive) h.started ?_
    intro hdown
    exact absurd (hok.2.symm.trans hdown) (by decide)

/-- A monitor moves while it is live, and changes only itself and the workers unless it
restarts the pipeline. -/
theorem stepMonitor_frame {id : ℕ} {move : MonitorMove} (h : stepMonitor config state id move = some next)
    (hmove : move ≠ .decide true) : state.monitors id ≠ .exited ∧
      (∃ monitor, next.monitors = Function.update state.monitors id monitor) ∧ next.call = state.call ∧
      next.busy = state.busy ∧ next.monitor = state.monitor ∧ next.scavenger = state.scavenger ∧
      next.scavengers = state.scavengers ∧ next.up = state.up ∧ next.started = state.started := by
  cases stepMonitor_cases h with
  | restart _ _ => exact absurd rfl hmove
  | respawn hpc =>
    simp only [State.respawn]
    split <;> exact ⟨by simp [hpc], ⟨_, rfl⟩, rfl, rfl, rfl, rfl, rfl, rfl, rfl⟩
  | test hpc | wake hpc | check hpc | quiet hpc _ | scan hpc _ | decide hpc | respawned hpc | resume hpc _ =>
    exact ⟨by simp [hpc], ⟨_, rfl⟩, rfl, rfl, rfl, rfl, rfl, rfl, rfl⟩

theorem stepScavenger_cases {id : ℕ} {move : ScavengerMove} (h : stepScavenger state id move = some next) :
    state.scavengers id ≠ .exited ∧ ∃ scavenger, next = state.setScavenger id scavenger := by
  simp only [stepScavenger] at h
  split at h
  · rename_i hpc
    cases h
    exact ⟨by simp [hpc], _, rfl⟩
  · rename_i hpc
    cases h
    exact ⟨by simp [hpc], _, rfl⟩
  · rename_i hpc
    cases h
    exact ⟨by simp [hpc], _, rfl⟩
  · cases h

/-- A step that leaves calls and thread records alone, and starts no thread. -/
theorem Single.congr (h : Single state) (hcall : next.call = state.call) (hbusy : next.busy = state.busy)
    (hmonitor : next.monitor = state.monitor) (hscavenger : next.scavenger = state.scavenger)
    (hup : next.up = state.up) (hstarted : next.started = state.started)
    (hmonitors : ∀ id, next.monitors id ≠ .exited → state.monitors id ≠ .exited)
    (hscavengers : ∀ id, next.scavengers id ≠ .exited → state.scavengers id ≠ .exited) : Single next := by
  have hnone : state.noMonitor → next.noMonitor := by
    intro hgone id
    by_contra hlive
    exact hmonitors id hlive (hgone id)
  have hnone' : state.noScavenger → next.noScavenger := by
    intro hgone id
    by_contra hlive
    exact hscavengers id hlive (hgone id)
  constructor
  · rw [hcall, hbusy]
    exact h.busy
  · rw [hcall]
    exact h.users
  · intro caller call hnext
    rw [hcall] at hnext
    have hok := h.calls caller call hnext
    cases call <;> simp only [Call.Ok, hmonitor, hscavenger, hup] at hok ⊢
    case joining => exact hok
    case joined => exact hnone hok
    case retiringScavenger => exact hnone hok
    case joiningScavenger => exact ⟨hnone hok.1, hok.2⟩
    case joinedScavenger => exact ⟨hnone hok.1, hnone' hok.2⟩
    case resetting => exact ⟨hnone hok.1, hnone' hok.2⟩
    case building => exact ⟨hnone hok.1, hnone' hok.2⟩
    case clearing => exact ⟨⟨hnone hok.1.1, hnone' hok.1.2⟩, hok.2⟩
    case spawning => exact ⟨⟨hnone hok.1.1, hnone' hok.1.2⟩, hok.2⟩
    case clearingScavenger => exact ⟨hnone' hok.1, hok.2⟩
    case spawningScavenger => exact ⟨hnone' hok.1, hok.2⟩
  · intro id hlive
    rw [hmonitor]
    exact h.monitor id (hmonitors id hlive)
  · intro id hlive
    rw [hscavenger]
    exact h.scavenger id (hscavengers id hlive)
  · rw [hup, hstarted]
    exact h.started
  · intro hidle hdown
    rw [hbusy] at hidle
    rw [hup] at hdown
    exact ⟨hnone (h.down hidle hdown).1, hnone' (h.down hidle hdown).2⟩

theorem Single.setReader (h : Single state) (pc : ReaderPc) : Single (state.setReader pc) :=
  h.congr rfl rfl rfl rfl rfl rfl (fun _ hlive ↦ hlive) fun _ hlive ↦ hlive

theorem Single.reader (h : Single state) {move : ReaderMove} (hexclusive : exclusive state (.reader move) = true)
    (hstep : stepReader state move = some next) : Single next := by
  cases stepReader_cases hstep with
  | start _ hstarted =>
    have hidle : state.busy = none := by simpa [exclusive, hstarted] using hexclusive
    have hdown : state.up = false := by
      by_contra hup
      rw [Bool.not_eq_false] at hup
      exact hstarted (h.started hup)
    exact (h.setReader _).enter hidle (by simp) (h.down hidle hdown)
  | restart _ hstop =>
    have hidle : state.busy = none := by simpa [exclusive, hstop] using hexclusive
    exact (h.setReader _).enter hidle (by simp) trivial
  | fails _ | leave _ _ =>
    have hidle : state.busy = none := by simpa [exclusive] using hexclusive
    exact (h.setReader _).enter hidle (by simp) trivial
  | capture _ _ | opens _ _ =>
    exact h.congr rfl rfl rfl rfl rfl rfl (fun _ hlive ↦ hlive) fun _ hlive ↦ hlive
  | running _ _ | started _ _ | restarted _ _ | stopped _ _ | captureFails _ _ | openFails _ _ | test _ _
  | yields _ | empty _ | again _ => exact h.setReader _

/-- No step of an exclusive run leaves a live thread that the pipeline does not know. -/
theorem Single.step (h : Single state) {action : Action} (hexclusive : exclusive state action = true)
    (hstep : Lifecycle.step config state action = some next) : Single next := by
  cases action with
  | begin user op =>
    simp only [Lifecycle.step] at hstep
    split at hstep <;> cases hstep
    simp only [exclusive, Bool.and_eq_true, Option.isNone_iff_eq_none, Bool.or_eq_true, decide_eq_true_eq,
      Bool.not_eq_eq_eq_not, Bool.not_true] at hexclusive
    apply h.enter hexclusive.1 (by simp)
    cases op with
    | start =>
      have hdown : state.up = false := by simpa using hexclusive.2
      exact h.down hexclusive.1 hdown
    | stop => trivial
    | restart => trivial
  | call caller timeout =>
    simp only [Lifecycle.step] at hstep
    split at hstep
    · rename_i call hcall
      simp only [exclusive, Bool.not_eq_eq_eq_not, Bool.not_true] at hexclusive
      subst hexclusive
      exact h.call hcall hstep
    · cases hstep
  | monitor id move =>
    have hmove : move ≠ .decide true := by
      rintro rfl
      cases hexclusive
    obtain ⟨hlive, ⟨monitor, hmonitors⟩, hcall, hbusy, hmonitor, hscavenger, hscavengers, hup, hstarted⟩ :=
      stepMonitor_frame hstep hmove
    apply h.congr hcall hbusy hmonitor hscavenger hup hstarted
    · intro other hother
      rw [hmonitors] at hother
      rcases eq_or_ne other id with rfl | hne
      · exact hlive
      · rwa [Function.update_of_ne hne] at hother
    · rw [hscavengers]
      exact fun _ hother ↦ hother
  | scavenger thread move =>
    obtain ⟨hlive, scavenger, rfl⟩ := stepScavenger_cases hstep
    refine h.congr rfl rfl rfl rfl rfl rfl (fun _ hother ↦ hother) ?_
    intro other hother
    rcases eq_or_ne other thread with rfl | hne
    · exact hlive
    · simpa [State.setScavenger, hne] using hother
  | reader move => exact h.reader hexclusive hstep
  | crash slot =>
    simp only [Lifecycle.step] at hstep
    split at hstep <;> cases hstep
    exact h.congr rfl rfl rfl rfl rfl rfl (fun _ hlive ↦ hlive) fun _ hlive ↦ hlive
  | connectionError =>
    cases hstep
    exact h.congr rfl rfl rfl rfl rfl rfl (fun _ hlive ↦ hlive) fun _ hlive ↦ hlive
  | finish =>
    simp only [Lifecycle.step] at hstep
    split at hstep <;> cases hstep
    exact h.congr rfl rfl rfl rfl rfl rfl (fun _ hlive ↦ hlive) fun _ hlive ↦ hlive

/-! ## Crashes -/

/-- The crashes a monitor has seen and not dealt with. -/
def Monitor.crashes : Monitor → List (ℕ × ℕ)
  | .deciding crashes | .respawning crashes => crashes
  | _ => []

/-- Processes are numbered once, a respawned process is gone for good, and the crashes a
monitor has seen are of the processes now in those slots. -/
structure Respawns (state : State) : Prop where
  bound : ∀ slot, slot < state.width → (state.workers slot).process < state.nextProcess
  distinct : ∀ slot slot', slot < state.width → slot' < state.width →
    (state.workers slot).process = (state.workers slot').process → slot = slot'
  past : ∀ process ∈ state.respawned, process < state.nextProcess ∧
    ∀ slot, slot < state.width → (state.workers slot).process ≠ process
  nodup : state.respawned.Nodup
  slots : ∀ id, ((state.monitors id).crashes.map Prod.fst).Nodup
  seen : ∀ id, ∀ crash ∈ (state.monitors id).crashes,
    crash.1 < state.width ∧ (state.workers crash.1).process = crash.2

theorem respawns_start : Respawns State.start where
  bound slot hslot := by cases hslot
  distinct slot slot' hslot := by cases hslot
  past process hprocess := by cases hprocess
  nodup := List.nodup_nil
  slots id := List.nodup_nil
  seen id crash hcrash := by cases hcrash

/-- Steps that leave the processes alone and add nothing to what a monitor has seen. -/
theorem Respawns.congr (h : Respawns state) (hwidth : next.width = state.width)
    (hworkers : ∀ slot, (next.workers slot).process = (state.workers slot).process)
    (hnext : next.nextProcess = state.nextProcess) (hrespawned : next.respawned = state.respawned)
    (hmonitors : ∀ id, (next.monitors id).crashes = (state.monitors id).crashes ∨ (next.monitors id).crashes = []) :
    Respawns next := by
  constructor
  · simpa only [hwidth, hworkers, hnext] using h.bound
  · simpa only [hwidth, hworkers] using h.distinct
  · simpa only [hwidth, hworkers, hnext, hrespawned] using h.past
  · rw [hrespawned]
    exact h.nodup
  · intro id
    rcases hmonitors id with hsame | hnone
    · rw [hsame]
      exact h.slots id
    · rw [hnone]
      exact List.nodup_nil
  · intro id crash hcrash
    rw [hwidth, hworkers]
    rcases hmonitors id with hsame | hnone
    · exact h.seen id crash (hsame ▸ hcrash)
    · rw [hnone] at hcrash
      cases hcrash

/-- With no monitor, the slots may be emptied or filled with new processes. -/
theorem Respawns.rebuild (h : Respawns state) (hmonitors : next.noMonitor)
    (hmore : state.nextProcess ≤ next.nextProcess) (hrespawned : next.respawned = state.respawned)
    (hbound : ∀ slot, slot < next.width →
      state.nextProcess ≤ (next.workers slot).process ∧ (next.workers slot).process < next.nextProcess)
    (hdistinct : ∀ slot slot', slot < next.width → slot' < next.width →
      (next.workers slot).process = (next.workers slot').process → slot = slot') : Respawns next := by
  constructor
  · intro slot hslot
    exact (hbound slot hslot).2
  · exact hdistinct
  · intro process hprocess
    rw [hrespawned] at hprocess
    obtain ⟨hlt, -⟩ := h.past process hprocess
    refine ⟨by omega, fun slot hslot ↦ ?_⟩
    have hge := (hbound slot hslot).1
    omega
  · rw [hrespawned]
    exact h.nodup
  · intro id
    rw [hmonitors id]
    exact List.nodup_nil
  · intro id crash hcrash
    rw [hmonitors id] at hcrash
    cases hcrash

/-- `_restart_worker` for a crash that the only live monitor has seen. -/
theorem Respawns.respawn (h : Respawns state) (hsingle : Single state) {id : ℕ} {crash : ℕ × ℕ} {rest : List (ℕ × ℕ)}
    (hpc : state.monitors id = .respawning (crash :: rest)) :
    Respawns ((state.respawn crash).setMonitor id (.respawning rest)) := by
  have hslots := h.slots id
  have hseen := h.seen id
  rw [hpc] at hslots hseen
  obtain ⟨hslot, hprocess⟩ := hseen crash List.mem_cons_self
  have hothers : ∀ other, other ≠ id → state.monitors other = .exited := by
    intro other hne
    by_contra hlive
    have hid := hsingle.monitor id (by simp [hpc])
    have hother := hsingle.monitor other hlive
    rw [hid, Option.some_inj] at hother
    exact hne hother.symm
  have hworkers : ∀ slot, (Function.update state.workers crash.1 ⟨state.nextProcess, false⟩ slot).process =
      if slot = crash.1 then state.nextProcess else (state.workers slot).process := by
    intro slot
    rcases eq_or_ne slot crash.1 with rfl | hne
    · simp
    · simp [hne]
  have hkept : ∀ crash' ∈ rest, crash'.1 ≠ crash.1 := by
    intro crash' hrest heq
    rw [Monitor.crashes, List.map_cons, List.nodup_cons] at hslots
    exact hslots.1 (heq ▸ List.mem_map_of_mem hrest)
  simp only [State.respawn, hslot, if_true]
  constructor
  · intro slot hslot'
    have hlt := h.bound slot hslot'
    simp only [State.setMonitor, hworkers]
    split <;> omega
  · intro slot slot' hslot' hslot'' heq
    have hlt := h.bound slot hslot'
    have hlt' := h.bound slot' hslot''
    simp only [State.setMonitor, hworkers] at heq
    split at heq <;> split at heq
    · omega
    · omega
    · omega
    · exact h.distinct slot slot' hslot' hslot'' heq
  · intro process hmem
    simp only [State.setMonitor, hworkers]
    have hgone : process < state.nextProcess ∧
        ∀ slot, slot < state.width → slot ≠ crash.1 → (state.workers slot).process ≠ process := by
      rcases List.mem_append.mp hmem with hbefore | hnew
      · obtain ⟨hlt, hne⟩ := h.past process hbefore
        exact ⟨hlt, fun slot hslot' _ ↦ hne slot hslot'⟩
      · rw [List.mem_singleton.mp hnew, ← hprocess]
        refine ⟨h.bound crash.1 hslot, fun slot hslot' hne heq ↦ hne ?_⟩
        exact h.distinct slot crash.1 hslot' hslot heq
    refine ⟨by omega, fun slot hslot' ↦ ?_⟩
    split
    · omega
    · exact hgone.2 slot hslot' ‹_›
  · rw [State.setMonitor, List.nodup_append]
    refine ⟨h.nodup, by simp, ?_⟩
    intro process hbefore process' hnew heq
    rw [List.mem_singleton.mp hnew, ← hprocess] at heq
    exact (h.past process hbefore).2 crash.1 hslot heq.symm
  · intro other
    rcases eq_or_ne other id with rfl | hne
    · rw [Monitor.crashes, List.map_cons, List.nodup_cons] at hslots
      simpa [State.setMonitor, Monitor.crashes] using hslots.2
    · simp [State.setMonitor, hne, hothers other hne, Monitor.crashes]
  · intro other crash' hcrash
    rcases eq_or_ne other id with rfl | hne
    · simp only [State.setMonitor, Function.update_self, Monitor.crashes] at hcrash
      obtain ⟨hlt, hsame⟩ := hseen crash' (List.mem_cons_of_mem _ hcrash)
      refine ⟨hlt, ?_⟩
      simp only [State.setMonitor, hworkers, if_neg (hkept crash' hcrash)]
      exact hsame
    · simp [State.setMonitor, hne, hothers other hne, Monitor.crashes] at hcrash

/-- Only the end of `_stop` and the middle of `start` change the slots, and no monitor is there. -/
theorem Respawns.call (h : Respawns state) (hsingle : Single state) {caller : Caller} {call : Call}
    (hcall : state.call caller = some call) (hstep : stepCall config state caller false call = some next) :
    Respawns next := by
  have hok := hsingle.calls caller call hcall
  cases call with
  | resetting again =>
    simp only [stepCall] at hstep
    split at hstep <;> cases hstep
    · refine h.rebuild hok.1 (Nat.le_refl _) rfl ?_ ?_ <;> simp [State.reset, State.goto]
    · refine h.rebuild hok.1 (Nat.le_refl _) rfl ?_ ?_ <;> simp [State.reset, State.leave]
  | building =>
    cases hstep
    have hbuilt : Respawns (state.build config) := by
      refine h.rebuild hok.1 ?_ rfl ?_ ?_
      · exact Nat.le_add_right _ _
      · intro slot hslot
        have hlt : slot < config.width := hslot
        constructor <;> simp only [State.build] <;> omega
      · intro slot slot' _ _ heq
        simp only [State.build] at heq
        omega
    simp only [State.afterBuild]
    split
    · exact hbuilt.congr rfl (fun _ ↦ rfl) rfl rfl fun _ ↦ .inl rfl
    · split
      · exact hbuilt.congr rfl (fun _ ↦ rfl) rfl rfl fun _ ↦ .inl rfl
      · exact hbuilt.congr rfl (fun _ ↦ rfl) rfl rfl fun _ ↦ .inl rfl
  | spawning =>
    cases hstep
    have hcrashes : ∀ id, (Function.update state.monitors state.nextMonitor .test id).crashes =
        (state.monitors id).crashes ∨ (Function.update state.monitors state.nextMonitor .test id).crashes = [] := by
      intro id
      rcases eq_or_ne id state.nextMonitor with rfl | hne
      · right
        simp [Monitor.crashes]
      · left
        simp [hne]
    simp only [State.afterMonitor]
    split
    · exact h.congr rfl (fun _ ↦ rfl) rfl rfl hcrashes
    · exact h.congr rfl (fun _ ↦ rfl) rfl rfl hcrashes
  | retiring again | retiringScavenger again =>
    simp only [stepCall] at hstep
    split at hstep
    · split at hstep <;> cases hstep <;> exact h.congr rfl (fun _ ↦ rfl) rfl rfl fun _ ↦ .inl rfl
    · cases hstep
      exact h.congr rfl (fun _ ↦ rfl) rfl rfl fun _ ↦ .inl rfl
  | joining again target | joiningScavenger again target =>
    simp only [stepCall] at hstep
    split at hstep <;> cases hstep
    exact h.congr rfl (fun _ ↦ rfl) rfl rfl fun _ ↦ .inl rfl
  | stopping again | joined again | joinedScavenger again | clearing | clearingScavenger | spawningScavenger =>
    cases hstep
    exact h.congr rfl (fun _ ↦ rfl) rfl rfl fun _ ↦ .inl rfl

/-- A monitor that moves on with what it has seen, or forgets it. -/
theorem Respawns.setMonitor (h : Respawns state) {id : ℕ} {monitor : Monitor}
    (hcrashes : monitor.crashes = (state.monitors id).crashes ∨ monitor.crashes = []) :
    Respawns (state.setMonitor id monitor) := by
  refine h.congr rfl (fun _ ↦ rfl) rfl rfl ?_
  intro other
  rcases eq_or_ne other id with rfl | hne
  · simpa [State.setMonitor] using hcrashes
  · left
    simp [State.setMonitor, hne]

/-- A scan reports distinct slots with their processes. -/
theorem Respawns.scan (h : Respawns state) {id : ℕ} {seen : List ℕ} (hseen : state.scannable seen = true) :
    Respawns (state.setMonitor id (.deciding (seen.map fun slot ↦ (slot, (state.workers slot).process)))) := by
  simp only [State.scannable, Bool.and_eq_true, decide_eq_true_eq, List.all_eq_true] at hseen
  refine ⟨h.bound, h.distinct, h.past, h.nodup, ?_, ?_⟩
  · intro other
    rcases eq_or_ne other id with rfl | hne
    · simpa [State.setMonitor, Monitor.crashes, Function.comp_def] using hseen.1
    · simpa [State.setMonitor, hne] using h.slots other
  · intro other crash hcrash
    rcases eq_or_ne other id with rfl | hne
    · simp only [State.setMonitor, Function.update_self, Monitor.crashes, List.mem_map] at hcrash
      obtain ⟨slot, hslot, rfl⟩ := hcrash
      exact ⟨(hseen.2 slot hslot).1, rfl⟩
    · simp only [State.setMonitor, Function.update_of_ne hne] at hcrash
      exact h.seen other crash hcrash

/-- A respawn is of a process that is still in its slot, and it is the last of that process. -/
theorem Respawns.monitor (h : Respawns state) (hsingle : Single state) {id : ℕ} {move : MonitorMove}
    (hmove : move ≠ .decide true) (hstep : stepMonitor config state id move = some next) : Respawns next := by
  cases stepMonitor_cases hstep with
  | restart _ _ => exact absurd rfl hmove
  | scan _ hseen => exact h.scan hseen
  | decide hpc => exact h.setMonitor (.inl (by rw [hpc]; rfl))
  | respawn hpc => exact h.respawn hsingle hpc
  | test _ | check _ =>
    apply h.setMonitor
    right
    split <;> rfl
  | wake _ | quiet _ _ | respawned _ | resume _ _ => exact h.setMonitor (.inr rfl)

/-- The generator leaves workers and monitors to the calls it makes. -/
theorem stepReader_workers {move : ReaderMove} (h : stepReader state move = some next) :
    next.width = state.width ∧ next.workers = state.workers ∧ next.nextProcess = state.nextProcess ∧
      next.respawned = state.respawned ∧ next.monitors = state.monitors := by
  cases stepReader_cases h <;> exact ⟨rfl, rfl, rfl, rfl, rfl⟩

/-- No step of an exclusive run respawns a process a second time. -/
theorem Respawns.step (h : Respawns state) (hsingle : Single state) {action : Action}
    (hexclusive : exclusive state action = true) (hstep : Lifecycle.step config state action = some next) :
    Respawns next := by
  cases action with
  | call caller timeout =>
    simp only [Lifecycle.step] at hstep
    split at hstep
    · rename_i call hcall
      simp only [exclusive, Bool.not_eq_eq_eq_not, Bool.not_true] at hexclusive
      subst hexclusive
      exact h.call hsingle hcall hstep
    · cases hstep
  | monitor id move =>
    apply h.monitor hsingle _ hstep
    rintro rfl
    cases hexclusive
  | scavenger thread move =>
    obtain ⟨-, scavenger, rfl⟩ := stepScavenger_cases hstep
    exact h.congr rfl (fun _ ↦ rfl) rfl rfl fun _ ↦ .inl rfl
  | reader move =>
    obtain ⟨hwidth, hworkers, hnext, hrespawned, hmonitors⟩ := stepReader_workers hstep
    apply h.congr hwidth _ hnext hrespawned
    · intro id
      rw [hmonitors]
      exact .inl rfl
    · intro slot
      rw [hworkers]
  | crash slot =>
    simp only [Lifecycle.step] at hstep
    split at hstep <;> cases hstep
    refine h.congr rfl ?_ rfl rfl fun _ ↦ .inl rfl
    intro other
    rcases eq_or_ne other slot with rfl | hne
    · simp
    · simp [hne]
  | begin user op =>
    simp only [Lifecycle.step] at hstep
    split at hstep <;> cases hstep
    exact h.congr rfl (fun _ ↦ rfl) rfl rfl fun _ ↦ .inl rfl
  | connectionError =>
    cases hstep
    exact h.congr rfl (fun _ ↦ rfl) rfl rfl fun _ ↦ .inl rfl
  | finish =>
    simp only [Lifecycle.step] at hstep
    split at hstep <;> cases hstep
    exact h.congr rfl (fun _ ↦ rfl) rfl rfl fun _ ↦ .inl rfl

/-! ## One monitor -/

/-- At most one monitor and one scavenger thread can go on acting, and no crash has been
answered by two respawns. -/
def OneMonitor (state : State) : Prop :=
  (∀ id id', state.monitors id ≠ .exited → state.monitors id' ≠ .exited → id = id') ∧
  (∀ id id', state.scavengers id ≠ .exited → state.scavengers id' ≠ .exited → id = id') ∧
  state.respawned.Nodup

/-- With exclusive lifecycle calls there is one monitor, one scavenger, and one respawn for
each crash. -/
theorem one_monitor_of_exclusive (h : ((machine config).restrict exclusive).Reachable state) :
    OneMonitor state := by
  have hinv := h.invariant (fun state ↦ Single state ∧ Respawns state) ⟨single_start, respawns_start⟩ (by
    rintro state action next ⟨hsingle, hrespawns⟩ hstep
    obtain ⟨hexclusive, hnext⟩ := Machine.restrict_step hstep
    exact ⟨hsingle.step hexclusive hnext, hrespawns.step hsingle hexclusive hnext⟩)
  obtain ⟨hsingle, hrespawns⟩ := hinv
  refine ⟨?_, ?_, hrespawns.nodup⟩
  · intro id id' hlive hlive'
    have hid := hsingle.monitor id hlive
    rw [hsingle.monitor id' hlive', Option.some_inj] at hid
    exact hid.symm
  · intro id id' hlive hlive'
    have hid := hsingle.scavenger id hlive
    rw [hsingle.scavenger id' hlive', Option.some_inj] at hid
    exact hid.symm

def startAndCrash : List Action :=
  [.begin 0 .start, .call (.user 0) false, .call (.user 0) false, .call (.user 0) false,
    .monitor 0 .test, .monitor 0 .wake, .monitor 0 .check, .crash 0, .monitor 0 (.scan [0])]

/-- The monitor respawns the worker; a user restarts the pipeline, which waits for the monitor. -/
def respawnAndRestart : List Action :=
  startAndCrash ++ [Action.monitor 0 (.decide false), .monitor 0 .respawn, .begin 0 .restart, .call (.user 0) false,
    .call (.user 0) false, .monitor 0 .respawn, .monitor 0 .test] ++ List.replicate 7 (Action.call (.user 0) false)

/-- The monitor respawns a worker, and a restart by the user waits for it and starts another. -/
theorem one_monitor_respawnAndRestart : ∃ state,
    ((machine oneWorker).restrict exclusive).runFrom State.start respawnAndRestart = some state ∧
      state.monitor = some 1 ∧ state.respawned = [0] ∧ OneMonitor state := by
  have hends : ∃ state, ((machine oneWorker).restrict exclusive).runFrom State.start respawnAndRestart =
      some state ∧ state.monitor = some 1 ∧ state.respawned = [0] := ⟨_, rfl, rfl, rfl⟩
  obtain ⟨state, hrun, hmonitor, hrespawned⟩ := hends
  exact ⟨state, hrun, hmonitor, hrespawned, one_monitor_of_exclusive ⟨respawnAndRestart, hrun⟩⟩

/-- The monitor itself restarts the pipeline: its join of itself fails, the new `start` clears
the event, and the old and the new monitor both answer the next crash. -/
def monitorRestart : List Action :=
  startAndCrash ++ [Action.monitor 0 (.decide true)] ++ List.replicate 9 (Action.call (.monitor 0) false) ++
    [Action.monitor 0 .resume, .monitor 0 .test, .monitor 0 .wake, .monitor 0 .check, .monitor 1 .test,
      .monitor 1 .wake, .monitor 1 .check, .crash 0, .monitor 0 (.scan [0]), .monitor 1 (.scan [0]),
      .monitor 0 (.decide false), .monitor 1 (.decide false), .monitor 0 .respawn, .monitor 1 .respawn]

/-- A monitor that restarts the pipeline lives on beside the one it has started, and both respawn the same crash. -/
theorem not_one_monitor : ¬ ∀ (config : Config) (state : State), (machine config).Reachable state →
    OneMonitor state := by
  intro hone
  have hends : ∃ state, (machine oneWorker).runFrom State.start monitorRestart = some state ∧
      state.respawned = [1, 1] := ⟨_, rfl, rfl⟩
  obtain ⟨state, hrun, hrespawned⟩ := hends
  have hnodup := (hone oneWorker state ⟨monitorRestart, hrun⟩).2.2
  rw [hrespawned] at hnodup
  exact absurd hnodup (by decide)

end GpuPipe.Lifecycle
