import Mathlib.Algebra.GroupWithZero.Nat
import Mathlib.Order.Fin.Basic
import GpuPipe.Library.Dict
import GpuPipe.Scavenge.Process

/-!
# Scavenging many slots

The scavenger thread over every slot of a pipeline. A pass lists the compute processes of all GPUs, counts for
each GPU how long it has been free of foreign ones, and then sees to the slots one after another. Workers move in
between, die and are started again. Each slot whose worker lives on behaves as the single slot does.
-/

namespace GpuPipe.Scavenge

structure App where
  gpu : ℕ
  pid : ℕ
  mib : ℕ

/-- What a pass has seen: the compute processes, and `pid_by_wid`. -/
structure Seen where
  apps : List App
  pidByWid : Dict ℕ ℕ

/-- The fields of a slot that the passes and its worker change. -/
structure Slot where
  park : Park
  hold : Bool
  parked : Bool
  frozen : Bool
  frozenMib : ℕ
  driver : Driver
  worker : WorkerPc
  deriving DecidableEq

/-- The slot as the single-slot functions take it. -/
def Slot.at (slot : Slot) (streak : ℕ) (used : Option ℕ) (pc : Pc) : State where
  park := slot.park
  hold := slot.hold
  parked := slot.parked
  frozen := slot.frozen
  frozenMib := slot.frozenMib
  driver := slot.driver
  worker := slot.worker
  scavenger := pc
  used := used
  streak := streak

def State.slot (state : State) : Slot where
  park := state.park
  hold := state.hold
  parked := state.parked
  frozen := state.frozen
  frozenMib := state.frozenMib
  driver := state.driver
  worker := state.worker

structure Fleet (n : ℕ) where
  workerId : Fin n → ℕ
  physical : Fin n → ℕ
  supportsPark : Fin n → Bool
  ckptBin : Bool
  needFreePolls : ℕ
  residual : ℕ
  /-- `os.getpid()` -/
  parent : ℕ

/-- Where the thread is in its loop: waiting for the next pass, about to turn to a slot, or in the branch of one. -/
inductive Thread (n : ℕ)
  | waiting
  | turning (seen : Seen) (place : ℕ)
  | visiting (seen : Seen) (slot : Fin n) (used : Option ℕ) (pc : Pc)

structure FleetState (n : ℕ) where
  slot : Fin n → Slot
  /-- `free_streak` -/
  streak : ℕ → ℕ
  thread : Thread n
  /-- What the passes so far have seen, the last one first. -/
  history : List Seen

inductive FleetAction (n : ℕ)
  | worker (slot : Fin n) (move : WorkerMove)
  /-- A worker is started in place of a dead one. -/
  | respawn (slot : Fin n)
  /-- A pass begins; `nvidia-smi` may be unavailable. -/
  | poll (seen : Option Seen)
  | turn
  | scavenge (answer : Answer)

namespace Fleet

variable {n : ℕ} (fleet : Fleet n)

def config (slot : Fin n) : Config where
  supportsPark := fleet.supportsPark slot
  ckptBin := fleet.ckptBin
  needFreePolls := fleet.needFreePolls
  residual := fleet.residual

def ourPids (seen : Seen) : List ℕ := fleet.parent :: seen.pidByWid.entries.map Prod.snd

/-- A compute process on the GPU is none of ours. -/
def isForeign (seen : Seen) (gpu : ℕ) : Bool :=
  seen.apps.any fun app ↦ app.gpu == gpu && !(fleet.ourPids seen).contains app.pid

def usedByPid (seen : Seen) (pid : ℕ) : Option ℕ :=
  let mibs := (seen.apps.filter fun app ↦ app.pid == pid).map App.mib
  if mibs.isEmpty then none else some mibs.sum

/-- `free_streak` after a pass has seen the processes. -/
def count (seen : Seen) (streak : ℕ → ℕ) (gpu : ℕ) : ℕ :=
  if ∃ slot, fleet.physical slot = gpu then if fleet.isForeign seen gpu then 0 else streak gpu + 1 else streak gpu

/-- The thread in a branch, or at the next slot once the branch is over. -/
def within (seen : Seen) (slot : Fin n) (used : Option ℕ) (pc : Pc) : Thread n :=
  if pc = .idle then .turning seen (slot + 1) else .visiting seen slot used pc

/-- The loop turns to a slot. A slot whose worker is dead is left alone. -/
def visit (state : FleetState n) (seen : Seen) (slot : Fin n) : FleetState n :=
  match seen.pidByWid.get (fleet.workerId slot) with
  | none =>
    { state with
      slot := Function.update state.slot slot { state.slot slot with frozen := false }
      thread := .turning seen (slot + 1) }
  | some pid =>
    let gpu := fleet.physical slot
    let used := usedByPid seen pid
    let pc := branch (fleet.config slot) ((state.slot slot).at (state.streak gpu) used .idle)
      (fleet.isForeign seen gpu) used (state.streak gpu)
    { state with thread := within seen slot used pc }

def start (busy : Fin n → Bool) : FleetState n where
  slot slot := (State.start (busy slot)).slot
  streak _ := 0
  thread := .waiting
  history := []

def step (state : FleetState n) : FleetAction n → Option (FleetState n)
  | .worker slot move =>
    (moveWorker (fleet.config slot) ((state.slot slot).at 0 none .idle) move).map fun moved ↦
      { state with slot := Function.update state.slot slot moved.slot }
  | .respawn slot =>
    some { state with
      slot := Function.update state.slot slot { state.slot slot with worker := .held, driver := .running } }
  | .poll none =>
    match state.thread with
    | .waiting => some state
    | _ => none
  | .poll (some seen) =>
    match state.thread with
    | .waiting =>
      some { state with
        streak := fleet.count seen state.streak, thread := .turning seen 0, history := seen :: state.history }
    | _ => none
  | .turn =>
    match state.thread with
    | .turning seen place =>
      if hplace : place < n then some (fleet.visit state seen ⟨place, hplace⟩)
      else some { state with thread := .waiting }
    | _ => none
  | .scavenge answer =>
    match state.thread with
    | .visiting seen slot used pc =>
      let gpu := fleet.physical slot
      let after := scavenge (fleet.config slot) ((state.slot slot).at (state.streak gpu) used pc) answer
      some { state with
        slot := Function.update state.slot slot after.slot
        thread := within seen slot after.used after.scavenger }
    | _ => none

def machine (busy : Fin n → Bool) : Machine (FleetState n) (FleetAction n) where
  start := start busy
  step := fleet.step

end Fleet

/-! ## One slot of many -/

section Slots

variable {n : ℕ} {fleet : Fleet n} {busy : Fin n → Bool} {slot : Fin n} {state next : FleetState n}

def Thread.pc (slot : Fin n) : Thread n → Pc
  | .visiting _ other _ pc => if other = slot then pc else .idle
  | _ => .idle

def Thread.used (slot : Fin n) : Thread n → Option (Option ℕ)
  | .visiting _ other used _ => if other = slot then some used else none
  | _ => none

/-- What a pass has seen that has not come to the slot yet. -/
def Thread.pending (slot : Fin n) : Thread n → Option Seen
  | .waiting => none
  | .turning seen place => if place ≤ slot then some seen else none
  | .visiting seen other _ _ => if other < slot then some seen else none

@[simp] theorem slot_at (slot : Slot) (streak : ℕ) (used : Option ℕ) (pc : Pc) :
    (slot.at streak used pc).slot = slot := rfl

/-- The single-slot functions see all of the slot's state. -/
theorem at_slot (state : State) : state.slot.at state.streak state.used state.scavenger = state := rfl

/-- The worker sees its words only. -/
theorem moveWorker_at (config : Config) (state : State) (streak : ℕ) (used : Option ℕ) (pc : Pc) (move : WorkerMove) :
    moveWorker config state move = (moveWorker config (state.slot.at streak used pc) move).map fun moved ↦
      moved.slot.at state.streak state.used state.scavenger := by
  cases move <;> simp only [moveWorker, Slot.at, State.slot] <;> split <;> simp [*]

theorem scavenge_streak (config : Config) (state : State) (answer : Answer) :
    (scavenge config state answer).streak = state.streak := by
  unfold scavenge
  repeat' split
  all_goals rfl

/-- The single slot stands where the fleet's does. Its streak is counted when the thread turns to it. -/
structure Mirrors (fleet : Fleet n) (slot : Fin n) (state : FleetState n) (model : State) : Prop where
  words : model.slot = state.slot slot
  pc : model.scavenger = state.thread.pc slot
  used : ∀ used, state.thread.used slot = some used → model.used = used
  streak : state.streak (fleet.physical slot) =
    (state.thread.pending slot).elim model.streak fun seen ↦
      if fleet.isForeign seen (fleet.physical slot) then 0 else model.streak + 1
  alive : ∀ seen, state.thread.pending slot = some seen → (seen.pidByWid.get (fleet.workerId slot)).isSome = true
  busy : ∀ seen other used, state.thread ≠ .visiting seen other used .idle

/-- The slot's worker is not started again, and every pass finds it alive. -/
def livesOn (fleet : Fleet n) (slot : Fin n) (_ : FleetState n) : FleetAction n → Bool
  | .respawn other => other ≠ slot
  | .poll (some seen) => (seen.pidByWid.get (fleet.workerId slot)).isSome
  | _ => true

theorem mirrors_start (fleet : Fleet n) (busy : Fin n → Bool) (slot : Fin n) :
    Mirrors fleet slot (Fleet.start busy) (.start (busy slot)) where
  words := rfl
  pc := rfl
  used _ hused := by cases hused
  streak := rfl
  alive _ hpending := by cases hpending
  busy _ _ _ hthread := by cases hthread

/-- Another slot changes. -/
theorem Mirrors.other {model : State} (h : Mirrors fleet slot state model) {other : Fin n} (hne : other ≠ slot)
    (changed : Slot) : Mirrors fleet slot { state with slot := Function.update state.slot other changed } model where
  words := h.words.trans (Function.update_of_ne hne.symm _ _).symm
  pc := h.pc
  used := h.used
  streak := h.streak
  alive := h.alive
  busy := h.busy

/-- The thread has left the slot, or has not come to it yet. -/
theorem Mirrors.elsewhere {model : State} (h : Mirrors fleet slot state model) {thread : Thread n}
    (hpc : thread.pc slot = state.thread.pc slot) (hused : thread.used slot = none)
    (hpending : thread.pending slot = state.thread.pending slot)
    (hbusy : ∀ seen other used, thread ≠ .visiting seen other used .idle) :
    Mirrors fleet slot { state with thread } model where
  words := h.words
  pc := h.pc.trans hpc.symm
  used used heq := by
    rw [show ({ state with thread } : FleetState n).thread.used slot = none from hused] at heq
    cases heq
  streak := by
    show state.streak _ = (thread.pending slot).elim _ _
    rw [hpending]
    exact h.streak
  alive seen heq := h.alive seen (hpending ▸ heq)
  busy := hbusy

theorem within_pc (seen : Seen) (slot : Fin n) (used : Option ℕ) (pc : Pc) :
    (Fleet.within seen slot used pc).pc slot = pc := by
  unfold Fleet.within
  split
  · exact Eq.symm ‹_›
  · exact if_pos rfl

theorem within_pc_other (seen : Seen) {other : Fin n} (hne : other ≠ slot) (used : Option ℕ) (pc : Pc) :
    (Fleet.within seen other used pc).pc slot = .idle ∧ (Fleet.within seen other used pc).used slot = none := by
  unfold Fleet.within
  split
  · exact ⟨rfl, rfl⟩
  · exact ⟨if_neg hne, if_neg hne⟩

theorem within_pending (seen : Seen) (other : Fin n) (used : Option ℕ) (pc : Pc) :
    (Fleet.within seen other used pc).pending slot = if other < slot then some seen else none := by
  unfold Fleet.within
  split
  · rfl
  · rfl

theorem within_used {seen : Seen} {used found : Option ℕ} {pc : Pc}
    (h : (Fleet.within seen slot used pc).used slot = some found) : used = found := by
  unfold Fleet.within at h
  split at h
  · cases h
  · exact Option.some.inj ((if_pos rfl).symm.trans h)

theorem within_busy (seen : Seen) (other : Fin n) (used : Option ℕ) (pc : Pc) (seen' : Seen) (other' : Fin n)
    (used' : Option ℕ) : Fleet.within seen other used pc ≠ .visiting seen' other' used' .idle := by
  unfold Fleet.within
  split
  · exact nofun
  · intro heq
    cases heq
    exact absurd rfl ‹_›

/-- The thread is in a branch of the slot itself, where the single slot is. -/
theorem mirrors_within {model : State} {slots : Fin n → Slot} (hwords : model.slot = slots slot)
    (hstreak : state.streak (fleet.physical slot) = model.streak) (seen : Seen) :
    Mirrors fleet slot
      { state with slot := slots, thread := Fleet.within seen slot model.used model.scavenger } model where
  words := hwords
  pc := (within_pc seen slot model.used model.scavenger).symm
  used _ hused := within_used hused
  streak := by
    show _ = ((Fleet.within seen slot model.used model.scavenger).pending slot).elim _ _
    rw [within_pending, if_neg (lt_irrefl slot)]
    exact hstreak
  alive seen' hpending := by
    rw [within_pending, if_neg (lt_irrefl slot)] at hpending
    cases hpending
  busy := within_busy seen slot model.used model.scavenger

theorem visit_alive {seen : Seen} {pid : ℕ} (hpid : seen.pidByWid.get (fleet.workerId slot) = some pid) :
    fleet.visit state seen slot =
      { state with
        thread := Fleet.within seen slot (Fleet.usedByPid seen pid)
          (branch (fleet.config slot)
            ((state.slot slot).at (state.streak (fleet.physical slot)) (Fleet.usedByPid seen pid) .idle)
            (fleet.isForeign seen (fleet.physical slot)) (Fleet.usedByPid seen pid)
            (state.streak (fleet.physical slot))) } := by
  rw [Fleet.visit, hpid]

/-- The thread turns to the slot: the single slot's pass begins. -/
theorem Mirrors.visit {model : State} (h : Mirrors fleet slot state model) {seen : Seen}
    (hthread : state.thread = .turning seen slot) :
    ∃ sight, Mirrors fleet slot (fleet.visit state seen slot) (poll (fleet.config slot) model sight) := by
  have hpending : state.thread.pending slot = some seen := by
    rw [hthread]
    exact if_pos le_rfl
  obtain ⟨pid, hpid⟩ := Option.isSome_iff_exists.mp (h.alive seen hpending)
  let sight : Sight := ⟨fleet.isForeign seen (fleet.physical slot), Fleet.usedByPid seen pid⟩
  have hwords : (poll (fleet.config slot) model sight).slot = state.slot slot := h.words
  have hstreak : state.streak (fleet.physical slot) = (poll (fleet.config slot) model sight).streak := by
    have hcounted := h.streak
    rw [hpending] at hcounted
    exact hcounted
  refine ⟨sight, ?_⟩
  rw [visit_alive hpid, hstreak, ← h.words]
  exact mirrors_within hwords hstreak seen

/-- The thread turns to another slot. -/
theorem Mirrors.visit_other {model : State} (h : Mirrors fleet slot state model) {seen : Seen} {other : Fin n}
    (hne : other ≠ slot) (hthread : state.thread = .turning seen other) :
    Mirrors fleet slot (fleet.visit state seen other) model := by
  have hpc : state.thread.pc slot = .idle := by rw [hthread]; rfl
  have hpending (used : Option ℕ) (pc : Pc) :
      (Fleet.within seen other used pc).pending slot = state.thread.pending slot := by
    rw [within_pending, hthread, Thread.pending]
    exact if_congr hne.le_iff_lt.symm rfl rfl
  unfold Fleet.visit
  split
  · have hturned : Mirrors fleet slot { state with thread := .turning seen (other + 1) } model :=
      h.elsewhere hpc.symm rfl (hpending none .idle) nofun
    exact hturned.other hne _
  · obtain ⟨hidle, hused⟩ := within_pc_other seen hne (Fleet.usedByPid seen ‹ℕ›) _
    exact h.elsewhere (hidle.trans hpc.symm) hused (hpending _ _) (within_busy seen other _ _)

/-- Every step of the fleet is a step of the slot, or none. -/
theorem Mirrors.step {model : State} (h : Mirrors fleet slot state model) {action : FleetAction n}
    (halive : livesOn fleet slot state action = true) (hstep : fleet.step state action = some next) :
    ∃ actions model', (machine (fleet.config slot) (busy slot)).runFrom model actions = some model' ∧
      Mirrors fleet slot next model' := by
  have stays (hnext : Mirrors fleet slot next model) : ∃ actions model',
      (machine (fleet.config slot) (busy slot)).runFrom model actions = some model' ∧
        Mirrors fleet slot next model' := ⟨[], model, rfl, hnext⟩
  cases action with
  | worker other move =>
    obtain ⟨moved, hmoved, rfl⟩ := Option.map_eq_some_iff.mp hstep
    by_cases hsame : other = slot
    · subst hsame
      refine ⟨[.worker move], moved.slot.at model.streak model.used model.scavenger, ?_, ?_⟩
      · apply Machine.runFrom_step _ rfl
        show moveWorker _ model move = _
        rw [moveWorker_at _ _ 0 none .idle, h.words, hmoved]
        rfl
      · have hwords : moved.slot = Function.update state.slot other moved.slot other := by
          rw [Function.update_self]
        exact ⟨hwords, h.pc, h.used, h.streak, h.alive, h.busy⟩
    · exact stays (h.other hsame moved.slot)
  | respawn other =>
    cases hstep
    exact stays (h.other (of_decide_eq_true halive) _)
  | poll seen =>
    cases hthread : state.thread with
    | waiting =>
      have hidle : state.thread.pc slot = .idle := by rw [hthread]; rfl
      cases seen with
      | none =>
        simp only [Fleet.step, hthread, Option.some_inj] at hstep
        cases hstep
        exact stays h
      | some seen =>
        simp only [Fleet.step, hthread, Option.some_inj] at hstep
        cases hstep
        apply stays
        refine ⟨h.words, h.pc.trans hidle, nofun, ?_, ?_, nofun⟩
        · have hstreak := h.streak
          rw [hthread] at hstreak
          show fleet.count seen state.streak (fleet.physical slot) =
            (if 0 ≤ (slot : ℕ) then some seen else none).elim _ _
          rw [Fleet.count, if_pos ⟨slot, rfl⟩, if_pos (Nat.zero_le _), hstreak]
          rfl
        · intro found hpending
          cases hpending
          exact halive
    | turning | visiting => cases seen <;> simp [Fleet.step, hthread] at hstep
  | turn =>
    cases hthread : state.thread with
    | turning seen place =>
      simp only [Fleet.step, hthread] at hstep
      split at hstep
      · cases hstep
        by_cases hsame : (⟨place, ‹_›⟩ : Fin n) = slot
        · subst hsame
          obtain ⟨sight, hmirrors⟩ := h.visit hthread
          refine ⟨[.poll sight], _, ?_, hmirrors⟩
          apply Machine.runFrom_step _ rfl
          have hidle : model.scavenger = .idle := by rw [h.pc, hthread]; rfl
          exact if_pos hidle
        · exact stays (h.visit_other hsame hthread)
      · cases hstep
        apply stays
        have hpast : ¬ place ≤ (slot : ℕ) := fun hle ↦ ‹¬ place < n› (lt_of_le_of_lt hle slot.isLt)
        have hidle : state.thread.pc slot = .idle := by rw [hthread]; rfl
        have hnone : state.thread.pending slot = none := by
          rw [hthread]
          exact if_neg hpast
        exact h.elsewhere hidle.symm rfl hnone.symm nofun
    | waiting | visiting => simp [Fleet.step, hthread] at hstep
  | scavenge answer =>
    cases hthread : state.thread with
    | visiting seen other used pc =>
      simp only [Fleet.step, hthread, Option.some_inj] at hstep
      cases hstep
      by_cases hsame : other = slot
      · subst hsame
        have hpc : model.scavenger = pc := h.pc.trans (by rw [hthread]; exact if_pos rfl)
        have hused : model.used = used := h.used used (by rw [hthread]; exact if_pos rfl)
        have hstreak : state.streak (fleet.physical other) = model.streak := by
          have hcounted := h.streak
          rw [hthread, Thread.pending, if_neg (lt_irrefl other)] at hcounted
          exact hcounted
        have hbusy : model.scavenger ≠ .idle := by
          rintro hidle
          rw [hpc] at hidle
          exact h.busy seen other used (hidle ▸ hthread)
        refine ⟨[.scavenge answer], scavenge (fleet.config other) model answer, ?_, ?_⟩
        · exact Machine.runFrom_step (if_pos hbusy) rfl
        · rw [← h.words, hstreak, ← hused, ← hpc, at_slot]
          apply mirrors_within
          · rw [Function.update_self]
          · rw [hstreak, scavenge_streak]
      · obtain ⟨hidle, hgone⟩ := within_pc_other seen hsame
          (scavenge (fleet.config other) ((state.slot other).at (state.streak (fleet.physical other)) used pc)
            answer).used
          (scavenge (fleet.config other) ((state.slot other).at (state.streak (fleet.physical other)) used pc)
            answer).scavenger
        apply stays
        refine (h.elsewhere ?_ hgone ?_ (within_busy seen other _ _)).other hsame _
        · rw [hidle, hthread]
          exact (if_neg hsame).symm
        · rw [within_pending, hthread]
          rfl
    | waiting | turning => simp [Fleet.step, hthread] at hstep

/-- Whatever the other slots and their workers do, a slot whose worker lives on goes through the states of a
single slot only. -/
theorem slot_refines (h : ((fleet.machine busy).restrict (livesOn fleet slot)).Reachable state) :
    ∃ model, (machine (fleet.config slot) (busy slot)).Reachable model ∧ Mirrors fleet slot state model := by
  refine h.simulation (Mirrors fleet slot) (mirrors_start fleet busy slot) ?_
  intro state action next model hmirrors hstep
  obtain ⟨halive, hstep⟩ := Machine.restrict_step hstep
  exact hmirrors.step halive hstep

/-! Two workers, each on its GPU; process 99 comes to the first. -/

def twoGpus : Fleet 2 where
  workerId slot := slot
  physical slot := slot
  supportsPark _ := true
  ckptBin := true
  needFreePolls := 2
  residual := 64
  parent := 1

def pids : Dict ℕ ℕ := (Dict.empty.set 0 10).set 1 11

def claimed : Seen := ⟨[⟨0, 10, 800⟩, ⟨0, 99, 500⟩, ⟨1, 11, 800⟩], pids⟩

/-- The first slot is asked to park; the second is let alone. -/
def claim : List (FleetAction 2) :=
  [.worker 0 .release, .worker 1 .release, .poll (some claimed), .turn, .scavenge ⟨true, none⟩,
    .scavenge ⟨true, none⟩, .worker 0 .look]

/-- A foreign process on the first GPU: its slot is asked to park, as in the single-slot machine. -/
theorem slot_refines_claim : ∃ state model,
    ((twoGpus.machine fun _ ↦ false).restrict (livesOn twoGpus 0)).runFrom (Fleet.start fun _ ↦ false) claim =
        some state ∧
      (state.slot 0).park = .requested ∧ (machine (twoGpus.config 0) false).Reachable model ∧
      Mirrors twoGpus 0 state model := by
  have hrun : (((twoGpus.machine fun _ ↦ false).restrict (livesOn twoGpus 0)).runFrom
      (Fleet.start fun _ ↦ false) claim).any (fun state ↦ (state.slot 0).park = .requested) = true := by
    decide +kernel
  obtain ⟨state, hclaim, hpark⟩ := (Option.any_eq_true _ _).mp hrun
  obtain ⟨model, hmodel, hmirrors⟩ := slot_refines ⟨_, hclaim⟩
  exact ⟨state, model, hclaim, of_decide_eq_true hpark, hmodel, hmirrors⟩

end Slots

end GpuPipe.Scavenge
