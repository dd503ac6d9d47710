import GpuPipe.Scavenge.Fleet

/-!
# Why the scavenger touches a worker

A pass takes the GPU from a worker for a foreign process it has seen there, and gives it back after enough passes
that have seen none. On a GPU where only our own processes compute, no worker is disturbed.
-/

namespace GpuPipe.Scavenge

section Slots

variable {n : ℕ} {fleet : Fleet n} {busy : Fin n → Bool} {slot : Fin n} {state next : FleetState n}

/-! ## When a slot is touched -/

def Pc.takes : Pc → Bool
  | .holding | .requesting | .awaiting | .testing | .timing | .withdrawing | .measuring | .remeasuring | .judging
  | .securing | .weighing | .locking | .checkpointing | .unlocking | .keeping => true
  | _ => false

def Pc.gives : Pc → Bool
  | .resuming | .thawing | .restoring | .reviving | .thawed | .checking | .clearing | .lowering => true
  | _ => false

theorem scavenge_takes {config : Config} {model : State} (answer : Answer) (h : model.scavenger.takes = true) :
    (scavenge config model answer).scavenger ≠ .idle → (scavenge config model answer).scavenger.takes = true := by
  unfold scavenge
  cases hpc : model.scavenger <;> rw [hpc] at h <;> cases h
  all_goals
    dsimp only
    repeat' split
    all_goals simp [Pc.takes]

theorem scavenge_gives {config : Config} {model : State} (answer : Answer) (h : model.scavenger.gives = true) :
    (scavenge config model answer).scavenger ≠ .idle → (scavenge config model answer).scavenger.gives = true := by
  unfold scavenge
  cases hpc : model.scavenger <;> rw [hpc] at h <;> cases h
  all_goals
    dsimp only
    repeat' split
    all_goals simp [Pc.gives]

/-- A GPU that is busy is taken from the worker. -/
theorem branch_takes (config : Config) (model : State) (used : Option ℕ) (streak : ℕ)
    (h : branch config model true used streak ≠ .idle) : (branch config model true used streak).takes = true := by
  unfold branch at h ⊢
  rw [if_pos rfl] at h ⊢
  split
  · rw [if_pos ‹_›] at h
    exact absurd rfl h
  · split <;> rfl

/-- One that is given back has been free for long enough. -/
theorem branch_gives (config : Config) (model : State) (used : Option ℕ) (streak : ℕ)
    (h : branch config model false used streak ≠ .idle) :
    (branch config model false used streak).gives = true ∧ config.needFreePolls ≤ streak := by
  unfold branch at h ⊢
  rw [if_neg Bool.false_ne_true] at h ⊢
  by_cases hlong : config.needFreePolls ≤ streak
  · rw [if_pos hlong] at h ⊢
    refine ⟨?_, hlong⟩
    cases hparked : model.parked <;> cases hfrozen : model.frozen <;> cases hhold : model.hold <;>
      simp_all [Pc.gives]
  · rw [if_neg hlong] at h
    exact absurd rfl h

/-- What the thread goes by in a pass. -/
def Thread.seen : Thread n → Option Seen
  | .waiting => none
  | .turning seen _ | .visiting seen _ _ _ => some seen

/-- Why the thread is in a branch of a slot. -/
def Reason (fleet : Fleet n) (state : FleetState n) (seen : Seen) (slot : Fin n) (pc : Pc) : Prop :=
  (pc.takes = true ∧ fleet.isForeign seen (fleet.physical slot) = true) ∨
    (pc.gives = true ∧ fleet.needFreePolls ≤ state.streak (fleet.physical slot))

structure Timely (fleet : Fleet n) (state : FleetState n) : Prop where
  streak : ∀ slot, state.streak (fleet.physical slot) =
    (state.history.takeWhile fun seen ↦ !fleet.isForeign seen (fleet.physical slot)).length
  seen : ∀ seen, state.thread.seen = some seen → state.history.head? = some seen
  reason : ∀ seen slot used pc, state.thread = .visiting seen slot used pc → Reason fleet state seen slot pc

theorem timely_start (fleet : Fleet n) (busy : Fin n → Bool) : Timely fleet (Fleet.start busy) where
  streak _ := rfl
  seen _ hseen := by cases hseen
  reason _ _ _ _ hthread := by cases hthread

/-- The pass goes on. -/
theorem Timely.goes (h : Timely fleet state) (slots : Fin n → Slot) {thread : Thread n}
    (hseen : ∀ seen, thread.seen = some seen → state.thread.seen = some seen)
    (hreason : ∀ seen slot used pc, thread = .visiting seen slot used pc → Reason fleet state seen slot pc) :
    Timely fleet { state with slot := slots, thread } where
  streak := h.streak
  seen seen hthread := h.seen seen (hseen seen hthread)
  reason := hreason

theorem within_seen (seen : Seen) (slot : Fin n) (used : Option ℕ) (pc : Pc) :
    (Fleet.within seen slot used pc).seen = some seen := by
  unfold Fleet.within
  split <;> rfl

/-- A branch that is not over has a reason. -/
theorem Timely.within (h : Timely fleet state) (slots : Fin n → Slot) {seen : Seen}
    (hseen : state.thread.seen = some seen) {slot : Fin n} {pc : Pc} (used : Option ℕ)
    (hreason : pc ≠ .idle → Reason fleet state seen slot pc) :
    Timely fleet { state with slot := slots, thread := Fleet.within seen slot used pc } := by
  apply h.goes
  · intro found hfound
    rw [within_seen] at hfound
    exact hseen.trans hfound
  · intro found other used' pc' hthread
    unfold Fleet.within at hthread
    split at hthread
    · cases hthread
    · cases hthread
      exact hreason ‹_›

theorem Timely.poll (h : Timely fleet state) (seen : Seen) :
    Timely fleet { state with
      streak := fleet.count seen state.streak, thread := .turning seen 0, history := seen :: state.history } where
  streak slot := by
    show fleet.count seen state.streak (fleet.physical slot) = _
    rw [Fleet.count, if_pos ⟨slot, rfl⟩, List.takeWhile_cons, h.streak]
    cases fleet.isForeign seen (fleet.physical slot) <;> rfl
  seen _ hseen := hseen
  reason _ _ _ _ hthread := by cases hthread

/-- No step makes the streak longer than the passes that have seen the GPU free. -/
theorem Timely.step (h : Timely fleet state) {action : FleetAction n} (hstep : fleet.step state action = some next) :
    Timely fleet next := by
  cases action with
  | worker slot move =>
    obtain ⟨moved, -, rfl⟩ := Option.map_eq_some_iff.mp hstep
    exact h.goes _ (fun _ hseen ↦ hseen) h.reason
  | respawn slot =>
    cases hstep
    exact h.goes _ (fun _ hseen ↦ hseen) h.reason
  | poll seen =>
    cases hthread : state.thread with
    | waiting =>
      cases seen with
      | none =>
        simp only [Fleet.step, hthread, Option.some_inj] at hstep
        cases hstep
        exact h
      | some seen =>
        simp only [Fleet.step, hthread, Option.some_inj] at hstep
        cases hstep
        exact h.poll seen
    | turning | visiting => cases seen <;> simp [Fleet.step, hthread] at hstep
  | turn =>
    cases hthread : state.thread with
    | turning seen place =>
      have hseen : state.thread.seen = some seen := by rw [hthread]; rfl
      simp only [Fleet.step, hthread] at hstep
      split at hstep
      · cases hstep
        unfold Fleet.visit
        split
        · exact h.goes _ (fun _ hfound ↦ hseen.trans hfound) (by rintro _ _ _ _ ⟨⟩)
        · apply h.within _ hseen
          intro hbranch
          cases hforeign : fleet.isForeign seen (fleet.physical ⟨place, ‹_›⟩)
          · rw [hforeign] at hbranch
            exact .inr (branch_gives _ _ _ _ hbranch)
          · rw [hforeign] at hbranch
            exact .inl ⟨branch_takes _ _ _ _ hbranch, hforeign⟩
      · cases hstep
        exact h.goes _ (by rintro _ ⟨⟩) (by rintro _ _ _ _ ⟨⟩)
    | waiting | visiting => simp [Fleet.step, hthread] at hstep
  | scavenge answer =>
    cases hthread : state.thread with
    | visiting seen slot used pc =>
      simp only [Fleet.step, hthread, Option.some_inj] at hstep
      cases hstep
      have hseen : state.thread.seen = some seen := by rw [hthread]; rfl
      apply h.within _ hseen
      intro hbusy
      rcases h.reason seen slot used pc hthread with ⟨htakes, hforeign⟩ | ⟨hgives, hlong⟩
      · exact .inl ⟨scavenge_takes answer htakes hbusy, hforeign⟩
      · exact .inr ⟨scavenge_gives answer hgives hbusy, hlong⟩
    | waiting | turning => simp [Fleet.step, hthread] at hstep

/-- In every reachable state the streak counts passes that have seen the GPU free. -/
theorem timely (h : (fleet.machine busy).Reachable state) : Timely fleet state :=
  h.invariant (Timely fleet) (timely_start fleet busy) fun _ _ _ htimely hstep ↦ htimely.step hstep

/-- A worker is asked to give its GPU up only if the last list of compute processes has a foreign one there, and
gets it back only if the last `need_free_polls` lists have none. -/
theorem touched_for_reason (h : (fleet.machine busy).Reachable state) {seen : Seen} {slot : Fin n}
    {used : Option ℕ} {pc : Pc} (hthread : state.thread = .visiting seen slot used pc) :
    (pc.takes = true ∧ state.history.head? = some seen ∧ fleet.isForeign seen (fleet.physical slot) = true) ∨
      (pc.gives = true ∧ fleet.needFreePolls ≤ state.history.length ∧
        ∀ seen ∈ state.history.take fleet.needFreePolls, fleet.isForeign seen (fleet.physical slot) = false) := by
  have htimely := timely h
  rcases htimely.reason seen slot used pc hthread with ⟨htakes, hforeign⟩ | ⟨hgives, hlong⟩
  · refine .inl ⟨htakes, htimely.seen seen ?_, hforeign⟩
    rw [hthread]
    rfl
  · right
    rw [htimely.streak] at hlong
    refine ⟨hgives, hlong.trans (List.takeWhile_prefix _).length_le, ?_⟩
    intro found hfound
    have hmem : found ∈ state.history.takeWhile fun seen ↦ !fleet.isForeign seen (fleet.physical slot) := by
      rw [List.prefix_iff_eq_take.mp (List.takeWhile_prefix _)]
      exact List.take_subset_take_left _ hlong hfound
    have hfree := List.all_eq_true.mp List.all_takeWhile found hmem
    exact Bool.not_eq_true' _ |>.mp hfree

def unclaimed : Seen := ⟨[⟨0, 10, 800⟩, ⟨1, 11, 800⟩], pids⟩

/-- The second of two passes that see no foreign process comes to the first slot, which was held at the start. -/
def freed : List (FleetAction 2) :=
  [.poll (some unclaimed), .turn, .turn, .turn, .poll (some unclaimed), .turn]

/-- A slot held since the start is let go in the second pass that sees no foreign process. -/
theorem touched_for_reason_freed : ∃ state,
    (twoGpus.machine fun _ ↦ true).runFrom (Fleet.start fun _ ↦ true) freed = some state ∧
      state.thread = .visiting unclaimed 0 (some 800) .lowering ∧
      ∀ seen ∈ state.history.take 2, twoGpus.isForeign seen 0 = false := by
  obtain ⟨state, hfreed, hthread⟩ : ∃ state,
      (twoGpus.machine fun _ ↦ true).runFrom (Fleet.start fun _ ↦ true) freed = some state ∧
        state.thread = .visiting unclaimed 0 (some 800) .lowering := ⟨_, rfl, rfl⟩
  refine ⟨state, hfreed, hthread, ?_⟩
  rcases touched_for_reason ⟨_, hfreed⟩ hthread with ⟨htakes, -, -⟩ | ⟨-, -, hfree⟩
  · cases htakes
  · exact hfree

/-! ## A GPU of our own -/

/-- Never asked to park, never checkpointed, and held only since the start. -/
structure Slot.Undisturbed (slot : Slot) (busy : Bool) : Prop where
  park : slot.park = .run
  parked : slot.parked = false
  frozen : slot.frozen = false
  driver : slot.driver = .running
  hold : slot.hold = true → busy = true

/-- No pass sees a foreign process on the slot's GPU. -/
def undisputed (fleet : Fleet n) (slot : Fin n) (_ : FleetState n) : FleetAction n → Bool
  | .poll (some seen) => !fleet.isForeign seen (fleet.physical slot)
  | _ => true

structure Calm (fleet : Fleet n) (busy : Fin n → Bool) (slot : Fin n) (state : FleetState n) : Prop where
  words : (state.slot slot).Undisturbed (busy slot)
  worker : (state.slot slot).worker = .held ∨ (state.slot slot).worker = .running
  pc : state.thread.pc slot = .idle ∨ state.thread.pc slot = .lowering
  seen : ∀ seen, state.thread.seen = some seen → fleet.isForeign seen (fleet.physical slot) = false

theorem moveWorker_calm {config : Config} {words : Slot} {moved : State} {busy : Bool} {move : WorkerMove}
    (h : words.Undisturbed busy) (hworker : words.worker = .held ∨ words.worker = .running)
    (hmoved : moveWorker config (words.at 0 none .idle) move = some moved) :
    moved.slot.Undisturbed busy ∧ (moved.worker = .held ∨ moved.worker = .running) := by
  cases move with
  | release =>
    simp only [moveWorker, Option.ite_none_right_eq_some] at hmoved
    cases hmoved.2
    exact ⟨⟨h.park, h.parked, h.frozen, h.driver, h.hold⟩, .inr rfl⟩
  | look => simp [moveWorker, Slot.at, h.park] at hmoved
  | finish | refuse | fail | ack | check | rebuild =>
    rcases hworker with hworker | hworker <;> simp [moveWorker, Slot.at, hworker] at hmoved

theorem branch_calm {config : Config} {words : Slot} {busy : Bool} (h : words.Undisturbed busy)
    (used : Option ℕ) (streak : ℕ) :
    branch config (words.at streak used .idle) false used streak = .idle ∨
      branch config (words.at streak used .idle) false used streak = .lowering := by
  unfold branch
  by_cases hlong : config.needFreePolls ≤ streak <;> cases hhold : words.hold <;>
    simp [Slot.at, h.parked, h.frozen, hhold, hlong]

theorem scavenge_calm {config : Config} {words : Slot} {busy : Bool} (h : words.Undisturbed busy) (streak : ℕ)
    (used : Option ℕ) {pc : Pc} (hpc : pc = .idle ∨ pc = .lowering) (answer : Answer) :
    (scavenge config (words.at streak used pc) answer).slot.Undisturbed busy ∧
      (scavenge config (words.at streak used pc) answer).scavenger = .idle ∧
      (scavenge config (words.at streak used pc) answer).slot.worker = words.worker := by
  rcases hpc with rfl | rfl
  · exact ⟨h, rfl, rfl⟩
  · exact ⟨⟨h.park, h.parked, h.frozen, h.driver, nofun⟩, rfl, rfl⟩

/-- A step changes the words of one slot and the thread. -/
theorem Calm.goes (h : Calm fleet busy slot state) {other : Fin n} {changed : Slot} {thread : Thread n}
    (hchanged : other = slot →
      changed.Undisturbed (busy slot) ∧ (changed.worker = .held ∨ changed.worker = .running))
    (hpc : thread.pc slot = .idle ∨ thread.pc slot = .lowering)
    (hseen : ∀ seen, thread.seen = some seen → state.thread.seen = some seen) :
    Calm fleet busy slot { state with slot := Function.update state.slot other changed, thread } := by
  have hseen' (seen : Seen) (hfound : thread.seen = some seen) := h.seen seen (hseen seen hfound)
  by_cases hsame : other = slot
  · obtain ⟨hwords, hworker⟩ := hchanged hsame
    subst hsame
    have hself : Function.update state.slot other changed other = changed := Function.update_self _ _ _
    refine ⟨?_, ?_, hpc, hseen'⟩
    · show (Function.update state.slot other changed other).Undisturbed (busy other)
      rwa [hself]
    · show (Function.update state.slot other changed other).worker = _ ∨
        (Function.update state.slot other changed other).worker = _
      rwa [hself]
  · have hother : Function.update state.slot other changed slot = state.slot slot :=
      Function.update_of_ne (Ne.symm hsame) _ _
    refine ⟨?_, ?_, hpc, hseen'⟩
    · show (Function.update state.slot other changed slot).Undisturbed (busy slot)
      rw [hother]
      exact h.words
    · show (Function.update state.slot other changed slot).worker = _ ∨
        (Function.update state.slot other changed slot).worker = _
      rw [hother]
      exact h.worker

theorem within_calm (seen : Seen) {other : Fin n} (used : Option ℕ) {pc : Pc}
    (hpc : other = slot → pc = .idle ∨ pc = .lowering) :
    (Fleet.within seen other used pc).pc slot = .idle ∨ (Fleet.within seen other used pc).pc slot = .lowering := by
  by_cases hsame : other = slot
  · rw [hsame, within_pc]
    exact hpc hsame
  · exact .inl (within_pc_other seen hsame used pc).1

theorem Calm.visit (h : Calm fleet busy slot state) {seen : Seen} {other : Fin n}
    (hthread : state.thread = .turning seen other) : Calm fleet busy slot (fleet.visit state seen other) := by
  have hseen : state.thread.seen = some seen := by rw [hthread]; rfl
  unfold Fleet.visit
  split
  · refine h.goes ?_ (.inl rfl) fun _ hfound ↦ hseen.trans hfound
    rintro rfl
    exact ⟨⟨h.words.park, h.words.parked, rfl, h.words.driver, h.words.hold⟩, h.worker⟩
  · refine ⟨h.words, h.worker, within_calm seen _ ?_, ?_⟩
    · rintro rfl
      rw [h.seen seen hseen]
      exact branch_calm h.words _ _
    · intro found hfound
      rw [within_seen] at hfound
      exact h.seen found (hseen.trans hfound)

/-- No step touches a slot of whose GPU no pass sees a foreign process. -/
theorem Calm.step (h : Calm fleet busy slot state) {action : FleetAction n}
    (hfree : undisputed fleet slot state action = true) (hstep : fleet.step state action = some next) :
    Calm fleet busy slot next := by
  cases action with
  | worker other move =>
    obtain ⟨moved, hmoved, rfl⟩ := Option.map_eq_some_iff.mp hstep
    refine h.goes ?_ h.pc fun _ hseen ↦ hseen
    rintro rfl
    exact moveWorker_calm h.words h.worker hmoved
  | respawn other =>
    cases hstep
    refine h.goes ?_ h.pc fun _ hseen ↦ hseen
    rintro rfl
    exact ⟨⟨h.words.park, h.words.parked, h.words.frozen, rfl, h.words.hold⟩, .inl rfl⟩
  | poll seen =>
    cases hthread : state.thread with
    | waiting =>
      cases seen with
      | none =>
        simp only [Fleet.step, hthread, Option.some_inj] at hstep
        cases hstep
        exact h
      | some seen =>
        simp only [Fleet.step, hthread, Option.some_inj] at hstep
        cases hstep
        refine ⟨h.words, h.worker, .inl rfl, ?_⟩
        intro found hfound
        cases hfound
        exact Bool.not_eq_true' _ |>.mp hfree
    | turning | visiting => cases seen <;> simp [Fleet.step, hthread] at hstep
  | turn =>
    cases hthread : state.thread with
    | turning seen place =>
      simp only [Fleet.step, hthread] at hstep
      split at hstep
      · cases hstep
        exact h.visit hthread
      · cases hstep
        exact ⟨h.words, h.worker, .inl rfl, by rintro _ ⟨⟩⟩
    | waiting | visiting => simp [Fleet.step, hthread] at hstep
  | scavenge answer =>
    cases hthread : state.thread with
    | visiting seen other used pc =>
      simp only [Fleet.step, hthread, Option.some_inj] at hstep
      cases hstep
      have hseen : state.thread.seen = some seen := by rw [hthread]; rfl
      have hpc (hsame : other = slot) : pc = .idle ∨ pc = .lowering := by
        have hplace := h.pc
        rw [hthread, Thread.pc, if_pos hsame] at hplace
        exact hplace
      apply h.goes
      · rintro rfl
        obtain ⟨hwords, -, hworker⟩ := scavenge_calm h.words _ _ (hpc rfl) answer
        rw [hworker]
        exact ⟨hwords, h.worker⟩
      · apply within_calm
        rintro rfl
        exact .inl (scavenge_calm h.words _ _ (hpc rfl) answer).2.1
      · intro found hfound
        rw [within_seen] at hfound
        exact hseen.trans hfound
    | waiting | turning => simp [Fleet.step, hthread] at hstep

/-- While only our own processes compute on its GPU, no worker is asked to park or checkpointed, and none is held
that was not held at the start. -/
theorem own_gpu_undisturbed (h : ((fleet.machine busy).restrict (undisputed fleet slot)).Reachable state) :
    (state.slot slot).Undisturbed (busy slot) := by
  have hcalm : Calm fleet busy slot state := by
    refine h.invariant (Calm fleet busy slot) ?_ ?_
    · exact ⟨⟨rfl, rfl, rfl, rfl, id⟩, .inl rfl, .inl rfl, nofun⟩
    · intro state action next hstate hstep
      obtain ⟨hfree, hstep⟩ := Machine.restrict_step hstep
      exact hstate.step hfree hstep
  exact hcalm.words

/-- A worker held at the start is released, and that is all that happens to its slot. -/
theorem own_gpu_undisturbed_freed : ∃ state,
    ((twoGpus.machine fun _ ↦ true).restrict (undisputed twoGpus 0)).runFrom (Fleet.start fun _ ↦ true)
        (freed ++ [.scavenge ⟨true, none⟩, .worker 0 .release]) = some state ∧
      (state.slot 0).Undisturbed true := by
  obtain ⟨state, hrun⟩ : ∃ state,
      ((twoGpus.machine fun _ ↦ true).restrict (undisputed twoGpus 0)).runFrom (Fleet.start fun _ ↦ true)
        (freed ++ [.scavenge ⟨true, none⟩, .worker 0 .release]) = some state := by
    apply Option.isSome_iff_exists.mp
    decide +kernel
  exact ⟨state, hrun, own_gpu_undisturbed ⟨_, hrun⟩⟩

end Slots

end GpuPipe.Scavenge
