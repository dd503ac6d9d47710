import GpuPipe.Scavenge.Thaw

/-!
# Resuming a parked worker

A worker that waits for `park` to leave 2 is told to go on by the next free pass if the slot is
marked parked or frozen. An ack that comes when the scavenger has looked at `park` for the last time
leaves the slot unmarked, and the worker waiting.
-/

namespace GpuPipe.Scavenge

variable {config : Config} {state next : State}

/-- The ack does not come between two passes, or at the end of one, with the slot not frozen: whoever
withdrew its request still looks at `park`. -/
def acksInTime (state : State) : Action → Bool
  | .worker .ack =>
    match state.scavenger with
    | .idle => state.frozen
    | .lowering => false
    | .judging | .securing => state.used.isSome
    | _ => true
  | _ => true

/-- The flags at each statement of a pass. -/
def Pc.flagsOk : Pc → Bool → Bool → Prop
  | .idle, frozen, parked => ¬ (frozen = true ∧ parked = true)
  | .resuming, frozen, parked => frozen = false ∧ parked = true
  | .thawing, frozen, parked | .restoring, frozen, parked | .reviving, frozen, parked
  | .thawed, frozen, parked => frozen = true ∧ parked = false
  | _, frozen, parked => frozen = false ∧ parked = false

/-- The worker was asked to park in this pass. -/
def Pc.asks : Pc → Bool
  | .holding | .requesting | .awaiting | .testing | .timing | .withdrawing | .measuring | .remeasuring => true
  | _ => false

/-- The pass looks at `park` again, or the slot is marked. -/
def Pc.tracks : Pc → Bool → Bool → Bool → Prop
  | .idle, frozen, parked, _ => frozen = true ∨ parked = true
  | .lowering, _, _, _ => False
  | .judging, _, _, usable | .securing, _, _, usable => usable = true
  | _, _, _, _ => True

/-- Whenever `park` is 2, the worker waits and the scavenger will tell it to go on. -/
structure Tracked (config : Config) (state : State) : Prop where
  supports : state.worker = .parking ∨ state.worker = .acking ∨ state.worker = .waiting →
    config.supportsPark = true
  acked : state.park = .parked → state.worker = .waiting
  flags : state.scavenger.flagsOk state.frozen state.parked
  asks : state.scavenger.asks = true → state.used.isSome = true
  tracks : state.park = .parked → state.scavenger.tracks state.frozen state.parked state.used.isSome

theorem tracked_start (config : Config) (busy : Bool) : Tracked config (.start busy) where
  supports h := by simp [State.start] at h
  acked h := by cases h
  flags := by simp [State.start, Pc.flagsOk]
  asks h := by cases h
  tracks h := by cases h

/-- An ack in time is looked at again. -/
theorem tracks_of_acksInTime (allowed : acksInTime state (.worker .ack) = true) :
    state.scavenger.tracks state.frozen state.parked state.used.isSome := by
  unfold acksInTime at allowed
  cases pc : state.scavenger with
  | idle =>
    rw [pc] at allowed
    exact .inl allowed
  | lowering =>
    rw [pc] at allowed
    cases allowed
  | judging | securing =>
    rw [pc] at allowed
    exact allowed
  | _ => trivial

/-- The worker changes its place while `park` is not 2. -/
theorem Tracked.strays (tracked : Tracked config state) {worker : WorkerPc} (unparked : state.park ≠ .parked)
    (supports : worker = .parking ∨ worker = .acking ∨ worker = .waiting → config.supportsPark = true) :
    Tracked config { state with worker := worker } where
  supports := supports
  acked isParked := absurd isParked unparked
  flags := tracked.flags
  asks := tracked.asks
  tracks := tracked.tracks

theorem Tracked.moveWorker (tracked : Tracked config state) {move : WorkerMove}
    (allowed : acksInTime state (.worker move) = true)
    (moves : moveWorker config state move = some next) : Tracked config next := by
  have unparked (away : state.worker ≠ .waiting) : state.park ≠ .parked := mt tracked.acked away
  cases move <;> simp only [Scavenge.moveWorker, Option.ite_none_right_eq_some, Option.some.injEq] at moves <;>
    obtain ⟨place, rfl⟩ := moves
  case release => exact tracked.strays (unparked (by simp [place.1])) (by simp)
  case look => exact tracked.strays (unparked (by simp [place.1])) fun _ ↦ place.2.1
  case finish => exact tracked.strays (unparked (by simp [place])) fun _ ↦ tracked.supports (.inl place)
  case refuse =>
    have refused : Park.refused ≠ .parked := by decide
    exact ⟨by simp, fun isParked ↦ absurd isParked refused, tracked.flags, tracked.asks,
      fun isParked ↦ absurd isParked refused⟩
  case fail => exact tracked.strays (unparked (by simp [place])) (by simp)
  case ack =>
    exact ⟨fun _ ↦ tracked.supports (.inr (.inl place)), fun _ ↦ rfl, tracked.flags, tracked.asks,
      fun _ ↦ tracks_of_acksInTime allowed⟩
  case check => exact tracked.strays place.2 (by simp)
  case rebuild => exact tracked.strays (unparked (by simp [place])) (by simp)

/-- The scavenger does not move the worker, and nothing it stores makes `park` 2. -/
theorem Tracked.goes (tracked : Tracked config state) (worker : next.worker = state.worker)
    (park : next.park = .parked → state.park = .parked)
    (flags : next.scavenger.flagsOk next.frozen next.parked)
    (asks : next.scavenger.asks = true → next.used.isSome = true)
    (tracks : next.park = .parked → next.scavenger.tracks next.frozen next.parked next.used.isSome) :
    Tracked config next where
  supports := worker ▸ tracked.supports
  acked isParked := worker ▸ tracked.acked (park isParked)
  flags := flags
  asks := asks
  tracks := tracks

theorem Tracked.poll (tracked : Tracked config state) (idle : state.scavenger = .idle) (sight : Sight) :
    Tracked config (poll config state sight) := by
  have flags := tracked.flags
  have tracks := tracked.tracks
  rw [idle] at flags tracks
  -- a slot that is not marked is not parked
  have unmarked (thawed : state.frozen = false) (free : state.parked = false) : state.park ≠ .parked := by
    intro isParked
    have marked : state.frozen = true ∨ state.parked = true := tracks isParked
    simp [thawed, free] at marked
  unfold Scavenge.poll
  dsimp only
  rcases branch_cases config state sight.isForeign sight.used
    (if sight.isForeign then 0 else state.streak + 1) with
    eq | ⟨eq, thawed, free, -, used⟩ | ⟨eq, thawed, free⟩ | ⟨eq, isParked⟩ | ⟨eq, froze, free⟩ | ⟨eq, thawed, free⟩ <;>
    rw [eq]
  · exact tracked.goes rfl id flags nofun tracks
  · exact tracked.goes rfl id ⟨thawed, free⟩ (fun _ ↦ used) fun _ ↦ trivial
  · exact tracked.goes rfl id ⟨thawed, free⟩ nofun fun isParked ↦ absurd isParked (unmarked thawed free)
  · have thawed : state.frozen = false := Bool.eq_false_iff.mpr fun frozen ↦ flags ⟨frozen, isParked⟩
    exact tracked.goes rfl id ⟨thawed, isParked⟩ nofun fun _ ↦ trivial
  · exact tracked.goes rfl id ⟨froze, free⟩ nofun fun _ ↦ trivial
  · exact tracked.goes rfl id ⟨thawed, free⟩ nofun fun isParked ↦ absurd isParked (unmarked thawed free)

theorem Pc.flagsOk_idle_of_unfrozen {frozen parked : Bool} (unfrozen : frozen = false) :
    Pc.idle.flagsOk frozen parked := by
  intro both
  rw [unfrozen] at both
  cases both.1

theorem Pc.flagsOk_idle_of_unparked {frozen parked : Bool} (unparked : parked = false) :
    Pc.idle.flagsOk frozen parked := by
  intro both
  rw [unparked] at both
  cases both.2

/-- A parked worker is marked or still looked at, after every statement of a pass. -/
theorem Tracked.scavenge (tracked : Tracked config state) (answer : Answer) :
    Tracked config (scavenge config state answer) := by
  obtain ⟨park, hold, parked, frozen, frozenMib, driver, worker, scavenger, used, streak⟩ := state
  have flags := tracked.flags
  have asks := tracked.asks
  have tracks := tracked.tracks
  dsimp only at flags asks tracks
  unfold Scavenge.scavenge
  cases scavenger with
  | idle => exact tracked
  | holding => exact tracked.goes rfl id flags asks fun _ ↦ trivial
  | requesting | withdrawing => exact tracked.goes rfl nofun flags asks nofun
  | awaiting | testing | timing =>
    dsimp only
    split <;> exact tracked.goes rfl id flags asks fun _ ↦ trivial
  | measuring =>
    dsimp only
    split
    · exact tracked.goes rfl id flags asks fun _ ↦ trivial
    · exact tracked.goes rfl id (Pc.flagsOk_idle_of_unfrozen flags.1) nofun fun _ ↦ .inr rfl
  | remeasuring =>
    -- a second look that shows nothing leaves what the pass began with
    have usable : (answer.mib <|> used).isSome = true := by
      cases answer.mib with
      | none => exact asks rfl
      | some amount => rfl
    exact tracked.goes rfl id flags nofun fun _ ↦ usable
  | judging =>
    dsimp only
    split
    · exact tracked.goes rfl id flags nofun tracks
    · exact tracked.goes rfl id flags nofun fun _ ↦ trivial
  | securing =>
    cases used with
    | none =>
      refine tracked.goes rfl id (Pc.flagsOk_idle_of_unfrozen flags.1) nofun fun isParked ↦ ?_
      cases tracks isParked
    | some amount =>
      dsimp only [Option.isNone_some]
      split
      · contradiction
      · split <;> exact tracked.goes rfl id flags nofun fun _ ↦ trivial
  | weighing =>
    dsimp only
    split <;> exact tracked.goes rfl id flags nofun fun _ ↦ trivial
  | locking =>
    dsimp only
    cases (driver.act .lock answer.ok).1 <;> exact tracked.goes rfl id flags nofun fun _ ↦ trivial
  | checkpointing =>
    dsimp only
    split
    · exact tracked.goes rfl id (Pc.flagsOk_idle_of_unparked flags.2) nofun fun _ ↦ .inl rfl
    · exact tracked.goes rfl id flags nofun fun _ ↦ trivial
  | unlocking => exact tracked.goes rfl id flags nofun fun _ ↦ trivial
  | keeping =>
    refine tracked.goes rfl id (Pc.flagsOk_idle_of_unfrozen flags.1) nofun fun isParked ↦ .inr ?_
    have parks : config.supportsPark = true := tracked.supports (.inr (.inr (tracked.acked isParked)))
    dsimp only at isParked ⊢
    rw [parks, isParked]
    exact Bool.or_true _
  | resuming => exact tracked.goes rfl nofun ⟨flags.1, rfl⟩ nofun nofun
  | thawing =>
    dsimp only
    split
    · exact tracked.goes rfl id (Pc.flagsOk_idle_of_unparked flags.2) nofun fun _ ↦ .inl flags.1
    · exact tracked.goes rfl id flags nofun fun _ ↦ trivial
  | restoring | reviving =>
    -- an action that fails leaves the slot marked frozen
    dsimp only
    split
    · exact tracked.goes rfl id flags nofun fun _ ↦ trivial
    · exact tracked.goes rfl id (Pc.flagsOk_idle_of_unparked flags.2) nofun fun _ ↦ .inl flags.1
  | thawed => exact tracked.goes rfl id ⟨rfl, flags.2⟩ nofun fun _ ↦ trivial
  | checking =>
    dsimp only
    split
    · exact tracked.goes rfl id flags nofun fun _ ↦ trivial
    · rename_i unparked
      refine tracked.goes rfl id flags nofun fun isParked ↦ unparked ?_
      have parks : config.supportsPark = true := tracked.supports (.inr (.inr (tracked.acked isParked)))
      dsimp only at isParked ⊢
      rw [parks, isParked]
      rfl
  | clearing => exact tracked.goes rfl nofun flags nofun nofun
  | lowering =>
    exact tracked.goes rfl id (Pc.flagsOk_idle_of_unfrozen flags.1) nofun fun isParked ↦ (tracks isParked).elim

/-- What a step of worker or scavenger preserves while acknowledgements come in time. -/
theorem Tracked.step (tracked : Tracked config state) {action : Action}
    (allowed : acksInTime state action = true) (moves : step config state action = some next) :
    Tracked config next := by
  cases action with
  | worker move => exact tracked.moveWorker allowed moves
  | poll sight =>
    simp only [Scavenge.step, Option.ite_none_right_eq_some, Option.some.injEq] at moves
    obtain ⟨idle, rfl⟩ := moves
    exact tracked.poll idle sight
  | scavenge answer =>
    simp only [Scavenge.step, Option.ite_none_right_eq_some, Option.some.injEq] at moves
    obtain ⟨-, rfl⟩ := moves
    exact tracked.scavenge answer

/-! ## A free pass -/

/-- At each statement of a free pass, either the worker waits still, and the driver is in the state
that the thaw needs, or `park` is 0 and the worker has gone on or will. -/
def Pc.resumeOk : Pc → Driver → Prop
  | .thawing, driver | .restoring, driver => driver = .checkpointed
  | .reviving, driver => driver = .locked
  | _, _ => True

structure Resuming (count : ℕ) (state : State) : Prop where
  left : ∃ left, state.scavenger.left = some left ∧ count + left ≤ 7
  driver : state.scavenger.resumeOk state.driver
  before : state.scavenger ≠ .lowering → state.scavenger ≠ .idle →
    state.park = .parked ∧ state.worker = .waiting
  after : state.scavenger = .lowering ∨ state.scavenger = .idle →
    state.park = .run ∧ state.worker ≠ .parking ∧ state.worker ≠ .acking

theorem Resuming.apart {count : ℕ} (resuming : Resuming count state) :
    state.worker ≠ .parking ∧ state.worker ≠ .acking := by
  by_cases ended : state.scavenger = .lowering ∨ state.scavenger = .idle
  · exact (resuming.after ended).2
  · rw [not_or] at ended
    rw [(resuming.before ended.1 ended.2).2]
    decide

/-- The worker changes its place without waiting for `park`. -/
theorem Resuming.strays {count : ℕ} (resuming : Resuming count state) {worker : WorkerPc}
    (goes : ¬ (state.park = .parked ∧ state.worker = .waiting))
    (apart : state.park = .run → worker ≠ .parking ∧ worker ≠ .acking) :
    Resuming count { state with worker := worker } where
  left := resuming.left
  driver := resuming.driver
  before high busy := absurd (resuming.before high busy) goes
  after ended := ⟨(resuming.after ended).1, apart (resuming.after ended).1⟩

theorem Resuming.moveWorker {count : ℕ} (resuming : Resuming count state) {move : WorkerMove}
    (moves : moveWorker config state move = some next) : Resuming count next := by
  cases move <;> simp only [Scavenge.moveWorker, Option.ite_none_right_eq_some, Option.some.injEq] at moves <;>
    obtain ⟨place, rfl⟩ := moves
  case release => exact resuming.strays (by simp [place.1]) (by simp)
  case look => exact resuming.strays (by simp [place.1]) fun runs ↦ by simp [runs] at place
  case finish | refuse | fail => exact absurd place resuming.apart.1
  case ack => exact absurd place resuming.apart.2
  case check => exact resuming.strays (fun waits ↦ place.2 waits.1) (by simp)
  case rebuild => exact resuming.strays (by simp [place]) (by simp)

/-- Each statement of a free pass brings a parked worker nearer to its release. -/
theorem Resuming.scavenge {count : ℕ} (resuming : Resuming count state) (supports : config.supportsPark = true)
    {answer : Answer} (busy : state.scavenger ≠ .idle) (ok : answer.ok = true)
    (vram : lacksVram state.frozenMib answer.mib = false) :
    Resuming (count + 1) (scavenge config state answer) := by
  obtain ⟨⟨left, place, bound⟩, driver, before, after⟩ := resuming
  cases pc : state.scavenger with
  | idle => contradiction
  | resuming =>
    rw [pc] at place
    cases place
    obtain ⟨-, waiting⟩ := before (by simp [pc]) busy
    simp only [Scavenge.scavenge, pc]
    exact ⟨⟨1, rfl, by omega⟩, trivial, by simp, by simp [waiting]⟩
  | thawing =>
    rw [pc] at place driver
    cases place
    simp only [Scavenge.scavenge, pc, vram, Bool.false_eq_true, if_false]
    exact ⟨⟨6, rfl, by omega⟩, driver, fun _ _ ↦ before (by simp [pc]) busy, by simp⟩
  | restoring =>
    rw [pc] at place driver
    cases place
    simp only [Pc.resumeOk] at driver
    simp only [Scavenge.scavenge, pc, driver, Driver.act, Driver.next, ok, if_true]
    exact ⟨⟨5, rfl, by omega⟩, rfl, fun _ _ ↦ before (by simp [pc]) busy, by simp⟩
  | reviving =>
    rw [pc] at place driver
    cases place
    simp only [Pc.resumeOk] at driver
    simp only [Scavenge.scavenge, pc, driver, Driver.act, Driver.next, ok, if_true]
    exact ⟨⟨4, rfl, by omega⟩, trivial, fun _ _ ↦ before (by simp [pc]) busy, by simp⟩
  | thawed =>
    rw [pc] at place
    cases place
    simp only [Scavenge.scavenge, pc]
    exact ⟨⟨3, rfl, by omega⟩, trivial, fun _ _ ↦ before (by simp [pc]) busy, by simp⟩
  | checking =>
    rw [pc] at place
    cases place
    obtain ⟨parked, waiting⟩ := before (by simp [pc]) busy
    simp only [Scavenge.scavenge, pc, supports, parked, decide_true, Bool.and_self, if_true]
    exact ⟨⟨2, rfl, by omega⟩, trivial, fun _ _ ↦ ⟨rfl, waiting⟩, by simp⟩
  | clearing =>
    rw [pc] at place
    cases place
    obtain ⟨-, waiting⟩ := before (by simp [pc]) busy
    simp only [Scavenge.scavenge, pc]
    exact ⟨⟨1, rfl, by omega⟩, trivial, by simp, by simp [waiting]⟩
  | lowering =>
    rw [pc] at place
    cases place
    simp only [Scavenge.scavenge, pc]
    exact ⟨⟨0, rfl, by omega⟩, trivial, by simp, fun _ ↦ after (.inl pc)⟩
  | _ =>
    rw [pc] at place
    cases place

theorem FreePass.resuming {before : State} {count : ℕ} (tracked : Tracked config before)
    (waiting : before.worker = .waiting) (parked : before.park = .parked)
    (restorable : before.frozen = true → before.driver = .checkpointed)
    (pass : FreePass config before count state) : Resuming count state := by
  have supports : config.supportsPark = true := tracked.supports (.inr (.inr waiting))
  induction pass with
  | @begins sight idle free long =>
    have marked := tracked.tracks parked
    rw [idle] at marked
    simp only [poll, branch, free, Bool.false_eq_true, if_false, long, if_true]
    cases hparked : before.parked with
    | true => exact ⟨⟨2, by simp [Pc.left], by decide⟩, by simp [Pc.resumeOk], by simp [parked, waiting], by simp⟩
    | false =>
      have frozen : before.frozen = true := by simpa [Pc.tracks, hparked] using marked
      exact ⟨⟨7, by simp [frozen, Pc.left], by decide⟩, by simp [frozen, Pc.resumeOk, restorable],
        by simp [frozen, parked, waiting], by simp [frozen]⟩
  | goes pass busy ok vram ih => exact ih.scavenge supports busy ok vram
  | works pass moves ih => exact ih.moveWorker moves

end GpuPipe.Scavenge
