import GpuPipe.Ring.Attempt

/-!
# What a failed put leaves behind

A call of `put` that returns False or raises. What it spilled is discarded and its entry in the pending
table is cleared, but a file whose write failed half way stays where `std::fs::write` created it.
-/

namespace GpuPipe.Ring

variable {queue : RingQueue} {pid : ℕ → UInt32} {state next last : State} {thread call : ℕ} {move : Move}

/-! ## What is left when it fails -/

/-- The objects of this call are what its put has spilled. -/
def Tidy (call : ℕ) (state : State) (put : PutCall) : Prop :=
  CallsOk state ∧ ∀ place object, state.objects place = some object → object.call = call →
    put.spilled.bind Record.place = some place

theorem discard_place {objects : Objects} {spilled : Option Record} {place : Medium × Bytes}
    (h : spilled.bind Record.place = some place) : discard objects spilled place = none := by
  simp [discard, h]

/-- A step of another thread makes no object of this call. -/
theorem Tidy.other {put : PutCall} (hattempting : Attempting thread call state put)
    (h : Tidy call state put) {action : Action} (hforeign : ∀ move, action ≠ .act thread move)
    (hstep : step queue pid state action = some next) : Tidy call next put := by
  refine ⟨h.1.step hstep, fun place object hobject hcall ↦ ?_⟩
  apply h.2 place object ?_ hcall
  cases action with
  | die process =>
    cases hstep
    exact hobject
  | act other move =>
    have hne : thread ≠ other := fun heq ↦ hforeign move (by rw [heq])
    simp only [step, Option.ite_none_left_eq_some] at hstep
    rcases (moveStep_callFrame hstep.2).objects place object hobject with hold | ⟨put', hput', hother⟩
    · exact hold
    · have hsame : put.call = put'.call := by rw [hattempting.call, ← hcall, hother]
      exact absurd (h.1.inj thread other put put' (Phase.pre_of_attempt hattempting.attempt) hput' hsame) hne

theorem Attempting.unique {put put' : PutCall} (h : Attempting thread call state put)
    (h' : (state.phase thread).attempt = some put') : put' = put :=
  Option.some.inj (h'.symm.trans h.attempt)

/-- Own steps that leave no partly written file keep the objects of the call to what it has spilled, and
discard that at the end. -/
theorem Tidy.own {put : PutCall} (hleaves : move.leaves = false)
    (hattempting : Attempting thread call state put) (h : Tidy call state put)
    (hmove : moveStep queue pid state thread move = some next) (hcalls : CallsOk next) :
    (∀ put', Attempting thread call next put' → Tidy call next put') ∧
      (next.phase thread = .idle → ∀ place object, next.objects place = some object →
        object.call ≠ call) := by
  cases (moveStep_attempted hmove hattempting.attempt hattempting.pending).1 with
  | goes put' hattempt hcall hobjects hspilled =>
    refine ⟨fun other hother ↦ ⟨hcalls, ?_⟩, fun hidle ↦ absurd hidle (Phase.not_idle_of_attempt hattempt)⟩
    rw [← hother.unique hattempt, hobjects, hspilled]
    exact h.2
  | spilled put' place object hattempt hcall hfresh hplace hobjects =>
    refine ⟨fun other hother ↦ ⟨hcalls, ?_⟩, fun hidle ↦ absurd hidle (Phase.not_idle_of_attempt hattempt)⟩
    rw [← hother.unique hattempt, hobjects, hplace]
    intro place' object' hobject' hcall'
    rcases create_some hobject' with hold | ⟨hsame, -⟩
    · have hmine := h.2 place' object' hold hcall'
      rw [hfresh] at hmine
      cases hmine
    · rw [hsame]
  | left place object hphase hfresh hobject hobjects hfree hyes =>
    rw [hleaves] at hyes
    cases hyes
  | stores put' hpublishing =>
    obtain ⟨hnone, hbusy⟩ := Phase.of_publishing hpublishing
    exact ⟨fun other hother ↦ absurd (hnone ▸ hother.attempt) nofun, fun hidle ↦ absurd hidle hbusy⟩
  | fails hidle hobjects =>
    refine ⟨fun other hother ↦ absurd hidle hother.not_idle, fun _ place object hobject hcall ↦ ?_⟩
    rw [hobjects] at hobject
    have hmine := h.2 place object (discard_some hobject) hcall
    rw [discard_place hmine] at hobject
    cases hobject

/-- An object of the call that is not what its put has spilled, so that no discard will find it. -/
def Leftover (queue : RingQueue) (pid : ℕ → UInt32) (call : ℕ) (state : State) (put : PutCall) : Prop :=
  Inv queue pid state ∧ ∃ place object, state.objects place = some object ∧ object.call = call ∧
    put.spilled.bind Record.place ≠ some place

theorem Inv.free (h : Inv queue pid state) {place : Medium × Bytes} (hfree : Free state place) :
    state.objects place = none := by
  rcases hfree with hnone | ⟨process, rfl⟩
  · exact hnone
  · exact h.file_fresh process

theorem create_keeps {objects : Objects} {place other : Medium × Bytes} {object created : Object}
    (hobject : objects place = some object) (hfree : objects other = none) :
    Function.update objects other (some created) place = some object := by
  rw [Function.update_of_ne, hobject]
  rintro rfl
  rw [hfree] at hobject
  cases hobject

/-- A step of a thread leaves the objects of other calls alone. -/
theorem Inv.keeps_foreign (h : Inv queue pid state) (hmove : Ring.moveStep queue pid state thread move = some next)
    {place : Medium × Bytes} {object : Object} (hobject : state.objects place = some object)
    (hforeign : Foreign state thread object.call) : next.objects place = some object := by
  have hcarries {put : PutCall} (hpre : (state.phase thread).pre = some put) :
      ∀ record, put.spilled = some record → Carries state.objects put.entry record :=
    fun record hrecord ↦ (((h.threads thread).pre put hpre).ok.spilled record hrecord).1
  cases moveStep_cases hmove with
  | spill put result hphase _ _ hspill =>
    have hleave (left : Option Bytes) :
        (Ring.leaveFile pid state thread put left).objects place = some object := by
      cases left with
      | none => exact hobject
      | some bytes => exact create_keeps hobject (h.file_fresh (pid thread))
    cases result with
    | shm =>
      simp only [Ring.spill, Option.ite_none_left_eq_some, Bool.or_eq_true, not_or, Bool.not_eq_true,
        Option.isSome_eq_false_iff, Option.isNone_iff_eq_none, Option.some.injEq] at hspill
      obtain ⟨⟨⟨-, hfree⟩, -⟩, rfl⟩ := hspill
      exact create_keeps hobject hfree
    | file =>
      simp only [Ring.spill, Option.ite_none_left_eq_some, Option.some.injEq] at hspill
      obtain ⟨-, rfl⟩ := hspill
      exact create_keeps hobject (h.file_fresh (pid thread))
    | noSpace left clock =>
      simp only [Ring.spill] at hspill
      split at hspill <;> cases hspill <;> exact hleave left
    | failed left =>
      cases hspill
      exact hleave left
  | putDecide put clock hphase =>
    have hpre : (state.phase thread).pre = some put := by rw [hphase]; rfl
    have hdecided : Decided queue state thread put (Ring.putDecide queue state thread put clock) :=
      putDecide_decided put clock
    generalize Ring.putDecide queue state thread put clock = after at hdecided
    cases hdecided with
    | expired => exact discard_keeps (hcarries hpre) hobject (hforeign.1 put hpre)
    | stores | spills | waits => exact hobject
  | putAbort put hphase =>
    have hpre : (state.phase thread).pre = some put := by rw [hphase]; rfl
    exact discard_keeps (hcarries hpre) hobject (hforeign.1 put hpre)
  | materialize popped rest hphase =>
    have hmem : popped ∈ (state.phase thread).held := by
      rw [hphase]
      exact List.mem_cons_self
    obtain ⟨entry, hentry, hcarries⟩ := ((h.threads thread).held popped hmem).carries
    have hresult := materialize_carries hcarries (h.puts_length entry (List.mem_of_getElem? hentry))
    unfold materializeNext
    rw [hresult]
    exact discard_keeps (fun record hrecord ↦ Option.some.inj hrecord ▸ hcarries) hobject
      (hforeign.2 popped hmem entry hentry)
  | _ => exact hobject

/-- Nobody else removes it either. -/
theorem Leftover.other {put : PutCall} (hspill : queue.spillAt < 2 ^ 32)
    (hattempting : Attempting thread call state put) (h : Leftover queue pid call state put)
    {action : Action} (hforeign : ∀ move, action ≠ .act thread move)
    (hstep : step queue pid state action = some next) : Leftover queue pid call next put := by
  obtain ⟨hinv, place, object, hobject, hcall, hplace⟩ := h
  refine ⟨hinv.step (ridesWhole_of_spillAt hspill state action) hstep, place, object, ?_, hcall, hplace⟩
  cases action with
  | die process =>
    cases hstep
    exact hobject
  | act other move =>
    have hne : thread ≠ other := fun heq ↦ hforeign move (by rw [heq])
    simp only [step, Option.ite_none_left_eq_some] at hstep
    have hpre := Phase.pre_of_attempt hattempting.attempt
    apply hinv.keeps_foreign hstep.2 hobject
    rw [hcall, ← hattempting.call]
    exact hinv.foreign_pre hne hpre

/-- A left-over stays left over through the call's own moves. -/
theorem Leftover.own {put : PutCall} (hattempting : Attempting thread call state put)
    (h : Leftover queue pid call state put) (hmove : moveStep queue pid state thread move = some next)
    (hinv : Inv queue pid next) :
    (∀ put', Attempting thread call next put' → Leftover queue pid call next put') ∧
      (next.phase thread = .idle → ∃ place object, next.objects place = some object ∧
        object.call = call) := by
  obtain ⟨hinvBefore, place, object, hobject, hcall, hplace⟩ := h
  cases (moveStep_attempted hmove hattempting.attempt hattempting.pending).1 with
  | goes put' hattempt _ hobjects hspilled =>
    rw [← hobjects] at hobject
    refine ⟨fun other hother ↦ ⟨hinv, place, object, hobject, hcall, ?_⟩,
      fun _ ↦ ⟨place, object, hobject, hcall⟩⟩
    rwa [← hother.unique hattempt, hspilled]
  | spilled put' created made hattempt _ hfresh hmade hobjects hfree =>
    have hnone := hinvBefore.free hfree
    have hkept : next.objects place = some object := by
      rw [hobjects]
      exact create_keeps hobject hnone
    refine ⟨fun other hother ↦ ⟨hinv, place, object, hkept, hcall, ?_⟩,
      fun _ ↦ ⟨place, object, hkept, hcall⟩⟩
    rw [← hother.unique hattempt, hmade, ne_eq, Option.some.injEq]
    rintro rfl
    rw [hnone] at hobject
    cases hobject
  | left created made hphase hfresh _ hobjects hfree =>
    have hkept : next.objects place = some object := by
      rw [hobjects]
      exact create_keeps hobject (hinvBefore.free hfree)
    refine ⟨fun other hother ↦ ⟨hinv, place, object, hkept, hcall, ?_⟩,
      fun _ ↦ ⟨place, object, hkept, hcall⟩⟩
    rcases hphase with hattempt | hidle
    · rwa [← hother.unique hattempt]
    · exact absurd hidle hother.not_idle
  | stores put' hpublishing =>
    obtain ⟨hnone, hbusy⟩ := Phase.of_publishing hpublishing
    exact ⟨fun other hother ↦ absurd (hnone ▸ hother.attempt) nofun, fun hidle ↦ absurd hidle hbusy⟩
  | fails hidle hobjects =>
    refine ⟨fun other hother ↦ absurd hidle hother.not_idle, fun _ ↦ ⟨place, object, ?_, hcall⟩⟩
    rw [hobjects]
    cases hmine : put.spilled.bind Record.place with
    | none => simpa only [discard, hmine] using hobject
    | some mine =>
      simp only [discard, hmine]
      rw [Function.update_of_ne, hobject]
      rintro rfl
      exact hplace hmine

/-- One call of `put` by a thread, from its first step to its return of False or an error, with whatever
the other threads do in between. -/
structure FailedPut (queue : RingQueue) (pid : ℕ → UInt32) (state begun last : State) (thread : ℕ)
    (actions : List Action) : Prop where
  begins : ∃ data deadline disk,
    step queue pid state (.act thread (.putBegin data deadline disk)) = some begun
  runs : ((machine queue pid).restrict (inCall thread)).runFrom begun actions = some last
  returned : last.phase thread = .idle
  failed : (state.calls, true) ∉ last.putReturns

/-- Every step of the call itself leaves offsets, item count and bytes as they are, a pending entry it noted
is empty at the return, and no object or file it created is left. -/
structure LeavesNothing (queue : RingQueue) (pid : ℕ → UInt32) (state begun last : State) (thread : ℕ)
    (actions : List Action) : Prop where
  records : ∀ before move after middle next, actions = before ++ .act thread move :: after →
    (machine queue pid).runFrom begun before = some middle →
    step queue pid middle (.act thread move) = some next → SameRecords middle next
  slot : ∀ before after middle put slot, actions = before ++ after →
    (machine queue pid).runFrom begun before = some middle →
    (middle.phase thread).attempt = some put → put.pending = some slot →
    last.shared.pending slot = none
  objects : ∀ place object, last.objects place = some object → object.call ≠ state.calls

/-- A file of this call was made and its write then failed. -/
def LeavesFile (thread : ℕ) (actions : List Action) : Prop :=
  ∃ move, Action.act thread move ∈ actions ∧ move.leaves = true

section Failed

variable {begun : State} {actions : List Action}

theorem FailedPut.attempting (h : FailedPut queue pid state begun last thread actions) :
    ∃ put, Attempting thread state.calls begun put ∧ begun.objects = state.objects ∧
      put.spilled = none := by
  obtain ⟨data, deadline, disk, hbegin⟩ := h.begins
  simp only [step, Option.ite_none_left_eq_some] at hbegin
  cases moveStep_cases hbegin.2 with
  | putBegin =>
    refine ⟨⟨state.calls, data, deadline, disk, queue.spillAt < data.length, none, none⟩,
      ⟨?_, rfl, fun _ ↦ rfl⟩, rfl, rfl⟩
    simp [State.goto, Phase.attempt]

/-- A put that fails has not stored its record. -/
theorem FailedPut.not_completing (h : FailedPut queue pid state begun last thread actions) :
    ¬ Completing thread state.calls last := by
  rintro (⟨put, hpublishing, -⟩ | hreturned)
  · exact (Phase.of_publishing hpublishing).2 h.returned
  · exact h.failed hreturned

/-- Wherever the call is cut, the two parts are runs within the call. -/
theorem FailedPut.split (h : FailedPut queue pid state begun last thread actions)
    {before after : List Action} {middle : State} (hsplit : actions = before ++ after)
    (hbefore : (machine queue pid).runFrom begun before = some middle) :
    ((machine queue pid).restrict (inCall thread)).runFrom begun before = some middle ∧
      ((machine queue pid).restrict (inCall thread)).runFrom middle after = some last := by
  have hruns := h.runs
  rw [hsplit, Machine.runFrom_append, Option.bind_eq_some_iff] at hruns
  obtain ⟨middle', hfirst, hrest⟩ := hruns
  have hsame : middle' = middle :=
    Option.some.inj ((Machine.runFrom_of_restrict hfirst).symm.trans hbefore)
  rw [hsame] at hfirst hrest
  exact ⟨hfirst, hrest⟩

/-- Until the thread returns it attempts. -/
theorem FailedPut.attempting_at (h : FailedPut queue pid state begun last thread actions)
    {before after : List Action} {middle : State} (hsplit : actions = before ++ after)
    (hbefore : (machine queue pid).runFrom begun before = some middle)
    (hbusy : middle.phase thread ≠ .idle) : ∃ put, Attempting thread state.calls middle put := by
  obtain ⟨hfirst, hrest⟩ := h.split hsplit hbefore
  obtain ⟨put, hput, -⟩ := h.attempting
  rcases hput.stage hfirst with hattempting | hcompleting | hidle
  · exact hattempting
  · exact absurd (hcompleting.run (Machine.runFrom_of_restrict hrest)) h.not_completing
  · exact absurd hidle hbusy

/-- At each of its own steps the thread attempts. -/
theorem FailedPut.attempting_before (h : FailedPut queue pid state begun last thread actions)
    {before after : List Action} {action : Action} {middle : State}
    (hsplit : actions = before ++ action :: after)
    (hbefore : (machine queue pid).runFrom begun before = some middle) :
    ∃ put, Attempting thread state.calls middle put := by
  obtain ⟨-, hrest⟩ := h.split hsplit hbefore
  rw [Machine.runFrom_cons, Option.bind_eq_some_iff] at hrest
  obtain ⟨next, hnext, -⟩ := hrest
  exact h.attempting_at hsplit hbefore (by simpa [inCall] using (Machine.restrict_step hnext).1)

theorem FailedPut.slot (h : FailedPut queue pid state begun last thread actions)
    {before after : List Action} {middle : State} {put : PutCall} {slot : ℕ}
    (hsplit : actions = before ++ after)
    (hbefore : (machine queue pid).runFrom begun before = some middle)
    (hattempt : (middle.phase thread).attempt = some put) (hslot : put.pending = some slot) :
    last.shared.pending slot = none := by
  obtain ⟨put', hput⟩ := h.attempting_at hsplit hbefore (Phase.not_idle_of_attempt hattempt)
  rw [hput.unique hattempt] at hslot
  refine hput.ends (fun _ put ↦ put.pending = some slot) (fun state ↦ state.shared.pending slot = none)
    (fun _ ↦ True) (fun _ hheld _ _ ↦ hheld) ?_ hslot (fun _ _ ↦ trivial) (h.split hsplit hbefore).2
    h.returned h.not_completing
  intro state next move put _ hattempting hheld hstep
  cases (moveStep_attempted (moveStep_of_step hstep) hattempting.attempt hattempting.pending).1 with
  | goes put' hattempt _ _ _ hpending =>
    refine ⟨fun other hother ↦ ?_, fun hidle ↦ absurd hidle (Phase.not_idle_of_attempt hattempt)⟩
    rw [← hother.unique hattempt]
    rcases hpending with hpending | ⟨hnone, -⟩
    · rwa [hpending]
    · rw [hnone] at hheld
      cases hheld
  | spilled put' _ _ hattempt _ _ _ _ _ hpending =>
    refine ⟨fun other hother ↦ ?_, fun hidle ↦ absurd hidle (Phase.not_idle_of_attempt hattempt)⟩
    rw [← hother.unique hattempt, hpending]
    exact hheld
  | left _ _ hphase hfresh =>
    have hnone := hattempting.pending hfresh
    rw [hheld] at hnone
    cases hnone
  | stores put' hpublishing =>
    obtain ⟨hnone, hbusy⟩ := Phase.of_publishing hpublishing
    exact ⟨fun other hother ↦ absurd (hnone ▸ hother.attempt) nofun, fun hidle ↦ absurd hidle hbusy⟩
  | fails hidle _ hcleared =>
    exact ⟨fun other hother ↦ absurd hidle hother.not_idle, fun _ ↦ hcleared slot hheld⟩

/-- Without a partly written file no object of the call is left. -/
theorem FailedPut.no_objects (h : FailedPut queue pid state begun last thread actions)
    (hcalls : CallsOk state) (hleaves : ¬ LeavesFile thread actions) :
    ∀ place object, last.objects place = some object → object.call ≠ state.calls := by
  obtain ⟨put, hput, hobjects, hunspilled⟩ := h.attempting
  have hbegun : CallsOk begun := by
    obtain ⟨data, deadline, disk, hbegin⟩ := h.begins
    exact hcalls.step hbegin
  have htidy : Tidy state.calls begun put := by
    refine ⟨hbegun, fun place object hobject hcall ↦ ?_⟩
    rw [hobjects] at hobject
    exact absurd hcall (hcalls.objects_lt place object hobject).ne
  refine hput.ends (Tidy state.calls) (fun state' ↦ ∀ place object, state'.objects place = some object →
    object.call ≠ state.calls) (fun move ↦ move.leaves = false) ?_ ?_ htidy ?_ h.runs h.returned
    h.not_completing
  · exact fun hattempting htidy hforeign hstep ↦ htidy.other hattempting hforeign hstep
  · intro middle next move put' hmove hattempting htidy' hnext
    exact htidy'.own hmove hattempting (moveStep_of_step hnext) (htidy'.1.step hnext)
  · intro move hmem
    by_contra hcontra
    exact hleaves ⟨move, hmem, by simpa using hcontra⟩

theorem inv_of_run {actions : List Action} (hspill : queue.spillAt < 2 ^ 32) (h : Inv queue pid state)
    (hrun : (machine queue pid).runFrom state actions = some last) : Inv queue pid last :=
  Machine.run_invariant (Inv queue pid) (fun state action _ hstate hstep ↦
    hstate.step (ridesWhole_of_spillAt hspill state action) hstep) h hrun

/-- A partly written file is still there when the call returns. -/
theorem FailedPut.leftover (h : FailedPut queue pid state begun last thread actions)
    (hspill : queue.spillAt < 2 ^ 32) (hinv : Inv queue pid state) (hleaves : LeavesFile thread actions) :
    ∃ place object, last.objects place = some object ∧ object.call = state.calls := by
  obtain ⟨move, hmem, hmove⟩ := hleaves
  obtain ⟨before, after, hsplit⟩ := List.mem_iff_append.mp hmem
  have hruns := Machine.runFrom_of_restrict h.runs
  rw [hsplit, Machine.runFrom_append, Option.bind_eq_some_iff] at hruns
  obtain ⟨middle, hbefore, -⟩ := hruns
  obtain ⟨put, hput⟩ := h.attempting_before hsplit hbefore
  have hbegun : Inv queue pid begun := by
    obtain ⟨data, deadline, disk, hbegin⟩ := h.begins
    exact hinv.step (ridesWhole_of_spillAt hspill state _) hbegin
  have hmiddle := inv_of_run hspill hbegun hbefore
  have hrest := (h.split hsplit hbefore).2
  rw [Machine.runFrom_cons, Option.bind_eq_some_iff] at hrest
  obtain ⟨next, hnext, hafter⟩ := hrest
  have hstep : step queue pid middle (.act thread move) = some next := (Machine.restrict_step hnext).2
  have hinvNext := hmiddle.step (ridesWhole_of_spillAt hspill middle _) hstep
  cases (moveStep_attempted (moveStep_of_step hstep) hput.attempt hput.pending).1 with
  | left place object hphase hfresh hcall hobjects =>
    have hobject : next.objects place = some object := by rw [hobjects, Function.update_self]
    rw [hput.call] at hcall
    rcases hphase with hattempt | hidle
    · have hattempting : Attempting thread state.calls next put := ⟨hattempt, hput.call, hput.pending⟩
      have hheld : Leftover queue pid state.calls next put :=
        ⟨hinvNext, place, object, hobject, hcall, by simp [hfresh]⟩
      refine hattempting.ends (Leftover queue pid state.calls) (fun state' ↦ ∃ place object,
        state'.objects place = some object ∧ object.call = state.calls) (fun _ ↦ True) ?_ ?_ hheld
        (fun _ _ ↦ trivial) hafter h.returned h.not_completing
      · exact fun hattempting hheld hforeign hstep ↦ hheld.other hspill hattempting hforeign hstep
      · intro earlier later move' put' _ hattempting' hheld' hstep'
        exact hheld'.own hattempting' (moveStep_of_step hstep')
          (hheld'.1.step (ridesWhole_of_spillAt hspill earlier _) hstep')
    · rw [run_of_idle hidle hafter]
      exact ⟨place, object, hobject, hcall⟩
  | goes _ _ _ _ _ _ hno | spilled _ _ _ _ _ _ _ _ _ _ hno | stores _ _ _ hno | fails _ _ _ hno =>
    rw [hmove] at hno
    cases hno

/-- A put that fails leaves nothing behind unless one of its file writes failed after the file was made,
and then it does leave something. -/
theorem put_leaves_nothing_iff (h : (machine queue pid).Reachable state)
    (hput : FailedPut queue pid state begun last thread actions) :
    (¬ LeavesFile thread actions → LeavesNothing queue pid state begun last thread actions) ∧
      (queue.spillAt < 2 ^ 32 →
        (LeavesNothing queue pid state begun last thread actions ↔ ¬ LeavesFile thread actions)) := by
  have hfirst : ¬ LeavesFile thread actions →
      LeavesNothing queue pid state begun last thread actions := by
    intro hleaves
    constructor
    · intro before move after middle next hsplit hbefore hstep
      obtain ⟨put, hattempting⟩ := hput.attempting_before hsplit hbefore
      exact (moveStep_attempted (moveStep_of_step hstep) hattempting.attempt hattempting.pending).2
    · exact fun before after middle put slot hsplit hbefore ↦ hput.slot hsplit hbefore
    · exact hput.no_objects (callsOk_of_reachable h) hleaves
  refine ⟨hfirst, fun hspill ↦ ⟨fun hnothing hleaves ↦ ?_, hfirst⟩⟩
  obtain ⟨before, hrun⟩ := h
  have hinv := inv_of_run hspill inv_start hrun
  obtain ⟨place, object, hobject, hcall⟩ := hput.leftover hspill hinv hleaves
  exact hnothing.objects place object hobject hcall

end Failed

def spillQueue : RingQueue :=
  .ofNew 4 65536 (some 0) someCreator small_lt_word

/-- One thread puts one byte, and its spill fails like this. -/
def failingSpill (left : Option Bytes) : List Action := [.act 0 (.spill (.failed left))]

theorem failedPut_failingSpill (left : Option Bytes) : ∃ begun last,
    FailedPut spillQueue (fun _ ↦ 0) .start begun last 0 (failingSpill left) := by
  have hruns : ∃ begun last,
      step spillQueue (fun _ ↦ 0) .start (.act 0 (.putBegin [7] .forever true)) = some begun ∧
        ((machine spillQueue fun _ ↦ 0).restrict (inCall 0)).runFrom begun (failingSpill left) =
          some last ∧ last.phase 0 = .idle ∧ last.putReturns = [] := by
    cases left <;> exact ⟨_, _, rfl, rfl, rfl, rfl⟩
  obtain ⟨begun, last, hbegin, hrun, hidle, hreturns⟩ := hruns
  exact ⟨begun, last, ⟨[7], .forever, true, hbegin⟩, hrun, hidle, by simp [hreturns]⟩

/-- A spill whose file could not be made leaves nothing. -/
theorem put_leaves_nothing_unmade : ∃ begun last,
    FailedPut spillQueue (fun _ ↦ 0) .start begun last 0 (failingSpill none) ∧
      LeavesNothing spillQueue (fun _ ↦ 0) .start begun last 0 (failingSpill none) := by
  obtain ⟨begun, last, hput⟩ := failedPut_failingSpill none
  refine ⟨begun, last, hput, (put_leaves_nothing_iff .refl hput).1 ?_⟩
  rintro ⟨move, hmem, hleaves⟩
  simp only [failingSpill, List.mem_singleton, Action.act.injEq, true_and] at hmem
  rw [hmem] at hleaves
  cases hleaves

/-- The file of one byte is made, its write fails, and it stays. -/
theorem not_put_leaves_nothing : ¬ ∀ (queue : RingQueue) (pid : ℕ → UInt32) (state begun last : State)
    (thread : ℕ) (actions : List Action), (machine queue pid).Reachable state →
    FailedPut queue pid state begun last thread actions →
      LeavesNothing queue pid state begun last thread actions := by
  intro hall
  obtain ⟨begun, last, hput⟩ := failedPut_failingSpill (some [])
  have hnothing := hall spillQueue (fun _ ↦ 0) .start begun last 0 (failingSpill (some [])) .refl hput
  obtain ⟨place, object, hobject, hcall⟩ := hput.leftover (by decide) inv_start
    ⟨.spill (.failed (some [])), List.mem_singleton_self _, rfl⟩
  exact hnothing.objects place object hobject hcall

end GpuPipe.Ring
