import GpuPipe.Lifecycle.Start

/-!
# Pushing an item to an earlier stage

A worker's `push(stage, item)` takes a stage by index, name, class or instance. `_make_push` resolves it
to one of the pipeline's queues, `_seq_push` of the sequential mode to a stage number for its pending list.
What `repr` shows of a stage, and how each put goes, is given.
-/

namespace GpuPipe.Push

/-- A stage argument; a class and an instance count by the `__name__` of the class. -/
inductive StageArg
  | bool (value : Bool)
  | int (index : ℤ)
  | str (name : String)
  | cls (name : String)
  | object (typeName : String)
  deriving DecidableEq

inductive Error
  | typeError (message : String)
  | valueError (message : String)
  | indexError
  deriving DecidableEq

/-- How a push ends: with an error, with `False`, or with the item at its target. -/
inductive Pushed (Target Item : Type*)
  | raised (error : Error)
  | dropped
  | landed (target : Target) (item : Item)
  deriving DecidableEq

/-- What one turn of the put loop finds: the stop flag, a full queue, the deadline gone by. -/
structure Attempt where
  stopped : Bool
  full : Bool
  expired : Bool

section Parallel

variable {Queue Item : Type*} (repr : StageArg → String) (allQueues : List Queue) (stageNames : List String)

def setdefault (dict : String → Option ℕ) (key : String) (value : ℕ) : String → Option ℕ :=
  if (dict key).isSome then dict else Function.update dict key (some value)

/-- `name_to_idx`: the first match wins. -/
def nameToIdx : String → Option ℕ :=
  stageNames.zipIdx.foldl (fun dict entry ↦ setdefault dict entry.1 entry.2) fun _ ↦ none

def resolve (stage : StageArg) : Except Error ℤ :=
  match stage with
  | .bool _ => .error (.typeError "push: stage must be an index, name, or class")
  | .int idx => .ok idx
  | .str name | .cls name | .object name =>
    match nameToIdx stageNames name with
    | some idx => .ok idx
    | none => .error (.valueError s!"push: unknown stage {repr stage}")

/-- The queue a push puts to. -/
def target (stage : StageArg) : Except Error Queue :=
  match resolve repr stageNames stage with
  | .error error => .error error
  | .ok idx =>
    if idx ≤ 0 ∨ allQueues.length + 1 ≤ idx then
      .error (.valueError s!"push: stage {repr stage} (idx {idx}) has no input queue to push to")
    else
      -- the input queue of stage `idx` is the output of `idx - 1`
      match allQueues[(idx - 1).toNat]? with
      | some queue => .ok queue
      | none => .error .indexError

/-- The put loop; `none` while it has not ended. -/
def place (queue : Queue) (item : Item) : List Attempt → Option (Pushed Queue Item)
  | [] => none
  | attempt :: rest =>
    if attempt.stopped then some .dropped
    else if attempt.full then
      if attempt.expired then some .dropped else place queue item rest
    else some (.landed queue item)

def placeNow (queue : Queue) (item : Item) : List Attempt → Option (Pushed Queue Item)
  | [] => none
  | attempt :: _ => if attempt.full then some .dropped else some (.landed queue item)

def push (stage : StageArg) (item : Option Item) (block : Bool) (attempts : List Attempt) :
    Option (Pushed Queue Item) :=
  match item with
  | none => some .dropped
  | some item =>
    match target repr allQueues stageNames stage with
    | .error error => some (.raised error)
    | .ok queue => if block then place queue item attempts else placeNow queue item attempts

end Parallel

section Sequential

variable {Item : Type*} (repr : StageArg → String) (seqStageNames : List String)

def seqResolve (stage : StageArg) : Except Error ℤ :=
  match stage with
  | .bool _ => .error (.typeError "push: stage must be an index, name, or class")
  | .int idx => .ok idx
  | .str name | .cls name | .object name =>
    match seqStageNames.idxOf? name with
    | some idx => .ok idx
    | none => .error (.valueError s!"{repr (.str name)} is not in list")

/-- `_seq_push`; a push that lands is appended to `pending_items`. -/
def seqPush (stage : StageArg) (item : Option Item) : Pushed ℕ Item :=
  match item with
  | none => .dropped
  | some item =>
    match seqResolve repr seqStageNames stage with
    | .error error => .raised error
    | .ok idx =>
      if idx ≤ 0 ∨ seqStageNames.length ≤ idx then
        .raised (.valueError s!"push: stage {repr stage} (idx {idx}) has no input to push to")
      else .landed idx.toNat item

end Sequential

section Names

variable {names : List String} {name : String}

/-- The stage an argument denotes: the one with this index, or the first with this name. -/
def StageArg.Denotes (names : List String) (idx : ℤ) : StageArg → Prop
  | bool _ => False
  | int index => idx = index
  | str name | cls name | object name => ∃ first : ℕ, names.idxOf? name = some first ∧ idx = first

theorem foldl_setdefault (names : List String) (name : String) (first : ℕ) (dict : String → Option ℕ) :
    (names.zipIdx first).foldl (fun dict entry ↦ setdefault dict entry.1 entry.2) dict name =
      (dict name).or ((names.idxOf? name).map (· + first)) := by
  induction names generalizing first dict with
  | nil => simp
  | cons other rest ih =>
    rw [List.zipIdx_cons, List.foldl_cons, ih, setdefault, List.idxOf?_cons]
    rcases eq_or_ne other name with rfl | hne
    · cases hdict : dict other <;> simp [hdict]
    · have hshift : (rest.idxOf? name).map (· + (first + 1)) =
          ((rest.idxOf? name).map (· + 1)).map (· + first) := by
        rw [Option.map_map]
        congr 1
        funext idx
        simp only [Function.comp_apply]
        omega
      rw [hshift]
      split <;> simp [hne, hne.symm]

/-- The dictionary gives the first stage of a name, as `list.index` does. -/
theorem nameToIdx_eq (names : List String) (name : String) : nameToIdx names name = names.idxOf? name := by
  have hfold := foldl_setdefault names name 0 fun _ ↦ none
  rw [nameToIdx, hfold]
  simp

theorem idxOf?_lt {idx : ℕ} (h : names.idxOf? name = some idx) : idx < names.length := by
  obtain ⟨hlt, -⟩ := List.idxOf?_eq_some_iff.mp h
  exact hlt

/-- The resolver of a mode finds what the argument denotes, or raises when it denotes nothing. -/
def Resolves (names : List String) (stage : StageArg) (result : Except Error ℤ) : Prop :=
  match result with
  | .ok idx => ∀ other, stage.Denotes names other ↔ other = idx
  | .error _ => ∀ idx, ¬ stage.Denotes names idx

variable {repr : StageArg → String} {stage : StageArg}

theorem resolves_int (idx : ℤ) : Resolves names (.int idx) (.ok idx) := fun _ ↦ Iff.rfl

theorem resolves_name {first : ℕ} (hname : ∀ idx, stage.Denotes names idx ↔
    ∃ first : ℕ, names.idxOf? name = some first ∧ idx = first) (hfirst : names.idxOf? name = some first) :
    Resolves names stage (.ok first) := by
  intro other
  rw [hname, hfirst]
  simp

theorem resolves_unknown {error : Error} (hname : ∀ idx, stage.Denotes names idx ↔
    ∃ first : ℕ, names.idxOf? name = some first ∧ idx = first) (hnone : names.idxOf? name = none) :
    Resolves names stage (.error error) := by
  intro idx hdenotes
  obtain ⟨first, hfirst, -⟩ := (hname idx).mp hdenotes
  rw [hnone] at hfirst
  cases hfirst

/-- The resolver of the parallel mode finds the stage that the argument denotes. -/
theorem resolve_resolves (repr : StageArg → String) (names : List String) (stage : StageArg) :
    Resolves names stage (resolve repr names stage) := by
  cases stage with
  | bool => exact fun _ ↦ not_false
  | int idx => exact resolves_int idx
  | str name | cls name | object name =>
    simp only [resolve, nameToIdx_eq]
    cases hname : names.idxOf? name with
    | none => exact resolves_unknown (fun _ ↦ Iff.rfl) hname
    | some first => exact resolves_name (fun _ ↦ Iff.rfl) hname

/-- So does that of the sequential mode. -/
theorem seqResolve_resolves (repr : StageArg → String) (names : List String) (stage : StageArg) :
    Resolves names stage (seqResolve repr names stage) := by
  cases stage with
  | bool => exact fun _ ↦ not_false
  | int idx => exact resolves_int idx
  | str name | cls name | object name =>
    simp only [seqResolve]
    cases hname : names.idxOf? name with
    | none => exact resolves_unknown (fun _ ↦ Iff.rfl) hname
    | some first => exact resolves_name (fun _ ↦ Iff.rfl) hname

theorem denotes_unique {idx other : ℤ} (h : stage.Denotes names idx) (h' : stage.Denotes names other) :
    idx = other := by
  have hresolves := resolve_resolves (fun _ ↦ "") names stage
  cases hresult : resolve (fun _ ↦ "") names stage with
  | error error =>
    rw [hresult] at hresolves
    exact absurd h (hresolves idx)
  | ok result =>
    rw [hresult] at hresolves
    rw [(hresolves idx).mp h, (hresolves other).mp h']

end Names

section Agreement

variable {Queue Item : Type*} {repr : StageArg → String} {queues : List Queue} {names : List String}
  {stage : StageArg}

/-- A push of the parallel mode reaches the input queue of what its argument denotes, up to one stage
further than there are. -/
inductive Targets (queues : List Queue) (names : List String) (stage : StageArg) : Except Error Queue → Prop
  | ok {idx : ℕ} {queue : Queue} (hdenotes : stage.Denotes names (idx + 1 : ℕ))
      (hqueue : queues[idx]? = some queue) : Targets queues names stage (.ok queue)
  | error {error : Error} (hnone : ∀ idx : ℤ, stage.Denotes names idx → ¬ (1 ≤ idx ∧ idx ≤ queues.length)) :
      Targets queues names stage (.error error)

/-- A stage with an input has its queue in the parallel mode, and one index more is let through. -/
theorem target_targets (repr : StageArg → String) (queues : List Queue) (names : List String)
    (stage : StageArg) : Targets queues names stage (target repr queues names stage) := by
  have hresolves := resolve_resolves repr names stage
  rw [target]
  split
  · rename_i hresult
    rw [hresult] at hresolves
    exact .error fun idx hdenotes ↦ absurd hdenotes (hresolves idx)
  · rename_i idx hresult
    rw [hresult] at hresolves
    split
    · refine .error fun other hother ↦ ?_
      rw [(hresolves other).mp hother]
      omega
    · have hlt : (idx - 1).toNat < queues.length := by omega
      rw [List.getElem?_eq_getElem hlt]
      refine .ok ?_ (List.getElem?_eq_getElem hlt)
      rw [hresolves]
      omega

/-- A push of the sequential mode goes to the stage its argument denotes, if that has an input. -/
inductive SeqTargets (names : List String) (stage : StageArg) (item : Item) : Pushed ℕ Item → Prop
  | landed {idx : ℕ} (hdenotes : stage.Denotes names idx) (hinput : 1 ≤ idx ∧ idx < names.length) :
      SeqTargets names stage item (.landed idx item)
  | raised {error : Error} (hnone : ∀ idx : ℤ, stage.Denotes names idx → ¬ (1 ≤ idx ∧ idx < names.length)) :
      SeqTargets names stage item (.raised error)

/-- In the sequential mode the item goes to the stage that is denoted. -/
theorem seqPush_targets (repr : StageArg → String) (names : List String) (stage : StageArg) (item : Item) :
    SeqTargets names stage item (seqPush repr names stage (some item)) := by
  have hresolves := seqResolve_resolves repr names stage
  simp only [seqPush]
  split
  · rename_i hresult
    rw [hresult] at hresolves
    exact .raised fun idx hdenotes ↦ absurd hdenotes (hresolves idx)
  · rename_i idx hresult
    rw [hresult] at hresolves
    split
    · refine .raised fun other hother ↦ ?_
      rw [(hresolves other).mp hother]
      omega
    · refine .landed ?_ (by omega)
      rw [hresolves]
      omega

theorem place_ne_raised (queue : Queue) (item : Item) (attempts : List Attempt) (error : Error) :
    place queue item attempts ≠ some (.raised error) := by
  induction attempts with
  | nil => exact nofun
  | cons attempt rest ih =>
    rw [place]
    split
    · exact nofun
    · split
      · split
        · exact nofun
        · exact ih
      · exact nofun

theorem placeNow_ne_raised (queue : Queue) (item : Item) (attempts : List Attempt) (error : Error) :
    placeNow queue item attempts ≠ some (.raised error) := by
  cases attempts with
  | nil => exact nofun
  | cons attempt rest =>
    rw [placeNow]
    split <;> exact nofun

theorem place_landed {queue target : Queue} {item landed : Item} {attempts : List Attempt}
    (h : place queue item attempts = some (.landed target landed)) : target = queue ∧ landed = item := by
  induction attempts with
  | nil => cases h
  | cons attempt rest ih =>
    rw [place] at h
    split at h
    · cases h
    · split at h
      · split at h
        · cases h
        · exact ih h
      · cases h
        exact ⟨rfl, rfl⟩

theorem placeNow_landed {queue target : Queue} {item landed : Item} {attempts : List Attempt}
    (h : placeNow queue item attempts = some (.landed target landed)) : target = queue ∧ landed = item := by
  cases attempts with
  | nil => cases h
  | cons attempt rest =>
    rw [placeNow] at h
    split at h
    · cases h
    · cases h
      exact ⟨rfl, rfl⟩

end Agreement

section Modes

variable {Item : Type*} {repr : StageArg → String} {pipe : Start.Pipe} {names : List String}
  {stage : StageArg} {item : Item} {block : Bool} {attempts : List Attempt}

/-- The two modes accept the same: a stage that has an input. And what lands, lands in the queue that this
stage reads. -/
structure Agrees (repr : StageArg → String) (pipe : Start.Pipe) (names : List String) (stage : StageArg)
    (item : Item) (block : Bool) (attempts : List Attempt) : Prop where
  accepts : (∀ error, push repr pipe.queues names stage (some item) block attempts ≠ some (.raised error)) ↔
    ∃ idx, seqPush repr names stage (some item) = .landed idx item
  denotes : (∃ idx, seqPush repr names stage (some item) = .landed idx item) ↔
    ∃ idx : ℕ, stage.Denotes names idx ∧ 1 ≤ idx ∧ idx < names.length
  delivers : ∀ idx, seqPush repr names stage (some item) = .landed idx item →
    ∃ queue, (Start.stageOf pipe idx).inQueue = some queue ∧ ∀ target landed,
      push repr pipe.queues names stage (some item) block attempts = some (.landed target landed) →
        target = queue ∧ landed = item
  lands : ∀ idx, seqPush repr names stage (some item) = .landed idx item → ∀ attempt rest,
    attempts = attempt :: rest → attempt.stopped = false → attempt.full = false →
      ∃ queue, push repr pipe.queues names stage (some item) block attempts = some (.landed queue item)

/-- The only argument that denotes the stage after the last one is its number. -/
theorem eq_int_of_denotes (h : stage.Denotes names names.length) : stage = .int names.length := by
  cases stage with
  | bool => cases h
  | int index => rw [show index = names.length from h.symm]
  | str name | cls name | object name =>
    obtain ⟨first, hfirst, hlength⟩ := h
    have hlt := idxOf?_lt hfirst
    omega

theorem push_ok {queue : Start.Queue} (h : target repr pipe.queues names stage = .ok queue) :
    push repr pipe.queues names stage (some item) block attempts =
      if block then place queue item attempts else placeNow queue item attempts := by
  simp only [push, h]

/-- A push that has found its queue raises nothing any more. -/
theorem push_accepted {queue : Start.Queue} (h : target repr pipe.queues names stage = .ok queue)
    (error : Error) :
    push repr pipe.queues names stage (some item) block attempts ≠ some (.raised error) := by
  rw [push_ok h]
  split
  · exact place_ne_raised queue item attempts error
  · exact placeNow_ne_raised queue item attempts error

/-- What lands is the item, and it lands in the queue that was found. -/
theorem push_landed {queue target' : Start.Queue} {landed : Item}
    (h : target repr pipe.queues names stage = .ok queue)
    (hlanded : push repr pipe.queues names stage (some item) block attempts =
      some (.landed target' landed)) : target' = queue ∧ landed = item := by
  rw [push_ok h] at hlanded
  split at hlanded
  · exact place_landed hlanded
  · exact placeNow_landed hlanded

theorem push_lands {queue : Start.Queue} (h : target repr pipe.queues names stage = .ok queue)
    {attempt : Attempt} {rest : List Attempt} (hgo : attempt.stopped = false) (hroom : attempt.full = false) :
    push repr pipe.queues names stage (some item) block (attempt :: rest) =
      some (.landed queue item) := by
  rw [push_ok h, place, placeNow]
  simp [hgo, hroom]

theorem agrees_accepted {queue : Start.Queue} {idx : ℕ} (h : target repr pipe.queues names stage = .ok queue)
    (hseq : seqPush repr names stage (some item) = .landed idx item) (hdenotes : stage.Denotes names idx)
    (hinput : 1 ≤ idx ∧ idx < names.length) (hqueue : pipe.queues[idx - 1]? = some queue) :
    Agrees repr pipe names stage item block attempts where
  accepts := ⟨fun _ ↦ ⟨idx, hseq⟩, fun _ ↦ push_accepted h⟩
  denotes := ⟨fun _ ↦ ⟨idx, hdenotes, hinput⟩, fun _ ↦ ⟨idx, hseq⟩⟩
  delivers := by
    intro idx' hseq'
    rw [hseq, Pushed.landed.injEq] at hseq'
    obtain ⟨rfl, -⟩ := hseq'
    refine ⟨queue, ?_, fun target landed ↦ push_landed h⟩
    rw [Start.stageOf, if_pos (Nat.zero_lt_of_lt hinput.1)]
    exact hqueue
  lands := by
    rintro _ _ attempt rest rfl hgo hroom
    exact ⟨queue, push_lands h hgo hroom⟩

theorem agrees_raised {error error' : Error} (h : target repr pipe.queues names stage = .error error)
    (hseq : seqPush repr names stage (some item) = .raised error')
    (hnone : ∀ idx : ℤ, stage.Denotes names idx → ¬ (1 ≤ idx ∧ idx < names.length)) :
    Agrees repr pipe names stage item block attempts where
  accepts := by
    rw [hseq]
    constructor
    · intro haccepts
      exact absurd (by simp only [push, h]) (haccepts error)
    · rintro ⟨idx, hidx⟩
      cases hidx
  denotes := by
    rw [hseq]
    constructor
    · rintro ⟨idx, hidx⟩
      cases hidx
    · rintro ⟨idx, hdenotes, hinput⟩
      exact absurd ⟨by omega, by omega⟩ (hnone idx hdenotes)
  delivers idx hidx := by
    rw [hseq] at hidx
    cases hidx
  lands idx hidx := by
    rw [hseq] at hidx
    cases hidx

/-- `_make_push` lets one argument through that `_seq_push` does not: the number of stages. It goes to the
last stage's output. -/
theorem agrees_iff (repr : StageArg → String) (pipe : Start.Pipe) (names : List String)
    (hqueues : pipe.queues.length = names.length) (hnames : names ≠ []) (stage : StageArg) (item : Item)
    (block : Bool) (attempts : List Attempt) :
    Agrees repr pipe names stage item block attempts ↔ stage ≠ .int names.length := by
  have hpos : 0 < names.length := List.length_pos_of_ne_nil hnames
  have htarget := target_targets repr pipe.queues names stage
  have hseqTarget := seqPush_targets repr names stage item
  generalize hresult : target repr pipe.queues names stage = result at htarget
  generalize hseq : seqPush repr names stage (some item) = pushed at hseqTarget
  cases htarget with
  | @ok idx queue hdenotes hqueue =>
    have hlt : idx < pipe.queues.length := (List.getElem?_eq_some_iff.mp hqueue).1
    cases hseqTarget with
    | @landed idx' hdenotes' hinput =>
      have hidx : idx' = idx + 1 := by exact_mod_cast denotes_unique hdenotes' hdenotes
      subst hidx
      refine iff_of_true (agrees_accepted hresult hseq hdenotes' hinput hqueue) ?_
      rintro rfl
      have hlength : ((idx + 1 : ℕ) : ℤ) = names.length := hdenotes
      omega
    | raised hnone =>
      have hlast : idx + 1 = names.length := by
        have hout := hnone _ hdenotes
        omega
      rw [hlast] at hdenotes
      refine iff_of_false ?_ (not_not.mpr (eq_int_of_denotes hdenotes))
      intro hagrees
      obtain ⟨idx', hidx'⟩ := hagrees.accepts.mp (push_accepted hresult)
      rw [hseq] at hidx'
      cases hidx'
  | error hnone =>
    cases hseqTarget with
    | @landed idx' hdenotes' hinput =>
      exact absurd ⟨by omega, by omega⟩ (hnone idx' hdenotes')
    | raised hnone' =>
      refine iff_of_true (agrees_raised hresult hseq hnone') ?_
      rintro rfl
      exact absurd ⟨by omega, by omega⟩ (hnone names.length rfl)

def threeStages : Start.Pipe :=
  (Start.start (.new (List.replicate 3 ⟨true, none, none, 0, false, false, 1⟩) false) none).2

/-- The queue is full at the first attempt and has room at the second. -/
def secondAttempt : List Attempt := [⟨false, true, false⟩, ⟨false, false, false⟩]

/-- A push by name waits for room once and lands. -/
theorem agrees_secondAttempt :
    push (fun _ ↦ "'stamp'") threeStages.queues ["gen", "stamp", "sink"] (.str "stamp") (some 7) true secondAttempt =
        threeStages.queues.head?.map (Pushed.landed · 7) ∧
      (Agrees (fun _ ↦ "'stamp'") threeStages ["gen", "stamp", "sink"] (.str "stamp") 7 true secondAttempt ↔
        StageArg.str "stamp" ≠ .int 3) :=
  ⟨by decide,
    agrees_iff _ threeStages ["gen", "stamp", "sink"] (by decide) (by decide) (.str "stamp") 7 true secondAttempt⟩

/-- Stage 3 of three stages is the pipeline's output in one mode and an error in the other. -/
theorem not_agrees :
    threeStages.queues.length = 3 ∧
    ¬ Agrees (fun _ ↦ "3") threeStages ["gen", "stamp", "sink"] (.int 3) 7 true [⟨false, false, false⟩] ∧
    ∃ queue, threeStages.queues.getLast? = some queue ∧
      push (fun _ ↦ "3") threeStages.queues ["gen", "stamp", "sink"] (.int 3) (some 7) true
        [⟨false, false, false⟩] = some (.landed queue 7) := by
  have hlanded : push (fun _ ↦ "3") threeStages.queues ["gen", "stamp", "sink"] (.int 3) (some 7) true
      [⟨false, false, false⟩] = some (.landed ⟨8, 0⟩ 7) := by decide
  refine ⟨by decide, ?_, ⟨8, 0⟩, by decide, hlanded⟩
  intro hagrees
  obtain ⟨idx, hidx⟩ := hagrees.accepts.mp fun error herror ↦ by
    rw [hlanded] at herror
    cases herror
  exact absurd hidx (by simp [seqPush, seqResolve])

end Modes

end GpuPipe.Push
