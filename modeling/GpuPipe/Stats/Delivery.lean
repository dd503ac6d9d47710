import GpuPipe.Library.Raising
import GpuPipe.Stats.Process

/-!
# Statistics beside delivery

A turn of a stage's loop is compared with the turn in which everything lasts zero seconds. The two deliver the
same, whatever the world outside does, just when every value that is looked at lasts a number and this can be
added to the total so far.
-/

namespace GpuPipe.Stats

/-- What a turn delivers. -/
structure Delivery (F A : Type) where
  sent : List (Value F A)
  ending : Ending

inductive Loop
  | workerRun
  | threadLoop

variable {F A : Type}

/-- The inputs, with the frames left to look at each. -/
def Inputs.looked (frames : ℕ) : Inputs F A → List (ℕ × Value F A)
  | .batch items => items.map fun item ↦ (frames - 1, item)
  | .single item => [(frames, item)]

/-- The values that the statistics of a call look at, with the frames left to each. -/
def Call.accounted (timing : Bool) (frames : ℕ) : Call F A → List (ℕ × Value F A)
  | .root (.generator items _) => if timing then (validItems items).map fun item ↦ (frames - 2, item) else []
  | .root (.value result) =>
    if timing && !(validItems result.toList).isEmpty then [(frames, .list (validItems result.toList))] else []
  | .middle inputs (.generator _ _) => inputs.looked frames
  | .middle inputs (.value result) =>
    inputs.looked frames ++ if timing && !result.isNull then [(frames, .list result.toList)] else []
  | .root (.raises _) | .middle _ (.raises _) => []

variable [Floats F] [Objects F A]

def Loop.turn : Loop → Extract F A → Stage → World F A → Call F A → Locals F A → Ending × Locals F A
  | .workerRun => Stats.workerRun
  | .threadLoop => Stats.threadLoop

def deliver (loop : Loop) (extract : Extract F A) (stage : Stage) (world : World F A) (call : Call F A)
    (s : Locals F A) : Delivery F A :=
  let (ending, s) := loop.turn extract stage world call s
  ⟨s.sent, ending⟩

/-- The calls one after another, until one ends the loop. -/
def deliveries (loop : Loop) (extract : Extract F A) (stage : Stage) :
    List (World F A × Call F A) → Locals F A → List (Delivery F A)
  | [], _ => []
  | (world, call) :: rest, s =>
    let (ending, s) := loop.turn extract stage world call s
    ⟨s.sent, ending⟩ :: if ending.continues then deliveries loop extract stage rest s else []

def start : Locals F A := ⟨0, .num .zero, none, 0, []⟩

def quiet : Extract F A := fun _ _ ↦ some (.num (.int 0))

/-- Statistics do not change what a call delivers that finds the loop like this: what they look at lasts a
number, and the turn ends as it does in a quiet run, whose total is a float. -/
structure Inert (timing : Bool) (frames : ℕ) (call : Call F A) (s : Locals F A) : Prop where
  extracts : ∀ looked ∈ call.accounted timing frames,
    ∃ d, extractAudioDuration looked.1 looked.2 = some d ∧ d.isNumber = true
  delivers : ∀ loop outQueue raiseErrors world x,
    deliver loop extractAudioDuration ⟨timing, outQueue, raiseErrors, frames⟩ world call s =
      deliver loop quiet ⟨timing, outQueue, raiseErrors, frames⟩ world call { s with audio := .num (.float x) }

/-! ## When they do not -/

/-- A number that the value lasts. -/
def LastsNumber (frames : ℕ) (value d : Value F A) : Prop :=
  Lasts frames value d ∧ d.isNumber = true

/-- The inputs of a call last `d`, all together. -/
inductive Inputs.Last (frames : ℕ) : Inputs F A → Value F A → Prop
  | single {item d : Value F A} (h : Lasts frames item d) : Last frames (.single item) d
  | batch {items ds : List (Value F A)} {d : Value F A} (h : EachLasts (frames - 1) items ds)
      (hsum : Value.sum ds = some d) : Last frames (.batch items) d

/-- `e or d` can be added to the total. -/
def AddsOr (audio e d : Value F A) : Prop :=
  ∃ truth, e.truth = some truth ∧ (audio.add (if truth then e else d)).isSome = true

/-- What the statistics need of a call that comes when the seconds so far add up to `audio`. -/
def Call.Timed (timing : Bool) (frames : ℕ) (audio : Value F A) : Call F A → Prop
  | .root (.generator items _) =>
    timing = true → ∃ ds, List.Forall₂ (LastsNumber (frames - 2)) (validItems items) ds ∧
      (audio.addAll ds).isSome = true
  | .root (.value result) =>
    timing = true → validItems result.toList ≠ [] →
      ∃ d, LastsNumber frames (.list (validItems result.toList)) d ∧ (audio.add d).isSome = true
  | .middle inputs (.generator items fin) =>
    -- A generator that raises at once does what a failing sum does.
    (∀ looked ∈ inputs.looked frames, ∃ d, LastsNumber looked.1 looked.2 d) ∧
      (items ≠ [] ∨ fin ≠ some .error → ∃ d, inputs.Last frames d) ∧
      (timing = true → items ≠ [] ∨ fin = none → ∃ d, inputs.Last frames d ∧ (audio.add d).isSome = true)
  | .middle inputs (.value result) =>
    (∀ looked ∈ inputs.looked frames, ∃ d, LastsNumber looked.1 looked.2 d) ∧
      ∃ d, inputs.Last frames d ∧ (timing = true → result.isNull = false →
        ∃ e, LastsNumber frames (.list result.toList) e ∧ AddsOr audio e d)
  | .root (.raises _) | .middle _ (.raises _) => True

/-- Each call of the run finds a total that it can add to. -/
def TimedRun (loop : Loop) (stage : Stage) : List (World F A × Call F A) → Locals F A → Prop
  | [], _ => True
  | (world, call) :: rest, s =>
    call.Timed stage.timing stage.frames s.audio ∧
      ((loop.turn extractAudioDuration stage world call s).1.continues = true →
        TimedRun loop stage rest (loop.turn extractAudioDuration stage world call s).2)

/-! ## Two turns side by side -/

/-- The same but for the seconds: on the left these can still be added, on the right is a float. -/
structure Alike (owed : List (Value F A)) (s t : Locals F A) : Prop where
  items : s.items = t.items
  drained : s.drained = t.drained
  sent : s.sent = t.sent
  adds : (s.audio.addAll owed).isSome = true
  float : ∃ y, t.audio = .num (.float y)

theorem Alike.rest {owed : List (Value F A)} {s t : Locals F A} (h : Alike owed s t) : Alike [] s t :=
  ⟨h.items, h.drained, h.sent, rfl, h.float⟩

theorem addAudio_eq {s : Locals F A} {d : Value F A} :
    addAudio d s = match s.audio.add d with
      | some total => .ok ⟨⟩ { s with audio := total }
      | none => .error .error s := by
  change EStateM.bind _ _ _ = _
  unfold EStateM.bind
  cases h : s.audio.add d <;> rfl

/-- What the loop does beside the seconds. -/
abbrev Agrees {α : Type} (owed : List (Value F A)) (x y : Body F A α) : Prop :=
  Agree (Alike owed) x y (Alike owed) (Alike owed)

theorem Alike.keep {owed : List (Value F A)} {s t s' t' : Locals F A} (h : Alike owed s t)
    (hitems : s'.items = t'.items) (hdrained : s'.drained = t'.drained) (hsent : s'.sent = t'.sent)
    (hleft : s'.audio = s.audio) (hright : t'.audio = t.audio) : Alike owed s' t' :=
  ⟨hitems, hdrained, hsent, hleft ▸ h.adds, hright ▸ h.float⟩

theorem Agrees.rest {α : Type} {owed : List (Value F A)} {x y : Body F A α} (h : Agrees owed x y) :
    Agree (Alike owed) x y (Alike owed) (Alike []) :=
  h.weaken (fun _ _ hst ↦ hst) fun _ _ hst ↦ hst.rest

/-- Adding the seconds of an item and adding zero differ in the total alone. -/
theorem agree_addAudio (d : Value F A) (owed : List (Value F A)) :
    Agree (Alike (d :: owed)) (addAudio d : Body F A PUnit) (addAudio (.num (.int 0))) (Alike owed)
      (Alike []) := by
  intro s t hst
  obtain ⟨y, hy⟩ := hst.float
  obtain ⟨z, hz⟩ := Num.add_int_zero y
  have hquiet : t.audio.add (.num (.int 0)) = some (.num (.float z)) := by
    rw [hy, Value.add, hz]
    rfl
  have hadds := hst.adds
  rw [Value.addAll_cons] at hadds
  rw [addAudio_eq, addAudio_eq, hquiet]
  cases hadd : s.audio.add d with
  | none =>
    rw [hadd] at hadds
    cases hadds
  | some total =>
    rw [hadd] at hadds
    exact .ok _ ⟨hst.items, hst.drained, hst.sent, hadds, ⟨z, rfl⟩⟩

section

variable {stage : Stage} {world : World F A} {owed : List (Value F A)}

theorem agree_countItems (n : ℕ) : Agrees owed (countItems n : Body F A PUnit) (countItems n) :=
  .modify fun _ _ h ↦ h.keep (congrArg (· + n) h.items) h.drained h.sent rfl rfl

theorem agree_publish : Agrees owed (publish world) (publish world) := by
  unfold publish
  split
  · exact .throw _ fun _ _ h ↦ h
  · exact .modify fun _ _ h ↦ h.keep h.items h.drained h.sent rfl rfl

theorem agree_publishTenth : Agrees owed (publishTenth world) (publishTenth world) := by
  refine .get fun s t h ↦ ?_
  rw [h.items]
  split
  · exact agree_publish s t h
  · exact .ok _ h

theorem agree_keepStats {x y : Body F A PUnit} {owed' : List (Value F A)}
    (htimed : stage.timing = true → Agree (Alike owed) x y (Alike owed') (Alike []))
    (huntimed : stage.timing = false → ∀ s t, Alike owed s t → Alike owed' s t) :
    Agree (Alike owed) (stage.keepStats x) (stage.keepStats y) (Alike owed') (Alike []) := by
  unfold Stage.keepStats
  split
  · exact htimed ‹_›
  · rename_i htiming
    exact .pure _ (huntimed (by simpa using htiming))

theorem agree_emit (index : ℕ) (item : Value F A) :
    Agrees owed (stage.emit world index item) (stage.emit world index item) := by
  unfold Stage.emit
  split
  · unfold emit
    split
    · exact .throw _ fun _ _ h ↦ h
    · exact .modify fun _ _ h ↦ h.keep h.items h.drained (congrArg (· ++ [item]) h.sent) rfl rfl
  · exact .pure _ fun _ _ h ↦ h

theorem agree_emitAll (items : List (Value F A × ℕ)) :
    Agrees owed (emitAll stage world items) (emitAll stage world items) := by
  induction items with
  | nil => exact .pure _ fun _ _ h ↦ h
  | cons item items ih => exact (agree_emit item.2 item.1).bind fun _ ↦ ih

theorem agree_end (fin : Option Exc) :
    Agrees owed (match fin with | some exc => throw exc | none => pure ⟨⟩ : Body F A PUnit)
      (match fin with | some exc => throw exc | none => pure ⟨⟩) := by
  cases fin with
  | none => exact .pure _ fun _ _ h ↦ h
  | some exc => exact .throw exc fun _ _ h ↦ h

theorem agree_emitGenerated (fin : Option Exc) (items : List (Value F A × ℕ)) :
    Agrees owed (emitGenerated stage world fin items) (emitGenerated stage world fin items) := by
  induction items with
  | nil => exact agree_end fin
  | cons item items ih =>
    unfold emitGenerated
    split
    · exact .pure _ fun _ _ h ↦ h
    · split
      · exact ih
      · exact (agree_emit item.2 item.1).bind fun _ ↦ ih

end

section

variable {stage : Stage} {world : World F A}

/-- What counting these items adds to the total, if they are to be counted. -/
def Owes (stage : Stage) (items ds : List (Value F A)) : Prop :=
  if stage.timing then EachLasts (stage.frames - 2) items ds else ds = []

theorem Owes.cons {item : Value F A} {items ds : List (Value F A)} (h : Owes stage (item :: items) ds) :
    ∃ owed, Owes stage items owed ∧
      Agree (Alike ds) (count extractAudioDuration stage item) (count quiet stage item) (Alike owed)
        (Alike []) := by
  cases htiming : stage.timing with
  | false =>
    simp only [Owes, htiming, Bool.false_eq_true, if_false] at h ⊢
    subst h
    refine ⟨[], rfl, agree_keepStats (fun htimed ↦ ?_) fun _ _ _ hst ↦ hst⟩
    rw [htiming] at htimed
    cases htimed
  | true =>
    simp only [Owes, htiming, if_true] at h ⊢
    cases h with
    | @cons _ _ d _ owed h hrest =>
      refine ⟨owed, hrest, agree_keepStats (fun _ ↦ ?_) fun huntimed ↦ ?_⟩
      · refine (agree_countItems 1).rest.bind fun _ ↦ ?_
        rw [(extractAudioDuration_eq_some _ item d).mpr h]
        exact agree_addAudio d owed
      · rw [htiming] at huntimed
        cases huntimed

/-- The drain of a generator sends the same items with and without the seconds, if they can be added. -/
theorem agree_drainLoop (fin : Option Exc) (items : List (Value F A × ℕ)) {ds : List (Value F A)}
    (h : Owes stage (validItems (items.map Prod.fst)) ds) :
    Agree (Alike ds) (drainLoop extractAudioDuration stage world fin items)
      (drainLoop quiet stage world fin items) (Alike []) (Alike []) := by
  induction items generalizing ds with
  | nil => exact (agree_end fin).weaken (fun _ _ hst ↦ hst.rest) fun _ _ hst ↦ hst.rest
  | cons item items ih =>
    rw [List.map_cons, validItems_cons] at h
    unfold drainLoop
    split
    · exact .pure _ fun _ _ hst ↦ hst.rest
    · split
      case isTrue hskip =>
        rw [if_pos hskip] at h
        exact ih h
      case isFalse hvalid =>
        rw [if_neg hvalid] at h
        obtain ⟨owed, hrest, hcount⟩ := h.cons
        refine hcount.bind fun _ ↦ ?_
        refine Agree.bind (.modify fun _ _ h ↦
          h.keep h.items (congrArg (· + 1) h.drained) h.sent rfl rfl) fun _ ↦ ?_
        refine Agree.bind (.tryCatch (agree_emit _ _) fun exc ↦ ?_) fun _ ↦ ih hrest
        split
        · exact .throw exc fun _ _ hst ↦ hst.rest
        · exact .pure _ fun _ _ hst ↦ hst

theorem agree_drainSourceGenerator (fin : Option Exc) (items : List (Value F A)) {ds : List (Value F A)}
    (h : Owes stage (validItems items) ds) :
    Agree (Alike ds) (drainSourceGenerator extractAudioDuration stage world items fin)
      (drainSourceGenerator quiet stage world items fin) (Alike []) (Alike []) := by
  have hitems : Owes stage (validItems (items.zipIdx.map Prod.fst)) ds := by
    rw [List.zipIdx_map_fst]
    exact h
  refine Agree.bind (Q := Alike ds) (.modify fun _ _ h ↦ h.keep h.items rfl h.sent rfl rfl) fun _ ↦ ?_
  refine Agree.bind (Q := Alike []) ?_ fun raised ↦ .get fun s t h ↦ ?_
  · refine .tryCatch ((agree_drainLoop fin _ hitems).bind fun _ ↦ .pure _ fun _ _ hst ↦ hst) fun exc ↦ ?_
    split
    · exact .throw exc fun _ _ hst ↦ hst
    · exact .pure _ fun _ _ hst ↦ hst
  · rw [h.drained]
    exact .ok _ h

end

section

variable {stage : Stage} {world : World F A} {s t : Locals F A}

/-- What can be added to the total is owed to it. -/
theorem Alike.owe (h : Alike [] s t) {owed : List (Value F A)} (hadds : (s.audio.addAll owed).isSome = true) :
    Alike owed s t :=
  ⟨h.items, h.drained, h.sent, hadds, h.float⟩

theorem isSome_addAll_one {audio d : Value F A} (h : (audio.add d).isSome = true) :
    (audio.addAll [d]).isSome = true := by
  obtain ⟨total, htotal⟩ := Option.isSome_iff_exists.mp h
  rw [Value.addAll_cons, htotal]
  rfl

theorem eachLasts_of_numbers {frames : ℕ} {items ds : List (Value F A)}
    (h : List.Forall₂ (LastsNumber frames) items ds) : EachLasts frames items ds := by
  induction h with
  | nil => exact .nil frames
  | cons h _ ih => exact .cons h.1 ih

theorem agree_rootGenerator {items : List (Value F A)} {fin : Option Exc} (hst : Alike [] s t)
    (h : (Call.root (.generator items fin)).Timed stage.timing stage.frames s.audio) :
    Agreed (Alike []) (Alike []) (rootGenerator extractAudioDuration stage world items fin s)
      (rootGenerator quiet stage world items fin t) := by
  obtain ⟨ds, hds, hadds⟩ : ∃ ds, Owes stage (validItems items) ds ∧ (s.audio.addAll ds).isSome = true := by
    cases htiming : stage.timing with
    | false => exact ⟨[], by simp [Owes, htiming], rfl⟩
    | true =>
      obtain ⟨ds, hds, hadds⟩ := h htiming
      refine ⟨ds, ?_, hadds⟩
      simp only [Owes, htiming, if_true]
      exact eachLasts_of_numbers hds
  refine Agree.bind (agree_drainSourceGenerator fin items hds) (fun ⟨raised, sent⟩ ↦ ?_) s t (hst.owe hadds)
  cases raised with
  | true => exact .pure _ fun _ _ h ↦ h
  | false =>
    exact (agree_keepStats (fun _ ↦ agree_publish) fun _ _ _ h ↦ h).bind fun _ ↦ .pure _ fun _ _ h ↦ h

theorem agree_rootValue (writesLists : Bool) {result : Value F A} (hst : Alike [] s t)
    (h : (Call.root (.value result)).Timed stage.timing stage.frames s.audio) :
    Agreed (Alike []) (Alike []) (rootValue extractAudioDuration stage world writesLists result s)
      (rootValue quiet stage world writesLists result t) := by
  unfold rootValue
  split
  · exact .ok _ hst
  split
  · exact .ok _ hst
  refine Agree.bind (P := (· = s ∧ · = t)) (Q := Alike []) (E := Alike []) ?_ (fun _ ↦ (agree_emitAll _).bind fun _ ↦
    .pure _ fun _ _ h ↦ h) s t ⟨rfl, rfl⟩
  rintro _ _ ⟨rfl, rfl⟩
  unfold Stage.keepStats
  split
  · rename_i htiming
    split
    · exact .ok _ hst
    case isFalse hvalid =>
      obtain ⟨d, ⟨hlasts, -⟩, hadds⟩ := h htiming (by simpa using hvalid)
      have hcount : Agrees [d] (countItems (validItems result.toList).length) (countItems _) := agree_countItems _
      rw [(extractAudioDuration_eq_some _ _ d).mpr hlasts]
      refine Agree.bind hcount.rest (fun _ ↦ ?_) _ _ (hst.owe (isSome_addAll_one hadds))
      refine (agree_addAudio d []).bind fun _ ↦ ?_
      split
      · exact agree_publish
      · exact .pure _ fun _ _ h ↦ h
  · exact .ok _ hst

omit world in
theorem Inputs.audio_eq_some (stage : Stage) (inputs : Inputs F A) (d : Value F A) :
    inputs.audio extractAudioDuration stage = some d ↔ inputs.Last stage.frames d := by
  cases inputs with
  | single item =>
    rw [Inputs.audio, extractAudioDuration_eq_some]
    exact ⟨.single, fun | .single h => h⟩
  | batch items =>
    rw [Inputs.audio, ← extractEach_eq_mapM, Option.bind_eq_bind, Option.bind_eq_some_iff]
    constructor
    · rintro ⟨ds, hds, hsum⟩
      exact .batch ((extractEach_eq_some _ items ds).mp hds) hsum
    · intro h
      cases h with
      | batch hds hsum => exact ⟨_, (extractEach_eq_some _ items _).mpr hds, hsum⟩

omit world in
theorem Inputs.Last.unique {inputs : Inputs F A} {d e : Value F A} (hd : inputs.Last stage.frames d)
    (he : inputs.Last stage.frames e) : d = e := by
  have h := ((inputs.audio_eq_some stage d).mpr hd).symm.trans ((inputs.audio_eq_some stage e).mpr he)
  exact Option.some.inj h

omit world in
theorem Inputs.audio_quiet (stage : Stage) (inputs : Inputs F A) :
    inputs.audio quiet stage = some (.num (.int 0)) := by
  cases inputs with
  | single item => rfl
  | batch items =>
    have hzeros : ∀ items : List (Value F A),
        Value.sum (items.map fun _ ↦ (.num (.int 0) : Value F A)) = some (.num (.int 0)) := by
      intro items
      induction items with
      | nil => rfl
      | cons item items ih => exact ih
    have hmap : items.mapM ((quiet : Extract F A) (stage.frames - 1)) = some (items.map fun _ ↦ .num (.int 0)) :=
      List.mapM_pure ..
    rw [Inputs.audio, hmap]
    exact hzeros items

/-- A generator that raises before it has yielded anything. -/
theorem middleGenerator_raises (extract : Extract F A) (inputs : Inputs F A) (exc : Exc)
    (s : Locals F A) :
    middleGenerator extract stage world inputs [] (some exc) s =
      .error (if (inputs.audio extract stage).isSome then exc else .error) s := by
  change EStateM.bind (orRaise (inputs.audio extract stage)) _ s = _
  cases inputs.audio extract stage <;> rfl

theorem agree_middleGenerator {inputs : Inputs F A} {items : List (Value F A)} {fin : Option Exc}
    (hst : Alike [] s t)
    (h : (Call.middle inputs (.generator items fin)).Timed stage.timing stage.frames s.audio) :
    Agreed (Alike []) (Alike []) (middleGenerator extractAudioDuration stage world inputs items fin s)
      (middleGenerator quiet stage world inputs items fin t) := by
  obtain ⟨-, hinputs, hfits⟩ := h
  by_cases hempty : items = [] ∧ fin ≠ none
  · obtain ⟨rfl, hfin⟩ := hempty
    obtain ⟨exc, rfl⟩ := Option.ne_none_iff_exists'.mp hfin
    rw [middleGenerator_raises, middleGenerator_raises, Inputs.audio_quiet]
    cases exc with
    | error =>
      rw [ite_self]
      exact .error Exc.error hst
    | connection =>
      obtain ⟨d, hd⟩ := hinputs (.inr (by simp))
      rw [(inputs.audio_eq_some stage d).mpr hd]
      exact .error Exc.connection hst
  · have hyields : items ≠ [] ∨ fin = none := by
      by_cases hitems : items = []
      · exact .inr (by simpa [hitems] using hempty)
      · exact .inl hitems
    obtain ⟨d, hd⟩ := hinputs (hyields.imp_right fun hfin ↦ by simp [hfin])
    unfold middleGenerator
    rw [(inputs.audio_eq_some stage d).mpr hd, Inputs.audio_quiet]
    cases htiming : stage.timing with
    | false =>
      refine Agree.bind (agree_emitGenerated fin _).rest (fun _ ↦ ?_) s t hst
      refine (agree_keepStats (fun htimed ↦ ?_) fun _ _ _ h ↦ h).bind fun _ ↦ .pure _ fun _ _ h ↦ h
      rw [htiming] at htimed
      cases htimed
    | true =>
      obtain ⟨d', hd', hadds⟩ := hfits htiming hyields
      obtain rfl := hd.unique hd'
      refine Agree.bind (agree_emitGenerated fin _).rest (fun _ ↦ ?_) s t (hst.owe (isSome_addAll_one hadds))
      refine (agree_keepStats (fun _ ↦ ?_) fun huntimed ↦ ?_).bind fun _ ↦ .pure _ fun _ _ h ↦ h
      · exact (agree_countItems _).rest.bind fun _ ↦ (agree_addAudio d []).bind fun _ ↦ agree_publishTenth
      · rw [htiming] at huntimed
        cases huntimed

theorem agree_middleValue {inputs : Inputs F A} {result : Value F A} (hst : Alike [] s t)
    (h : (Call.middle inputs (.value result)).Timed stage.timing stage.frames s.audio) :
    Agreed (Alike []) (Alike []) (middleValue extractAudioDuration stage world inputs result s)
      (middleValue quiet stage world inputs result t) := by
  obtain ⟨-, d, hd, hresult⟩ := h
  unfold middleValue
  rw [(inputs.audio_eq_some stage d).mpr hd, Inputs.audio_quiet]
  change Agreed _ _ ((if result.isNull then _ else _ : Body F A Ending) s)
    ((if result.isNull then _ else _ : Body F A Ending) t)
  split
  · exact .ok _ hst
  case isFalse hnull =>
    refine Agree.bind (P := (· = s ∧ · = t)) (Q := Alike []) (E := Alike []) ?_ (fun _ ↦
      (agree_emitAll _).bind fun _ ↦ .pure _ fun _ _ h ↦ h) s t ⟨rfl, rfl⟩
    rintro _ _ ⟨rfl, rfl⟩
    unfold Stage.keepStats
    split
    · rename_i htiming
      obtain ⟨e, ⟨he, -⟩, truth, htruth, hadds⟩ := hresult htiming (by simpa using hnull)
      have hcount : Agrees [if truth then e else d] (countItems inputs.items.length) (countItems _) :=
        agree_countItems _
      rw [(extractAudioDuration_eq_some _ _ e).mpr he]
      refine Agree.bind hcount.rest (fun _ ↦ ?_) _ _ (hst.owe (isSome_addAll_one hadds))
      change Agree _ (orRaise e.truth >>= fun _ ↦ _) (addAudio (.num (.int 0)) >>= fun _ ↦ _) _ _
      rw [htruth]
      exact (agree_addAudio _ []).bind fun _ ↦ agree_publishTenth
    · exact .ok _ hst

/-- The body of the loop does the same with the seconds as without them, as long as they can be added. -/
theorem agree_body (world : World F A) (writesLists : Bool) {call : Call F A} (hst : Alike [] s t)
    (h : call.Timed stage.timing stage.frames s.audio) :
    Agreed (Alike []) (Alike []) (call.body extractAudioDuration stage world writesLists s)
      (call.body quiet stage world writesLists t) := by
  match call with
  | .root (.raises exc) | .middle _ (.raises exc) => exact .error exc hst
  | .root (.generator _ _) => exact agree_rootGenerator hst h
  | .root (.value _) => exact agree_rootValue writesLists hst h
  | .middle _ (.generator _ _) => exact agree_middleGenerator hst h
  | .middle _ (.value _) => exact agree_middleValue hst h

/-- A turn ends the same way on both sides. -/
theorem turn_alike (loop : Loop) (world : World F A) {call : Call F A} (hst : Alike [] s t)
    (h : call.Timed stage.timing stage.frames s.audio) :
    (loop.turn extractAudioDuration stage world call s).1 = (loop.turn quiet stage world call t).1 ∧
      Alike [] (loop.turn extractAudioDuration stage world call s).2
        (loop.turn quiet stage world call t).2 := by
  have hturn (writesLists : Bool) :
      (turn extractAudioDuration stage world writesLists call s).1 =
          (turn quiet stage world writesLists call t).1 ∧
        Alike [] (turn extractAudioDuration stage world writesLists call s).2
          (turn quiet stage world writesLists call t).2 := by
    have hstart : Alike [] { s with sent := [] } { t with sent := [] } :=
      hst.keep hst.items hst.drained rfl rfl rfl
    have hbody := agree_body world writesLists hstart h
    unfold turn
    generalize call.body extractAudioDuration stage world writesLists { s with sent := [] } = r at hbody
    generalize call.body quiet stage world writesLists { t with sent := [] } = r' at hbody
    cases hbody with
    | ok ending hend => exact ⟨rfl, hend⟩
    | error exc hend => cases exc <;> exact ⟨rfl, hend⟩
  cases loop with
  | workerRun => exact hturn true
  | threadLoop => exact hturn false

/-- One call delivers the same, whatever its items last. -/
theorem deliver_eq (loop : Loop) (world : World F A) {call : Call F A} (hst : Alike [] s t)
    (h : call.Timed stage.timing stage.frames s.audio) :
    deliver loop extractAudioDuration stage world call s = deliver loop quiet stage world call t := by
  obtain ⟨hending, halike⟩ := turn_alike loop world hst h
  simp only [deliver, hending, halike.sent]

/-- So does a whole run of calls. -/
theorem deliveries_eq (loop : Loop) (stage : Stage) {run : List (World F A × Call F A)} {s t : Locals F A}
    (h : TimedRun loop stage run s) (hst : Alike [] s t) :
    deliveries loop extractAudioDuration stage run s = deliveries loop quiet stage run t := by
  induction run generalizing s t with
  | nil => rfl
  | cons turn run ih =>
    obtain ⟨hcall, hrun⟩ := h
    obtain ⟨hending, halike⟩ := turn_alike loop turn.1 hst hcall
    simp only [deliveries, ← hending, halike.sent]
    congr 1
    split
    · rename_i hgoes
      exact ih (hrun hgoes) halike
    · rfl

end

end GpuPipe.Stats
