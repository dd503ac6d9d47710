import GpuPipe.Stats.Delivery

/-!
# When statistics change nothing

A call whose values all last numbers that add up delivers what it delivers in the quiet run. One that is not
so does not: with nothing wrong outside, and errors raised, the turn with statistics raises, or sends less,
where the quiet turn goes on.
-/

namespace GpuPipe.Stats

variable {F A : Type} [Floats F] [Objects F A] {timing : Bool} {frames : ℕ}

/-! ## Timed calls -/

theorem LastsNumber.extracts {value d : Value F A} (h : LastsNumber frames value d) :
    ∃ d, extractAudioDuration frames value = some d ∧ d.isNumber = true :=
  ⟨d, (extractAudioDuration_eq_some frames value d).mpr h.1, h.2⟩

theorem exists_of_forall₂ {items ds : List (Value F A)} (h : List.Forall₂ (LastsNumber frames) items ds) :
    ∀ item ∈ items, ∃ d, LastsNumber frames item d := by
  induction h with
  | nil => exact fun item hitem ↦ absurd hitem List.not_mem_nil
  | cons hitem _ ih => exact List.forall_mem_cons.mpr ⟨⟨_, hitem⟩, ih⟩

theorem forall₂_of_exists {items : List (Value F A)} (h : ∀ item ∈ items, ∃ d, LastsNumber frames item d) :
    ∃ ds, List.Forall₂ (LastsNumber frames) items ds := by
  induction items with
  | nil => exact ⟨[], .nil⟩
  | cons item items ih =>
    obtain ⟨⟨d, hd⟩, hitems⟩ := List.forall_mem_cons.mp h
    obtain ⟨ds, hds⟩ := ih hitems
    exact ⟨d :: ds, .cons hd hds⟩

theorem Call.Timed.accounted {call : Call F A} {audio : Value F A} (h : call.Timed timing frames audio) :
    ∀ looked ∈ call.accounted timing frames, ∃ d, LastsNumber looked.1 looked.2 d := by
  intro looked hlooked
  match call with
  | .root (.raises _) | .middle _ (.raises _) => cases hlooked
  | .root (.generator items _) =>
    simp only [Call.accounted, List.mem_ite_nil_right, List.mem_map] at hlooked
    obtain ⟨htiming, item, hitem, rfl⟩ := hlooked
    obtain ⟨ds, hds, -⟩ := h htiming
    exact exists_of_forall₂ hds item hitem
  | .root (.value result) =>
    simp only [Call.accounted, List.mem_ite_nil_right, Bool.and_eq_true, List.mem_singleton] at hlooked
    obtain ⟨⟨htiming, hvalid⟩, rfl⟩ := hlooked
    obtain ⟨d, hd, -⟩ := h htiming (by simpa using hvalid)
    exact ⟨d, hd⟩
  | .middle inputs (.generator _ _) => exact h.1 looked hlooked
  | .middle inputs (.value result) =>
    obtain ⟨hinputs, d, hd, hresult⟩ := h
    rcases List.mem_append.mp hlooked with hlooked | hlooked
    · exact hinputs looked hlooked
    · simp only [List.mem_ite_nil_right, Bool.and_eq_true, List.mem_singleton] at hlooked
      obtain ⟨⟨htiming, hnull⟩, rfl⟩ := hlooked
      obtain ⟨e, he, -⟩ := hresult htiming (by simpa using hnull)
      exact ⟨e, he⟩

/-- A call whose seconds can be added up is inert. -/
theorem inert_of_timed {call : Call F A} {s : Locals F A} (h : call.Timed timing frames s.audio) :
    Inert timing frames call s where
  extracts := by
    intro looked hlooked
    obtain ⟨d, hd⟩ := h.accounted looked hlooked
    exact hd.extracts
  delivers := by
    intro loop outQueue raiseErrors world x
    have hst : Alike [] s { s with audio := .num (.float x) } := ⟨rfl, rfl, rfl, rfl, x, rfl⟩
    exact deliver_eq loop world hst h

/-! ## A world in which nothing goes wrong -/

/-- Everything is sent and written; the stop flags are up from the start, or never. -/
def calm (stops : Bool) : World F A :=
  ⟨fun _ ↦ stops, fun _ _ ↦ none, none⟩

def strict (timing : Bool) (frames : ℕ) : Stage := ⟨timing, true, true, frames⟩

/-- So many items of the call have been sent, and this is true of the total. -/
structure After (Total : Value F A → Prop) (n : ℕ) (s : Locals F A) : Prop where
  audio : Total s.audio
  sent : s.sent.length = n

/-- The total of a quiet run. -/
def IsFloat (total : Value F A) : Prop := ∃ x, total = .num (.float x)

section

omit [Floats F] [Objects F A]

variable {Total : Value F A → Prop} {stops : Bool} {n : ℕ} {E : Exc → Locals F A → Prop}

theorem after_countItems (k : ℕ) : Ends (After Total n) (countItems k) (fun _ ↦ After Total n) E :=
  .modify fun _ h ↦ ⟨h.audio, h.sent⟩

theorem after_publish (stops : Bool) :
    Ends (After Total n) (publish (calm stops)) (fun _ ↦ After Total n) E :=
  .modify fun _ h ↦ ⟨h.audio, h.sent⟩

theorem after_publishTenth (stops : Bool) :
    Ends (After Total n) (publishTenth (calm stops)) (fun _ ↦ After Total n) E := by
  refine .get fun s hs ↦ ?_
  split
  · rintro t rfl
    exact after_publish (E := E) stops t hs
  · rintro t rfl
    exact hs

theorem after_keepStats {x : Body F A PUnit}
    (h : timing = true → Ends (After Total n) x (fun _ ↦ After Total n) E) :
    Ends (After Total n) ((strict timing frames).keepStats x) (fun _ ↦ After Total n) E := by
  unfold Stage.keepStats
  split
  · exact h ‹_›
  · exact .pure fun _ hs ↦ hs

theorem after_emit (index : ℕ) (item : Value F A) :
    Ends (After Total n) ((strict timing frames).emit (calm stops) index item)
      (fun _ ↦ After Total (n + 1)) E :=
  .modify fun _ h ↦ ⟨h.audio, by simp [h.sent]⟩

theorem after_emitAll (items : List (Value F A × ℕ)) :
    Ends (After Total n) (emitAll (strict timing frames) (calm stops) items)
      (fun _ ↦ After Total (n + items.length)) E := by
  induction items generalizing n with
  | nil => exact .pure fun _ hs ↦ hs
  | cons item items ih =>
    rw [List.length_cons, Nat.add_comm items.length, ← Nat.add_assoc]
    exact (after_emit item.2 item.1).bind fun _ ↦ ih

/-- What `drainLoop` does with an item once it is counted. -/
theorem after_sent {Q : PUnit → Locals F A → Prop} (index : ℕ) (item : Value F A)
    (handler : Exc → Body F A PUnit) {rest : Body F A PUnit} (hrest : Ends (After Total (n + 1)) rest Q E) :
    Ends (After Total n) (do
      modify fun s ↦ { s with drained := s.drained + 1 }
      tryCatch ((strict true frames).emit (calm false) index item) handler
      rest) Q E := by
  have hcount : Ends (After Total n) (modify fun s ↦ { s with drained := s.drained + 1 })
      (fun _ ↦ After Total n) E := .modify fun _ h ↦ ⟨h.audio, h.sent⟩
  have hemit : Ends (After Total n) (tryCatch ((strict true frames).emit (calm false) index item) handler)
      (fun _ ↦ After Total (n + 1)) E :=
    .tryCatch (after_emit (E := fun _ _ ↦ False) index item) fun _ _ h ↦ h.elim
  exact hcount.bind fun _ ↦ hemit.bind fun _ ↦ hrest

/-- With the flags up the generator is left at its first item. -/
theorem after_emitGenerated {items : List (Value F A)} {fin : Option Exc} (h : items ≠ [] ∨ fin = none) :
    Ends (After Total n) (emitGenerated (strict timing frames) (calm true) fin items.zipIdx)
      (fun _ ↦ After Total n) E := by
  cases items with
  | nil =>
    obtain rfl := h.resolve_left fun hne ↦ hne rfl
    exact .pure fun _ hs ↦ hs
  | cons item items => exact .pure fun _ hs ↦ hs

end

section

variable {stops : Bool} {n : ℕ} {audio total d : Value F A} {E : Exc → Locals F A → Prop}

theorem after_addAudio (hadd : audio.add d = some total) :
    Ends (After (· = audio) n) (addAudio d) (fun _ ↦ After (· = total) n) E := by
  rintro s ⟨rfl, hsent⟩
  rw [addAudio_eq, hadd]
  exact ⟨rfl, hsent⟩

theorem addAudio_raises {Q : PUnit → Locals F A → Prop} (hadd : audio.add d = none) :
    Ends (After (· = audio) n) (addAudio d) Q fun exc t ↦ exc = .error ∧ After (· = audio) n t := by
  rintro s ⟨rfl, hsent⟩
  rw [addAudio_eq, hadd]
  exact ⟨rfl, rfl, hsent⟩

theorem addAudio_fails (hadd : audio.add d = none) :
    Ends (After (· = audio) n) (addAudio d : Body F A PUnit) (fun _ _ ↦ False) fun exc _ ↦ exc = .error :=
  (addAudio_raises hadd).weaken fun _ _ h ↦ h.1

theorem quiet_addAudio :
    Ends (After IsFloat n) (addAudio (.num (.int 0)) : Body F A PUnit) (fun _ ↦ After IsFloat n) E := by
  rintro s ⟨⟨x, hx⟩, hsent⟩
  obtain ⟨y, hy⟩ := Num.add_int_zero x
  have hadd : s.audio.add (.num (.int 0)) = some (.num (.float y)) := by
    rw [hx, Value.add, hy]
    rfl
  rw [addAudio_eq, hadd]
  exact ⟨⟨y, rfl⟩, hsent⟩

/-! ## What the quiet run does there -/

theorem quiet_rootValue {result : Value F A} :
    Ends (After IsFloat n) (rootValue quiet (strict timing frames) (calm stops) true result)
      (fun ending _ ↦ ending ≠ .raise) E := by
  unfold rootValue
  split
  · exact .pure fun _ _ ↦ nofun
  split
  · exact .pure fun _ _ ↦ nofun
  refine (after_keepStats fun _ ↦ ?_).bind fun _ ↦ (after_emitAll _).bind fun _ ↦ .pure fun _ _ ↦ ?_
  · split
    · exact .pure fun _ hs ↦ hs
    · exact (after_countItems _).bind fun _ ↦ quiet_addAudio.bind fun _ ↦ after_publish stops
  · split <;> decide

theorem quiet_middleValue {inputs : Inputs F A} {result : Value F A} :
    Ends (After IsFloat n) (middleValue quiet (strict timing frames) (calm stops) inputs result)
      (fun ending _ ↦ ending ≠ .raise) E := by
  unfold middleValue
  rw [Inputs.audio_quiet]
  change Ends (After IsFloat n) (if result.isNull then _ else _) _ _
  split
  · exact .pure fun _ _ ↦ nofun
  · refine (after_keepStats fun _ ↦ ?_).bind fun _ ↦
      (after_emitAll _).bind fun _ ↦ .pure fun _ _ ↦ nofun
    exact (after_countItems _).bind fun _ ↦ quiet_addAudio.bind fun _ ↦ after_publishTenth stops

theorem quiet_middleGenerator {inputs : Inputs F A} {items : List (Value F A)} {fin : Option Exc}
    (h : items ≠ [] ∨ fin = none) :
    Ends (After IsFloat n) (middleGenerator quiet (strict timing frames) (calm true) inputs items fin)
      (fun ending _ ↦ ending ≠ .raise) E := by
  unfold middleGenerator
  rw [Inputs.audio_quiet]
  refine (after_emitGenerated h).bind fun _ ↦
    (after_keepStats fun _ ↦ ?_).bind fun _ ↦ .pure fun _ _ ↦ nofun
  exact (after_countItems _).bind fun _ ↦ quiet_addAudio.bind fun _ ↦ after_publishTenth true

theorem quiet_middleGenerator_breaks {Q : Ending → Locals F A → Prop} {inputs : Inputs F A} :
    Ends (After IsFloat n)
      (middleGenerator quiet (strict timing frames) (calm stops) inputs [] (some .connection)) Q
      fun exc _ ↦ exc = .connection := by
  intro s _
  rw [middleGenerator_raises, Inputs.audio_quiet]
  rfl

theorem quiet_count (item : Value F A) :
    Ends (After IsFloat n) (count quiet (strict true frames) item) (fun _ ↦ After IsFloat n) E :=
  after_keepStats fun _ ↦ (after_countItems 1).bind fun _ ↦ quiet_addAudio

theorem quiet_drainLoop (fin : Option Exc) (items : List (Value F A × ℕ)) :
    Ends (After IsFloat n) (drainLoop quiet (strict true frames) (calm false) fin items)
      (fun _ ↦ After IsFloat (n + (validItems (items.map Prod.fst)).length))
      (fun _ ↦ After IsFloat (n + (validItems (items.map Prod.fst)).length)) := by
  induction items generalizing n with
  | nil =>
    cases fin with
    | none => exact .pure fun _ hs ↦ hs
    | some exc => exact .throw fun _ hs ↦ hs
  | cons item items ih =>
    unfold drainLoop
    rw [if_neg (by simp [calm])]
    split
    case isTrue hskip =>
      simp only [List.map_cons, validItems_cons, if_pos hskip]
      exact ih
    case isFalse hkeep =>
      simp only [List.map_cons, validItems_cons, if_neg hkeep, List.length_cons]
      rw [Nat.add_comm _ 1, ← Nat.add_assoc]
      exact (quiet_count item.1).bind fun _ ↦ after_sent _ _ _ ih

/-! ## What the run with statistics does there -/

theorem count_raises {item : Value F A} (hitem : Lasts (frames - 2) item d) (hadd : audio.add d = none)
    {Q : PUnit → Locals F A → Prop} :
    Ends (After (· = audio) n) (count extractAudioDuration (strict true frames) item) Q
      fun exc t ↦ exc = .error ∧ After (· = audio) n t := by
  change Ends (After (· = audio) n) (countItems 1 >>= fun _ ↦ orRaise (extractAudioDuration (frames - 2) item)
    >>= fun _ ↦ _) _ _
  rw [(extractAudioDuration_eq_some _ item d).mpr hitem]
  exact (after_countItems 1).bind fun _ ↦ addAudio_raises hadd

theorem after_count {item : Value F A} (hitem : Lasts (frames - 2) item d)
    (hadd : audio.add d = some total) :
    Ends (After (· = audio) n) (count extractAudioDuration (strict true frames) item)
      (fun _ ↦ After (· = total) n) E := by
  change Ends (After (· = audio) n) (countItems 1 >>= fun _ ↦ orRaise (extractAudioDuration (frames - 2) item)
    >>= fun _ ↦ _) _ _
  rw [(extractAudioDuration_eq_some _ item d).mpr hitem]
  exact (after_countItems 1).bind fun _ ↦ after_addAudio hadd

/-- An item whose seconds cannot be added is not sent, nor is any after it. -/
theorem drainLoop_raises (fin : Option Exc) (items : List (Value F A × ℕ)) {ds : List (Value F A)}
    (hlasts : List.Forall₂ (LastsNumber (frames - 2)) (validItems (items.map Prod.fst)) ds)
    (hadds : audio.addAll ds = none) :
    Ends (After (· = audio) n) (drainLoop extractAudioDuration (strict true frames) (calm false) fin items)
      (fun _ _ ↦ False)
      (fun exc t ↦ exc = .error ∧ t.sent.length < n + (validItems (items.map Prod.fst)).length) := by
  induction items generalizing n audio ds with
  | nil =>
    cases hlasts
    cases hadds
  | cons item items ih =>
    unfold drainLoop
    rw [if_neg (by simp [calm])]
    split
    case isTrue hskip =>
      simp only [List.map_cons, validItems_cons, if_pos hskip] at hlasts ⊢
      exact ih hlasts hadds
    case isFalse hkeep =>
      simp only [List.map_cons, validItems_cons, if_neg hkeep, List.length_cons] at hlasts ⊢
      cases hlasts with
      | @cons _ d _ ds hd hrest =>
        rw [Value.addAll_cons] at hadds
        cases hadd : audio.add d with
        | some total =>
          rw [hadd] at hadds
          rw [Nat.add_comm _ 1, ← Nat.add_assoc]
          exact (after_count hd.1 hadd).bind fun _ ↦ after_sent _ _ _ (ih hrest hadds)
        | none =>
          refine Ends.weaken ((count_raises hd.1 hadd).raises _) fun exc t h ↦ ⟨h.1, ?_⟩
          rw [h.2.sent]
          omega

theorem drainSourceGenerator_ends {Total : Value F A → Prop} {extract : Extract F A}
    {items : List (Value F A)} {fin : Option Exc} {R : Locals F A → Prop}
    (h : Ends (After Total n) (drainLoop extract (strict true frames) (calm false) fin items.zipIdx)
      (fun _ ↦ R) E) :
    Ends (After Total n) (drainSourceGenerator extract (strict true frames) (calm false) items fin)
      (fun _ ↦ R) E := by
  have hstart : Ends (After Total n) (modify fun s ↦ { s with drained := 0 }) (fun _ ↦ After Total n) E :=
    .modify fun _ h ↦ ⟨h.audio, h.sent⟩
  have hloop := h.bind fun _ ↦ Ends.pure (a := false) (Q := fun _ ↦ R) fun _ hs ↦ hs
  refine hstart.bind fun _ ↦ Ends.bind (.tryCatch hloop fun exc ↦ ?_) fun raised ↦ .get fun s hs ↦ ?_
  · rw [if_pos (.inr rfl)]
    exact .throw fun _ hs ↦ hs
  · rintro t rfl
    exact hs

theorem quiet_rootGenerator (items : List (Value F A)) (fin : Option Exc) :
    Ends (After IsFloat n) (rootGenerator quiet (strict true frames) (calm false) items fin)
      (fun _ ↦ After IsFloat (n + (validItems items).length))
      (fun _ ↦ After IsFloat (n + (validItems items).length)) := by
  have hloop : Ends (After IsFloat n) (drainLoop quiet (strict true frames) (calm false) fin items.zipIdx) _ _ :=
    quiet_drainLoop fin items.zipIdx
  rw [List.zipIdx_map_fst] at hloop
  refine (drainSourceGenerator_ends hloop).bind fun ⟨raised, sent⟩ ↦ ?_
  cases raised with
  | true => exact .pure fun _ hs ↦ hs
  | false => exact (after_keepStats fun _ ↦ after_publish false).bind fun _ ↦ .pure fun _ hs ↦ hs

theorem rootGenerator_raises {items ds : List (Value F A)} (fin : Option Exc)
    (hlasts : List.Forall₂ (LastsNumber (frames - 2)) (validItems items) ds)
    (hadds : audio.addAll ds = none) :
    Ends (After (· = audio) n) (rootGenerator extractAudioDuration (strict true frames) (calm false) items fin)
      (fun _ t ↦ t.sent.length < n + (validItems items).length)
      (fun _ t ↦ t.sent.length < n + (validItems items).length) := by
  have hfst := List.zipIdx_map_fst 0 items
  have hloop : Ends (After (· = audio) n)
      (drainLoop extractAudioDuration (strict true frames) (calm false) fin items.zipIdx) _ _ :=
    drainLoop_raises fin items.zipIdx (by rwa [hfst]) hadds
  rw [hfst] at hloop
  exact (drainSourceGenerator_ends (R := fun _ ↦ False) (hloop.weaken fun _ _ h ↦ h.2)).raises _

theorem rootValue_raises {Q : Ending → Locals F A → Prop} {result : Value F A}
    (hvalid : validItems result.toList ≠ []) (hlasts : Lasts frames (.list (validItems result.toList)) d)
    (hadd : audio.add d = none) :
    Ends (After (· = audio) n) (rootValue extractAudioDuration (strict true frames) (calm stops) true result) Q
      fun exc _ ↦ exc = .error := by
  have hitem : result.isNull = false ∧ result.isEnd = false := by
    cases result <;> first | exact ⟨rfl, rfl⟩ | exact absurd rfl hvalid
  unfold rootValue
  rw [if_neg (by simp [hitem.1]), if_neg (by simp [hitem.2])]
  refine Ends.raises (x := (strict true frames).keepStats _) ?_ _
  change Ends (After (· = audio) n) (if (validItems result.toList).isEmpty then _ else
    countItems _ >>= fun _ ↦ orRaise (extractAudioDuration frames _) >>= fun _ ↦ _) _ _
  rw [if_neg (by simpa using hvalid), (extractAudioDuration_eq_some _ _ d).mpr hlasts]
  exact (after_countItems _).bind fun _ ↦ (addAudio_fails hadd).raises _

theorem inputAudio_raises {Total : Value F A → Prop} {α : Type} {Q : α → Locals F A → Prop}
    {stage : Stage} {inputs : Inputs F A} (h : inputs.audio extractAudioDuration stage = none)
    (rest : Value F A → Body F A α) :
    Ends (After Total n) (orRaise (inputs.audio extractAudioDuration stage) >>= rest) Q
      fun exc _ ↦ exc = .error := by
  rw [h]
  exact Ends.raises (.throw fun _ _ ↦ rfl) rest

theorem middleGenerator_fails {Q : Ending → Locals F A → Prop} {inputs : Inputs F A}
    {items : List (Value F A)} {fin : Option Exc} (hyields : items ≠ [] ∨ fin = none)
    (hinputs : inputs.Last frames d) (hadd : audio.add d = none) :
    Ends (After (· = audio) n)
      (middleGenerator extractAudioDuration (strict true frames) (calm true) inputs items fin) Q
      fun exc _ ↦ exc = .error := by
  unfold middleGenerator
  rw [(inputs.audio_eq_some (strict true frames) d).mpr hinputs]
  refine (after_emitGenerated hyields).bind fun _ ↦ Ends.raises (x := (strict true frames).keepStats _) ?_ _
  exact (after_countItems _).bind fun _ ↦ (addAudio_fails hadd).raises _

theorem middleValue_fails {Q : Ending → Locals F A → Prop} {inputs : Inputs F A} {result e : Value F A}
    (hnull : result.isNull = false) (hinputs : inputs.Last frames d)
    (hresult : Lasts frames (.list result.toList) e) (hadd : ¬AddsOr audio e d) :
    Ends (After (· = audio) n)
      (middleValue extractAudioDuration (strict true frames) (calm stops) inputs result) Q
      fun exc _ ↦ exc = .error := by
  unfold middleValue
  rw [(inputs.audio_eq_some (strict true frames) d).mpr hinputs]
  change Ends (After (· = audio) n) (if result.isNull then _ else _) _ _
  rw [if_neg (by simp [hnull])]
  refine Ends.raises (x := (strict true frames).keepStats _) ?_ _
  change Ends _ (countItems _ >>= fun _ ↦ orRaise (extractAudioDuration frames _) >>= fun _ ↦ _) _ _
  rw [(extractAudioDuration_eq_some _ _ e).mpr hresult]
  refine (after_countItems _).bind fun _ ↦ ?_
  change Ends (After (· = audio) n) (orRaise e.truth >>= fun _ ↦ _) _ _
  cases htruth : e.truth with
  | none => exact Ends.raises (.throw fun _ _ ↦ rfl) _
  | some truth =>
    have hfails : audio.add (if truth then e else d) = none := by
      cases hsum : audio.add (if truth then e else d) with
      | none => rfl
      | some total => exact absurd ⟨truth, htruth, by rw [hsum]; rfl⟩ hadd
    exact (addAudio_fails hfails).raises _

end

/-! ## The exact condition -/

section

variable {world : World F A} {call : Call F A} {s : Locals F A}

theorem deliver_workerRun (extract : Extract F A) (stage : Stage) (world : World F A) (call : Call F A)
    (s : Locals F A) :
    deliver .workerRun extract stage world call s =
      match call.body extract stage world true { s with sent := [] } with
      | .ok ending t => ⟨t.sent, ending⟩
      | .error .connection t => ⟨t.sent, .stop⟩
      | .error .error t => ⟨t.sent, if stage.raiseErrors then .raise else .next⟩ := by
  rw [deliver, Loop.turn, workerRun, turn]
  generalize call.body extract stage world true _ = r
  cases r with
  | ok ending t => rfl
  | error exc t => cases exc <;> rfl

theorem deliver_raises (h : Ends (After (· = s.audio) 0)
    (call.body extractAudioDuration (strict timing frames) world true) (fun _ _ ↦ False)
      fun exc _ ↦ exc = .error) :
    (deliver .workerRun extractAudioDuration (strict timing frames) world call s).ending = .raise := by
  have hend := h { s with sent := [] } ⟨rfl, rfl⟩
  rw [deliver_workerRun]
  generalize call.body extractAudioDuration (strict timing frames) world true _ = r at hend ⊢
  cases r with
  | ok ending t => exact hend.elim
  | error exc t =>
    obtain rfl : exc = .error := hend
    rfl

theorem deliver_goes_on (x : F) (h : Ends (After IsFloat 0)
    (call.body quiet (strict timing frames) world true) (fun ending _ ↦ ending ≠ .raise)
      fun exc _ ↦ exc = .connection) :
    (deliver .workerRun quiet (strict timing frames) world call { s with audio := .num (.float x) }).ending ≠
      .raise := by
  have hend := h { s with audio := .num (.float x), sent := [] } ⟨⟨x, rfl⟩, rfl⟩
  rw [deliver_workerRun]
  generalize call.body quiet (strict timing frames) world true _ = r at hend ⊢
  cases r with
  | ok ending t => exact hend
  | error exc t =>
    obtain rfl : exc = .connection := hend
    nofun

/-- However the turn ends, what holds then holds of what it has sent. -/
theorem deliver_sent (Total : Value F A → Prop) (R : List (Value F A) → Prop) {extract : Extract F A}
    {stage : Stage} (hs : Total s.audio)
    (h : Ends (After Total 0) (call.body extract stage world true) (fun _ t ↦ R t.sent) (fun _ t ↦ R t.sent)) :
    R (deliver .workerRun extract stage world call s).sent := by
  have hend := h { s with sent := [] } ⟨hs, rfl⟩
  rw [deliver_workerRun]
  generalize call.body extract stage world true _ = r at hend ⊢
  cases r with
  | ok ending t => exact hend
  | error exc t => cases exc <;> exact hend

theorem Inert.strict (h : Inert timing frames call s) (world : World F A) :
    deliver .workerRun extractAudioDuration (strict timing frames) world call s =
      deliver .workerRun quiet (strict timing frames) world call
        { s with audio := .num (.float Floats.zero) } :=
  h.delivers .workerRun true true world Floats.zero

theorem Inert.not_raises (h : Inert timing frames call s) (world : World F A)
    (hquiet : Ends (After IsFloat 0) (call.body quiet (Stats.strict timing frames) world true)
      (fun ending _ ↦ ending ≠ .raise) fun exc _ ↦ exc = .connection) :
    ¬ Ends (After (· = s.audio) 0) (call.body extractAudioDuration (Stats.strict timing frames) world true)
      (fun _ _ ↦ False) fun exc _ ↦ exc = .error := by
  intro hraises
  have hending := deliver_raises hraises
  rw [h.strict world] at hending
  exact deliver_goes_on Floats.zero hquiet hending

/-- What the statistics of an inert call look at lasts a number. -/
theorem Inert.lasts (h : Inert timing frames call s) :
    ∀ looked ∈ call.accounted timing frames, ∃ d, LastsNumber looked.1 looked.2 d := by
  intro looked hlooked
  obtain ⟨d, hd, hnumber⟩ := h.extracts looked hlooked
  exact ⟨d, (extractAudioDuration_eq_some _ _ d).mp hd, hnumber⟩

/-- Inputs last something all together, or adding them up raises. -/
theorem Inputs.last_or_none (timing : Bool) (frames : ℕ) (inputs : Inputs F A) :
    (∃ d, inputs.Last frames d) ∨ inputs.audio extractAudioDuration (Stats.strict timing frames) = none := by
  cases haudio : inputs.audio extractAudioDuration (Stats.strict timing frames) with
  | none => exact .inr rfl
  | some d => exact .inl ⟨d, (inputs.audio_eq_some (Stats.strict timing frames) d).mp haudio⟩

/-- The items of an inert generator last numbers, and these can be added to the total. -/
theorem Inert.rootGenerator_timed {items : List (Value F A)} {fin : Option Exc}
    (h : Inert true frames (.root (.generator items fin)) s) :
    ∃ ds, List.Forall₂ (LastsNumber (frames - 2)) (validItems items) ds ∧ (s.audio.addAll ds).isSome = true := by
  have hlasts : ∀ item ∈ validItems items, ∃ d, LastsNumber (frames - 2) item d := fun item hitem ↦
    h.lasts (frames - 2, item) (by simpa [Call.accounted] using hitem)
  obtain ⟨ds, hds⟩ := forall₂_of_exists hlasts
  refine ⟨ds, hds, ?_⟩
  by_contra hfails
  have hshort : (deliver .workerRun extractAudioDuration (Stats.strict true frames) (calm false)
      (.root (.generator items fin)) s).sent.length < 0 + (validItems items).length :=
    deliver_sent (· = s.audio) (fun sent ↦ sent.length < 0 + (validItems items).length) rfl
      (rootGenerator_raises fin hds (by simpa using hfails))
  have hwhole : (deliver .workerRun quiet (Stats.strict true frames) (calm false) (.root (.generator items fin))
      { s with audio := .num (.float Floats.zero) }).sent.length = 0 + (validItems items).length :=
    deliver_sent IsFloat (fun sent ↦ sent.length = 0 + (validItems items).length) ⟨_, rfl⟩
      ((quiet_rootGenerator items fin).imp (fun _ _ hend ↦ hend.sent) fun _ _ hend ↦ hend.sent)
  rw [h.strict (calm false)] at hshort
  omega

theorem Inert.middleGenerator_last {inputs : Inputs F A} {items : List (Value F A)} {fin : Option Exc}
    (h : Inert timing frames (.middle inputs (.generator items fin)) s)
    (hgoes : items ≠ [] ∨ fin ≠ some .error) : ∃ d, inputs.Last frames d := by
  refine (Inputs.last_or_none timing frames inputs).resolve_right fun hnone ↦ ?_
  refine h.not_raises (calm true) ?_ (inputAudio_raises hnone _)
  by_cases hyields : items ≠ [] ∨ fin = none
  · exact quiet_middleGenerator hyields
  · push Not at hyields
    obtain ⟨rfl, hfin⟩ := hyields
    obtain ⟨exc, rfl⟩ := Option.ne_none_iff_exists'.mp hfin
    cases exc with
    | error => simp at hgoes
    | connection => exact quiet_middleGenerator_breaks

theorem Inert.middleValue_last {inputs : Inputs F A} {result : Value F A}
    (h : Inert timing frames (.middle inputs (.value result)) s) : ∃ d, inputs.Last frames d := by
  refine (Inputs.last_or_none timing frames inputs).resolve_right fun hnone ↦ ?_
  exact h.not_raises (calm true) quiet_middleValue (inputAudio_raises hnone _)

/-- Only timed calls leave delivery alone. -/
theorem Inert.timed (h : Inert timing frames call s) : call.Timed timing frames s.audio := by
  match call with
  | .root (.raises _) | .middle _ (.raises _) => trivial
  | .root (.generator items fin) =>
    rintro rfl
    exact h.rootGenerator_timed
  | .root (.value result) =>
    rintro rfl hvalid
    obtain ⟨d, hd⟩ := h.lasts (frames, .list (validItems result.toList))
      (by simp [Call.accounted, hvalid])
    refine ⟨d, hd, ?_⟩
    by_contra hfails
    exact h.not_raises (calm true) quiet_rootValue (rootValue_raises hvalid hd.1 (by simpa using hfails))
  | .middle inputs (.generator items fin) =>
    refine ⟨h.lasts, h.middleGenerator_last, ?_⟩
    rintro rfl hyields
    obtain ⟨d, hd⟩ := h.middleGenerator_last (hyields.imp_right fun hfin ↦ by simp [hfin])
    refine ⟨d, hd, ?_⟩
    by_contra hfails
    exact h.not_raises (calm true) (quiet_middleGenerator hyields)
      (middleGenerator_fails hyields hd (by simpa using hfails))
  | .middle inputs (.value result) =>
    obtain ⟨d, hd⟩ := h.middleValue_last
    refine ⟨fun looked hlooked ↦ h.lasts looked (List.mem_append_left _ hlooked), d, hd, ?_⟩
    rintro rfl hnull
    obtain ⟨e, he⟩ := h.lasts (frames, .list result.toList) (by simp [Call.accounted, hnull])
    refine ⟨e, he, ?_⟩
    by_contra hfails
    exact h.not_raises (calm true) quiet_middleValue (middleValue_fails hnull hd he.1 hfails)

end

/-- Statistics leave the delivery of a call alone just when every value they look at lasts a number, which can be
added to the total that the call finds; and so of every run whose calls are all so. -/
theorem inert_iff_timed (timing : Bool) (frames : ℕ) :
    (∀ (call : Call F A) (s : Locals F A), Inert timing frames call s ↔ call.Timed timing frames s.audio) ∧
      ∀ (loop : Loop) (outQueue raiseErrors : Bool) (run : List (World F A × Call F A)),
        TimedRun loop ⟨timing, outQueue, raiseErrors, frames⟩ run start →
          deliveries loop extractAudioDuration ⟨timing, outQueue, raiseErrors, frames⟩ run start =
            deliveries loop quiet ⟨timing, outQueue, raiseErrors, frames⟩ run start := by
  refine ⟨fun call s ↦ ⟨Inert.timed, inert_of_timed⟩, fun loop outQueue raiseErrors run htimed ↦ ?_⟩
  exact deliveries_eq loop _ htimed ⟨rfl, rfl, rfl, rfl, _, rfl⟩

/-! ## Seconds as text -/

/-- Floats that are whole. -/
instance : Floats ℤ := ⟨0, (· + ·), id, (· == 0), rfl⟩

/-- No other objects. -/
instance : Objects ℤ Empty := ⟨nofun, nofun, nofun, nofun, nofun, nofun⟩

def spoken : Call ℤ Empty := .root (.generator [.dict [("duration", .str "3.5")]] none)

/-- The item is lost and the source is called again; the quiet run sends it and leaves. -/
theorem not_inert :
    (deliveries .workerRun extractAudioDuration ⟨true, true, false, 900⟩ [(calm false, spoken)] start).map
        (fun delivery ↦ (delivery.sent.length, delivery.ending)) = [(0, .again false)] ∧
      (deliveries .workerRun quiet ⟨true, true, false, 900⟩ [(calm false, spoken)] start).map
        (fun delivery ↦ (delivery.sent.length, delivery.ending)) = [(1, .leave)] ∧
      ¬ Inert true 900 spoken start := by
  have hstats : (deliver .workerRun extractAudioDuration ⟨true, true, false, 900⟩ (calm false) spoken
      start).sent.length = 0 := by
    decide +kernel
  have hquiet : (deliver .workerRun quiet ⟨true, true, false, 900⟩ (calm false) spoken start).sent.length =
      1 := by
    decide +kernel
  refine ⟨by decide +kernel, by decide +kernel, fun h ↦ ?_⟩
  have heq := h.delivers .workerRun true false (calm false) 0
  rw [heq] at hstats
  exact absurd (hquiet.symm.trans hstats) Nat.one_ne_zero

/-- A middle stage without statistics loses what it has made of an item whose segments are `None`. -/
example : (deliveries .threadLoop extractAudioDuration ⟨false, true, false, 900⟩
    [(calm false, .middle (.single (.dict [("segments", (.null : Value ℤ Empty))])) (.value (.str "text")))]
    start).map (fun delivery ↦ (delivery.sent.length, delivery.ending)) = [(0, .next)] := by
  decide +kernel

/-- Three lists in one another take six frames. -/
example : extractAudioDuration 5 (.list [.list [.list []]] : Value ℤ Empty) = none ∧
    extractAudioDuration 6 (.list [.list [.list []]] : Value ℤ Empty) = some (.num (.int 0)) :=
  ⟨rfl, rfl⟩

end GpuPipe.Stats
