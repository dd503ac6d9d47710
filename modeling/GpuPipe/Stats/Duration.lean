import Mathlib.Algebra.Group.Nat.Defs
import Mathlib.Data.Int.Notation
import Mathlib.Data.List.Forall2
import Mathlib.Data.Nat.Notation

/-!
# How long an item lasts

`extract_audio_duration` looks for seconds of audio in whatever a stage has been given or has returned. A
value is what Python makes of it: the functions below give `none` where the expression they stand for
raises. Floats are those of the interpreter, known by their operations only. Whatever else a value may hold
(arrays, tuples, the numbers of a library, objects of a program's own) is known by what it answers, and does
not change by being looked at.
-/

namespace GpuPipe.Stats

/-- Floats: `isZero` is falsity, and an integer is rounded. -/
class Floats (F : Type) where
  zero : F
  add : F → F → F
  ofInt : ℤ → F
  isZero : F → Bool
  isZero_zero : isZero zero = true

/-- The built-in numbers; a `bool` is an integer. -/
inductive Num (F : Type)
  | int (n : ℤ)
  | float (x : F)
  deriving DecidableEq

/-- What a stage may be given, yield or return. -/
inductive Value (F A : Type)
  /-- `None` -/
  | null
  | num (d : Num F)
  | str (text : String)
  /-- Of any other type. -/
  | object (a : A)
  | dict (entries : List (String × Value F A))
  | list (items : List (Value F A))
  /-- The sentinel `End`. -/
  | sentinel

/-- What the other objects answer. -/
class Objects (F A : Type) where
  isNumber : A → Bool
  truth : A → Option Bool
  add : A → Value F A → Option (Value F A)
  radd : Value F A → A → Option (Value F A)
  /-- What iteration gives. -/
  rows : A → Option (List (Value F A))
  /-- `a.get("duration", 0.0)` -/
  getDuration : A → Option (Value F A)

variable {F A : Type} [Floats F]

/-! ## Numbers -/

namespace Num

def zero : Num F := .float Floats.zero

def isZero : Num F → Bool
  | .int n => n == 0
  | .float x => Floats.isZero x

/-- The first integer that rounds to more than the greatest float. -/
def floatLimit : ℕ := 2 ^ 1024 - 2 ^ 970

def toFloat : Num F → Option F
  | .int n => if n.natAbs < floatLimit then some (Floats.ofInt n) else none
  | .float x => some x

def add : Num F → Num F → Option (Num F)
  | .int m, .int n => some (.int (m + n))
  | x, y => do return .float (Floats.add (← x.toFloat) (← y.toFloat))

theorem zero_isZero : (zero : Num F).isZero = true :=
  Floats.isZero_zero

/-- A float and the integer zero. -/
theorem add_int_zero (x : F) : ∃ y, (float x).add (int 0) = some (float y) := by
  have hlimit : 0 < floatLimit := by decide +kernel
  refine ⟨Floats.add x (Floats.ofInt 0), ?_⟩
  simp [add, toFloat, hlimit]

end Num

/-! ## Values -/

namespace Value

section

omit [Floats F]

def isNull : Value F A → Bool
  | .null => true
  | _ => false

def isEnd : Value F A → Bool
  | .sentinel => true
  | _ => false

/-- `isinstance(value, list)`, or the list of the value alone. -/
def toList : Value F A → List (Value F A)
  | .list items => items
  | value => [value]

end

variable [Objects F A]

omit [Floats F] in
def isNumber : Value F A → Bool
  | .num _ => true
  | .object a => Objects.isNumber F a
  | _ => false

def truth : Value F A → Option Bool
  | .null => some false
  | .num d => some !d.isZero
  | .str text => some (text ≠ "")
  | .object a => Objects.truth F a
  | .dict entries => some !entries.isEmpty
  | .list items => some !items.isEmpty
  | .sentinel => some true

def add : Value F A → Value F A → Option (Value F A)
  | .num x, .num y => (x.add y).map .num
  | .str x, .str y => some (.str (x ++ y))
  | .list xs, .list ys => some (.list (xs ++ ys))
  | .object a, value => Objects.add a value
  | value, .object a => Objects.radd value a
  | _, _ => none

/-- The total after all these additions. -/
def addAll (total : Value F A) (values : List (Value F A)) : Option (Value F A) := values.foldlM add total

def sum (values : List (Value F A)) : Option (Value F A) := addAll (.num (.int 0)) values

/-- What `for` goes through. -/
def iterate : Value F A → Option (List (Value F A))
  | .list items => some items
  | .dict entries => some (entries.map fun entry ↦ .str entry.1)
  | .str text => some (text.toList.map fun letter ↦ .str letter.toString)
  | .object a => Objects.rows a
  | _ => none

def getDuration : Value F A → Option (Value F A)
  | .dict entries => some ((entries.lookup "duration").getD (.num .zero))
  | .object a => Objects.getDuration a
  | _ => none

theorem addAll_cons (total value : Value F A) (values : List (Value F A)) :
    addAll total (value :: values) = (total.add value).bind fun total ↦ addAll total values := rfl

end Value

variable [Objects F A]

/-- What `extract_audio_duration` makes of a dictionary without a duration of its own. -/
def extractInner (frames : ℕ) (entries : List (String × Value F A)) : Option (Value F A) :=
  match entries.lookup "sample", entries.lookup "segments" with
  | some sample, _ => sample.getDuration
  | none, some segments =>
    -- The generator expression takes a frame.
    if frames = 0 then none else do Value.sum (← (← segments.iterate).mapM Value.getDuration)
  | none, none => some (.num .zero)

def extractFromDict (frames : ℕ) (entries : List (String × Value F A)) : Option (Value F A) :=
  match (entries.lookup "duration").getD (.num .zero) with
  | .list durations => Value.sum durations
  | dur => do if ← dur.truth then return dur else extractInner frames entries

mutual

/-- `extract_audio_duration`; `frames` is what the recursion limit leaves to it. The call takes a frame, and
so does the generator expression that goes through a list. -/
def extractAudioDuration : ℕ → Value F A → Option (Value F A)
  | 0, _ => none
  | frames + 1, .dict entries => extractFromDict frames entries
  | 1, .list _ => none
  | frames + 2, .list items => do Value.sum (← extractEach frames items)
  | _ + 1, _ => some (.num .zero)

/-- What it gives for each item of a list. -/
def extractEach : ℕ → List (Value F A) → Option (List (Value F A))
  | _, [] => some []
  | frames, item :: items => do
    return (← extractAudioDuration frames item) :: (← extractEach frames items)

end

/-! ## Which values have a duration -/

/-- What has a `get`, and this duration. -/
inductive Field : Value F A → Value F A → Prop
  | absent {entries : List (String × Value F A)} (h : entries.lookup "duration" = none) :
      Field (.dict entries) (.num .zero)
  | present {entries : List (String × Value F A)} {d : Value F A} (h : entries.lookup "duration" = some d) :
      Field (.dict entries) d
  | object {a : A} {d : Value F A} (h : Objects.getDuration a = some d) : Field (.object a) d

/-- The duration is missing, or something else than a list that counts as false. -/
def Silent (entries : List (String × Value F A)) : Prop :=
  ∀ dur, entries.lookup "duration" = some dur → dur.truth = some false ∧ ∀ items, dur ≠ .list items

/-- A dictionary that lasts `d`. -/
inductive DictLasts (frames : ℕ) (entries : List (String × Value F A)) : Value F A → Prop
  | durations {items : List (Value F A)} {d : Value F A} (h : entries.lookup "duration" = some (.list items))
      (hsum : Value.sum items = some d) : DictLasts frames entries d
  | duration {d : Value F A} (h : entries.lookup "duration" = some d) (hlist : ∀ items, d ≠ .list items)
      (hd : d.truth = some true) : DictLasts frames entries d
  | sample {sample d : Value F A} (hsilent : Silent entries) (h : entries.lookup "sample" = some sample)
      (hd : Field sample d) : DictLasts frames entries d
  | segments {segments d : Value F A} {parts ds : List (Value F A)} (hsilent : Silent entries)
      (hsample : entries.lookup "sample" = none) (h : entries.lookup "segments" = some segments)
      (hframes : frames ≠ 0) (hparts : segments.iterate = some parts) (hds : List.Forall₂ Field parts ds)
      (hsum : Value.sum ds = some d) : DictLasts frames entries d
  | bare (hsilent : Silent entries) (hsample : entries.lookup "sample" = none)
      (hsegments : entries.lookup "segments" = none) : DictLasts frames entries (.num .zero)

mutual

/-- A value that lasts `d`, and is not nested deeper than the frames allow. -/
inductive Lasts : ℕ → Value F A → Value F A → Prop
  | dict {frames : ℕ} {entries : List (String × Value F A)} {d : Value F A}
      (h : DictLasts frames entries d) : Lasts (frames + 1) (.dict entries) d
  | list {frames : ℕ} {items ds : List (Value F A)} {d : Value F A}
      (h : EachLasts frames items ds) (hsum : Value.sum ds = some d) : Lasts (frames + 2) (.list items) d
  | null (frames : ℕ) : Lasts (frames + 1) .null (.num .zero)
  | num (frames : ℕ) (d : Num F) : Lasts (frames + 1) (.num d) (.num .zero)
  | str (frames : ℕ) (text : String) : Lasts (frames + 1) (.str text) (.num .zero)
  | object (frames : ℕ) (a : A) : Lasts (frames + 1) (.object a) (.num .zero)
  | sentinel (frames : ℕ) : Lasts (frames + 1) .sentinel (.num .zero)

inductive EachLasts : ℕ → List (Value F A) → List (Value F A) → Prop
  | nil (frames : ℕ) : EachLasts frames [] []
  | cons {frames : ℕ} {item d : Value F A} {items ds : List (Value F A)} (h : Lasts frames item d)
      (hrest : EachLasts frames items ds) : EachLasts frames (item :: items) (d :: ds)

end

/-! ## `extract_audio_duration` finds the duration -/

theorem mapM_eq_some {α β : Type} {f : α → Option β} {xs : List α} {ys : List β} :
    xs.mapM f = some ys ↔ List.Forall₂ (fun x y ↦ f x = some y) xs ys := by
  induction xs generalizing ys with
  | nil => simp [eq_comm]
  | cons x xs ih =>
    simp only [List.mapM_cons, Option.bind_eq_bind, Option.bind_eq_some_iff, Option.pure_def,
      Option.some.injEq, List.forall₂_cons_left_iff, ih]
    constructor
    · rintro ⟨y, hy, ys, hys, rfl⟩
      exact ⟨y, ys, hy, hys, rfl⟩
    · rintro ⟨y, ys, hy, hys, rfl⟩
      exact ⟨y, hy, ys, hys, rfl⟩

/-- `value.get("duration", 0.0)` gives `d` for what has this field, and for nothing else. -/
theorem Value.getDuration_eq_some (value d : Value F A) : value.getDuration = some d ↔ Field value d := by
  constructor
  · intro h
    cases value with
    | dict entries =>
      cases hdur : entries.lookup "duration" with
      | none =>
        simp only [getDuration, hdur, Option.getD_none, Option.some.injEq] at h
        exact h ▸ .absent hdur
      | some dur =>
        simp only [getDuration, hdur, Option.getD_some, Option.some.injEq] at h
        exact h ▸ .present hdur
    | object a => exact .object h
    | _ => cases h
  · intro h
    cases h with
    | absent h => simp [getDuration, h]
    | present h => simp [getDuration, h]
    | object h => exact h

theorem Value.mapM_getDuration (values ds : List (Value F A)) :
    values.mapM getDuration = some ds ↔ List.Forall₂ Field values ds := by
  rw [mapM_eq_some]
  simp only [getDuration_eq_some]

theorem extractFromDict_list (frames : ℕ) {entries : List (String × Value F A)} {items : List (Value F A)}
    (h : entries.lookup "duration" = some (.list items)) :
    extractFromDict frames entries = Value.sum items := by
  simp [extractFromDict, h]

theorem extractFromDict_scalar (frames : ℕ) {entries : List (String × Value F A)} {dur : Value F A}
    (h : entries.lookup "duration" = some dur) (hlist : ∀ items, dur ≠ .list items) :
    extractFromDict frames entries =
      dur.truth.bind (fun t ↦ if t then some dur else extractInner frames entries) := by
  simp only [extractFromDict, h, Option.getD_some]
  cases dur with
  | list items => exact absurd rfl (hlist items)
  | _ => rfl

theorem extractFromDict_silent (frames : ℕ) {entries : List (String × Value F A)} (h : Silent entries) :
    extractFromDict frames entries = extractInner frames entries := by
  cases hdur : entries.lookup "duration" with
  | none =>
    simp only [extractFromDict, hdur, Option.getD_none, Value.truth, Num.zero_isZero]
    rfl
  | some dur =>
    obtain ⟨htruth, hlist⟩ := h dur hdur
    rw [extractFromDict_scalar frames hdur hlist, htruth]
    rfl

theorem extractInner_eq_some {frames : ℕ} {entries : List (String × Value F A)} {d : Value F A}
    (hsilent : Silent entries) (h : extractInner frames entries = some d) : DictLasts frames entries d := by
  unfold extractInner at h
  split at h
  case h_1 sample _ hsample =>
    exact .sample hsilent hsample ((Value.getDuration_eq_some _ d).mp h)
  case h_2 segments hsample hsegments =>
    split at h
    · cases h
    · rename_i hframes
      simp only [Option.bind_eq_bind, Option.bind_eq_some_iff] at h
      obtain ⟨parts, hparts, ds, hds, hsum⟩ := h
      exact .segments hsilent hsample hsegments hframes hparts ((Value.mapM_getDuration parts ds).mp hds) hsum
  case h_3 hsample hsegments =>
    cases h
    exact .bare hsilent hsample hsegments

/-- For a dictionary the computed duration is the declared one. -/
theorem extractFromDict_eq_some (frames : ℕ) (entries : List (String × Value F A)) (d : Value F A) :
    extractFromDict frames entries = some d ↔ DictLasts frames entries d := by
  constructor
  · intro h
    by_cases hsilent : Silent entries
    · exact extractInner_eq_some hsilent (extractFromDict_silent frames hsilent ▸ h)
    · simp only [Silent, not_forall] at hsilent
      obtain ⟨dur, hdur, hloud⟩ := hsilent
      by_cases hlist : ∃ items, dur = .list items
      · obtain ⟨items, rfl⟩ := hlist
        rw [extractFromDict_list frames hdur] at h
        exact .durations hdur h
      · have hscalar : ∀ items, dur ≠ .list items := fun items hitems ↦ hlist ⟨items, hitems⟩
        rw [extractFromDict_scalar frames hdur hscalar, Option.bind_eq_some_iff] at h
        obtain ⟨_ | _, htruth, h⟩ := h
        · exact absurd ⟨htruth, hscalar⟩ hloud
        · obtain rfl : dur = d := Option.some.inj h
          exact .duration hdur hscalar htruth
  · intro h
    cases h with
    | durations h hsum =>
      rw [extractFromDict_list frames h]
      exact hsum
    | duration h hlist hd =>
      rw [extractFromDict_scalar frames h hlist, hd]
      rfl
    | sample hsilent h hd =>
      rw [extractFromDict_silent frames hsilent, extractInner, h]
      exact (Value.getDuration_eq_some _ d).mpr hd
    | segments hsilent hsample h hframes hparts hds hsum =>
      rw [extractFromDict_silent frames hsilent]
      simp only [extractInner, hsample, h, if_neg hframes, hparts, (Value.mapM_getDuration _ _).mpr hds,
        Option.bind_eq_bind, Option.bind_some]
      exact hsum
    | bare hsilent hsample hsegments =>
      rw [extractFromDict_silent frames hsilent, extractInner, hsample, hsegments]

mutual

/-- `extract_audio_duration` returns what the value lasts, and raises when it lasts nothing. -/
theorem extractAudioDuration_eq_some (frames : ℕ) (value d : Value F A) :
    extractAudioDuration frames value = some d ↔ Lasts frames value d := by
  cases frames with
  | zero =>
    rw [extractAudioDuration]
    constructor
    · intro h
      cases h
    · intro h
      cases h
  | succ frames =>
    cases value with
    | dict entries =>
      rw [extractAudioDuration, extractFromDict_eq_some]
      exact ⟨.dict, fun | .dict h => h⟩
    | list items =>
      cases frames with
      | zero =>
        rw [extractAudioDuration]
        constructor
        · intro h
          cases h
        · intro h
          cases h
      | succ frames =>
        rw [extractAudioDuration, Option.bind_eq_bind, Option.bind_eq_some_iff]
        constructor
        · rintro ⟨ds, hds, hsum⟩
          exact .list ((extractEach_eq_some frames items ds).mp hds) hsum
        · intro h
          cases h with
          | list h hsum => exact ⟨_, (extractEach_eq_some frames items _).mpr h, hsum⟩
    | _ =>
      simp only [extractAudioDuration, Option.some.injEq]
      constructor
      · rintro rfl
        constructor
      · intro h
        cases h
        rfl

/-- For each item of a list it is too. -/
theorem extractEach_eq_some (frames : ℕ) (items ds : List (Value F A)) :
    extractEach frames items = some ds ↔ EachLasts frames items ds := by
  cases items with
  | nil =>
    constructor
    · intro h
      cases h
      exact .nil frames
    · intro h
      cases h
      rfl
  | cons item items =>
    simp only [extractEach, Option.bind_eq_bind, Option.bind_eq_some_iff, Option.pure_def,
      Option.some.injEq]
    constructor
    · rintro ⟨d, hd, ds, hds, rfl⟩
      exact .cons ((extractAudioDuration_eq_some frames item d).mp hd)
        ((extractEach_eq_some frames items ds).mp hds)
    · intro h
      cases h with
      | cons h hrest =>
        exact ⟨_, (extractAudioDuration_eq_some frames item _).mpr h, _,
          (extractEach_eq_some frames items _).mpr hrest, rfl⟩

end

theorem extractEach_eq_mapM (frames : ℕ) (items : List (Value F A)) :
    extractEach frames items = items.mapM (extractAudioDuration frames) := by
  induction items with
  | nil => rfl
  | cons item items ih => rw [extractEach, ih, List.mapM_cons]

end GpuPipe.Stats
