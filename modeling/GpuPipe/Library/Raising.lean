import Mathlib.Logic.Basic

/-!
# Computations that may raise

A computation here has a state and may raise. One is described by what holds when it has returned and when it
has raised. Two of them agree if, started in related states, they return the same value or raise the same
exception, and leave states that are related as is said for either case.
-/

universe u

namespace GpuPipe

/-! ## One computation -/

section Ends

variable {ε σ α β : Type u} {P : σ → Prop} {Q : α → σ → Prop} {E : ε → σ → Prop}

/-- From such a state it returns as the one says, or raises as the other does. -/
def Ends (P : σ → Prop) (x : EStateM ε σ α) (Q : α → σ → Prop) (E : ε → σ → Prop) : Prop :=
  ∀ s, P s → match x s with
    | .ok a t => Q a t
    | .error e t => E e t

theorem Ends.pure {a : α} (h : ∀ s, P s → Q a s) : Ends P (EStateM.pure a) Q E :=
  h

theorem Ends.throw {e : ε} (h : ∀ s, P s → E e s) : Ends P (EStateM.throw e) Q E :=
  h

theorem Ends.modify {f : σ → σ} {Q : PUnit → σ → Prop} (h : ∀ s, P s → Q ⟨⟩ (f s)) :
    Ends P (modify f) Q E :=
  h

theorem Ends.imp {x : EStateM ε σ α} {Q' : α → σ → Prop} {E' : ε → σ → Prop} (hx : Ends P x Q E)
    (hok : ∀ a s, Q a s → Q' a s) (herror : ∀ e s, E e s → E' e s) : Ends P x Q' E' := by
  intro s hs
  have hend := hx s hs
  generalize x s = r at hend ⊢
  cases r with
  | ok a t => exact hok a t hend
  | error e t => exact herror e t hend

theorem Ends.weaken {x : EStateM ε σ α} {E' : ε → σ → Prop} (hx : Ends P x Q E)
    (h : ∀ e s, E e s → E' e s) : Ends P x Q E' :=
  hx.imp (fun _ _ hend ↦ hend) h

theorem Ends.bind {x : EStateM ε σ α} {f : α → EStateM ε σ β} {Q' : β → σ → Prop}
    (hx : Ends P x Q E) (hf : ∀ a, Ends (Q a) (f a) Q' E) : Ends P (x >>= f) Q' E := by
  intro s hs
  have h := hx s hs
  change match EStateM.bind x f s with
    | .ok a t => Q' a t
    | .error e t => E e t
  unfold EStateM.bind
  generalize x s = r at h ⊢
  cases r with
  | ok a t => exact hf a t h
  | error e t => exact h

/-- What comes after a computation that does not return is not reached. -/
theorem Ends.raises {x : EStateM ε σ α} (hx : Ends P x (fun _ _ ↦ False) E) (f : α → EStateM ε σ β)
    {Q : β → σ → Prop} : Ends P (x >>= f) Q E :=
  hx.bind fun _ _ h ↦ h.elim

theorem Ends.tryCatch {x : EStateM ε σ α} {f : ε → EStateM ε σ α} {E' : ε → σ → Prop}
    (hx : Ends P x Q E) (hf : ∀ e, Ends (E e) (f e) Q E') : Ends P (tryCatch x f) Q E' := by
  intro s hs
  have h := hx s hs
  change match EStateM.tryCatch x f s with
    | .ok a t => Q a t
    | .error e t => E' e t
  unfold EStateM.tryCatch
  generalize x s = r at h ⊢
  cases r with
  | ok a t => exact h
  | error e t => exact hf e t h

/-- It reads its state. -/
theorem Ends.get {f : σ → EStateM ε σ α} (h : ∀ s, P s → Ends (· = s) (f s) Q E) :
    Ends P (get >>= f) Q E :=
  fun s hs ↦ h s hs s rfl

end Ends

/-! ## Two side by side -/

section Twin

variable {ε σ τ α β : Type u} {P Q Q' E E' : σ → τ → Prop}

/-- The same value, or the same exception, in related states. -/
inductive Agreed (Q E : σ → τ → Prop) : EStateM.Result ε σ α → EStateM.Result ε τ α → Prop
  | ok {s : σ} {t : τ} (a : α) (h : Q s t) : Agreed Q E (.ok a s) (.ok a t)
  | error {s : σ} {t : τ} (e : ε) (h : E s t) : Agreed Q E (.error e s) (.error e t)

/-- Run from states related by `P`, the two return in states related by `Q` or raise in states related by `E`. -/
def Agree (P : σ → τ → Prop) (x : EStateM ε σ α) (y : EStateM ε τ α) (Q E : σ → τ → Prop) : Prop :=
  ∀ s t, P s t → Agreed Q E (x s) (y t)

theorem Agree.pure (a : α) (h : ∀ s t, P s t → Q s t) :
    Agree P (EStateM.pure a : EStateM ε σ α) (EStateM.pure a) Q E :=
  fun s t hst ↦ .ok a (h s t hst)

theorem Agree.throw (e : ε) (h : ∀ s t, P s t → E s t) :
    Agree P (EStateM.throw e : EStateM ε σ α) (EStateM.throw e : EStateM ε τ α) Q E :=
  fun s t hst ↦ .error e (h s t hst)

theorem Agree.modify {f : σ → σ} {g : τ → τ} (h : ∀ s t, P s t → Q (f s) (g t)) :
    Agree P (modify f : EStateM ε σ PUnit) (modify g) Q E :=
  fun s t hst ↦ .ok PUnit.unit (h s t hst)

theorem Agree.weaken {x : EStateM ε σ α} {y : EStateM ε τ α} (hxy : Agree P x y Q E)
    (hok : ∀ s t, Q s t → Q' s t) (herror : ∀ s t, E s t → E' s t) : Agree P x y Q' E' := by
  intro s t hst
  have h := hxy s t hst
  generalize x s = r at h ⊢
  generalize y t = r' at h ⊢
  cases h with
  | ok a h => exact .ok a (hok _ _ h)
  | error e h => exact .error e (herror _ _ h)

theorem Agree.bind {x : EStateM ε σ α} {y : EStateM ε τ α} {f : α → EStateM ε σ β}
    {g : α → EStateM ε τ β} (hxy : Agree P x y Q E) (hfg : ∀ a, Agree Q (f a) (g a) Q' E) :
    Agree P (x >>= f) (y >>= g) Q' E := by
  intro s t hst
  have h := hxy s t hst
  change Agreed Q' E (EStateM.bind x f s) (EStateM.bind y g t)
  unfold EStateM.bind
  generalize x s = r at h ⊢
  generalize y t = r' at h ⊢
  cases h with
  | ok a h => exact hfg a _ _ h
  | error e h => exact .error e h

/-- Both read their states. -/
theorem Agree.get {f : σ → EStateM ε σ β} {g : τ → EStateM ε τ β}
    (h : ∀ s t, P s t → Agreed Q E (f s s) (g t t)) : Agree P (get >>= f) (get >>= g) Q E :=
  h

theorem Agree.tryCatch {x : EStateM ε σ α} {y : EStateM ε τ α} {f : ε → EStateM ε σ α}
    {g : ε → EStateM ε τ α} (hxy : Agree P x y Q E) (hfg : ∀ e, Agree E (f e) (g e) Q E') :
    Agree P (tryCatch x f) (tryCatch y g) Q E' := by
  intro s t hst
  have h := hxy s t hst
  change Agreed Q E' (EStateM.tryCatch x f s) (EStateM.tryCatch y g t)
  unfold EStateM.tryCatch
  generalize x s = r at h ⊢
  generalize y t = r' at h ⊢
  cases h with
  | ok a h => exact .ok a h
  | error e h => exact hfg e _ _ h

end Twin

end GpuPipe
