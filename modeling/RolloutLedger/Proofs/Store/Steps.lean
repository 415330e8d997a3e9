import RolloutLedger.Store.Basic
/-! # Composed steps

What a composed step did, alone and beside another one.
-/

namespace RolloutLedger.Step

/-! ## What a composed step did

A composed step either stopped in its first part or went on to its second with what the first
answered; an answer tells that both parts answered.
-/

variable {σ α β : Type} {s s' : σ} {j : Journal}

theorem bind_eq_iff {x : Step σ α} {f : α → Step σ β} {b : Except Error β} :
    (x >>= f) s = ⟨b, s', j⟩ ↔
      (∃ e, x s = ⟨.error e, s', j⟩ ∧ b = .error e) ∨
        ∃ a t i k, x s = ⟨.ok a, t, i⟩ ∧ f a t = ⟨b, s', k⟩ ∧ j = i ++ k := by
  rcases hx : x s with ⟨a, t, i⟩
  cases a with
  | error e =>
    rw [bind_apply_error hx]
    constructor
    · intro h
      cases h
      exact Or.inl ⟨e, rfl, rfl⟩
    · rintro (⟨e', h, rfl⟩ | ⟨_, _, _, _, h, -, -⟩)
      · cases h
        rfl
      · cases h
  | ok a =>
    rw [bind_apply_ok hx]
    constructor
    · intro h
      cases h
      exact Or.inr ⟨a, t, i, _, rfl, rfl, rfl⟩
    · rintro (⟨_, h, -⟩ | ⟨_, _, _, _, h, hf, rfl⟩)
      · cases h
      · cases h
        rw [hf]

theorem bind_eq_ok_iff {x : Step σ α} {f : α → Step σ β} {b : β} :
    (x >>= f) s = ⟨.ok b, s', j⟩ ↔
      ∃ a t i k, x s = ⟨.ok a, t, i⟩ ∧ f a t = ⟨.ok b, s', k⟩ ∧ j = i ++ k := by
  rw [bind_eq_iff]
  exact or_iff_right fun ⟨_, _, h⟩ => nomatch h

theorem ofExcept_apply (x : Except Error α) (s : σ) : ofExcept x s = ⟨x, s, []⟩ := by
  cases x <;> rfl

theorem ofExcept_eq_iff {x : Except Error α} {a : Except Error α} :
    ofExcept x s = ⟨a, s', j⟩ ↔ x = a ∧ s' = s ∧ j = [] := by
  rw [ofExcept_apply]
  constructor
  · intro h
    cases h
    exact ⟨rfl, rfl, rfl⟩
  · rintro ⟨rfl, rfl, rfl⟩
    rfl

theorem attempt_eq_ok_iff {x : Step σ α} {a : Except Error α} :
    x.attempt s = ⟨.ok a, s', j⟩ ↔ x s = ⟨a, s', j⟩ := by
  rcases hx : x s with ⟨b, t, i⟩
  rw [attempt, hx]
  constructor
  · intro h
    cases h
    rfl
  · intro h
    cases h
    rfl

theorem exists_of_isOk {x : Step σ α} (h : (x s).answer.isOk = true) :
    ∃ a s' j, x s = ⟨.ok a, s', j⟩ := by
  rcases hx : x s with ⟨a, t, i⟩
  rw [hx] at h
  cases a with
  | error e => exact Bool.noConfusion h
  | ok a => exact ⟨a, t, i, rfl⟩

/-! ### Properties that steps keep -/

/-- A step that leaves every state with a property in a state with the property, whether it
answers or fails. -/
def Keeps (P : σ → Prop) (x : Step σ α) : Prop := ∀ s, P s → P (x s).state

variable {P : σ → Prop}

theorem keeps_pure (a : α) : Keeps P (pure a : Step σ α) := fun _ h => h

theorem keeps_fail (e : Error) : Keeps P (fail e : Step σ α) := fun _ h => h

theorem keeps_note (j : Journal) : Keeps P (note j : Step σ Unit) := fun _ h => h

theorem keeps_ofExcept (x : Except Error α) : Keeps P (ofExcept x : Step σ α) := by
  intro s h
  rw [ofExcept_apply]
  exact h

theorem Keeps.attempt {x : Step σ α} (h : Keeps P x) : Keeps P x.attempt := h

theorem Keeps.bind {x : Step σ α} {f : α → Step σ β} (hx : Keeps P x)
    (hf : ∀ a, Keeps P (f a)) : Keeps P (x >>= f) := by
  intro s hs
  rcases hrun : (x >>= f) s with ⟨b, s', j⟩
  have hstate := hx s hs
  rcases bind_eq_iff.mp hrun with ⟨e, hfail, -⟩ | ⟨a, t, i, k, hok, hrest, -⟩
  · rw [hfail] at hstate
    exact hstate
  · rw [hok] at hstate
    have hafter := hf a t hstate
    rw [hrest] at hafter
    exact hafter

end RolloutLedger.Step

namespace RolloutLedger

/-! ## Two runs side by side

One step, taken from two states that are alike, agrees with another one if both fail with the same
error or both answer with answers that are alike, if both leave the same notes, and if the states
are alike afterwards.  What is composed of steps that agree agrees.
-/

/-- What two steps left is alike: their states, their notes, and their errors or their answers. -/
inductive Outcome.Agrees {σ α β : Type} (R : σ → σ → Prop) (A : α → β → Prop) :
    Outcome σ α → Outcome σ β → Prop
  | answered {a : α} {b : β} {s t : σ} {j : Journal} (answers : A a b) (states : R s t) :
    Agrees R A ⟨.ok a, s, j⟩ ⟨.ok b, t, j⟩
  | failed {e : Error} {s t : σ} {j : Journal} (states : R s t) :
    Agrees R A ⟨.error e, s, j⟩ ⟨.error e, t, j⟩

namespace Step

variable {σ α α' β β' : Type}

/-- Two steps that agree wherever they are taken from states that are alike. -/
def Agree (R : σ → σ → Prop) (A : α → α' → Prop) (x : Step σ α) (y : Step σ α') : Prop :=
  ∀ s t, R s t → (x s).Agrees R A (y t)

variable {R : σ → σ → Prop} {A : α → α' → Prop} {B : β → β' → Prop}

theorem agree_pure {a : α} {a' : α'} (h : A a a') :
    Agree R A (pure a : Step σ α) (pure a') := fun _ _ hs => .answered h hs

theorem agree_fail (e : Error) : Agree R A (fail e : Step σ α) (fail e) :=
  fun _ _ hs => .failed hs

theorem agree_note (j : Journal) : Agree R Eq (note j : Step σ Unit) (note j) :=
  fun _ _ hs => .answered rfl hs

theorem agree_ofExcept (x : Except Error α) :
    Agree R (fun a b => a = b ∧ x = .ok a) (ofExcept x : Step σ α) (ofExcept x) := by
  cases x with
  | error e => exact agree_fail e
  | ok a => exact agree_pure ⟨rfl, rfl⟩

theorem agrees_bind {x : Step σ α} {y : Step σ α'} {f : α → Step σ β} {g : α' → Step σ β'}
    {s t : σ} (h : (x s).Agrees R A (y t)) (hfg : ∀ a a', A a a' → Agree R B (f a) (g a')) :
    ((x >>= f) s).Agrees R B ((y >>= g) t) := by
  rcases hx : x s with ⟨a, s', i⟩
  rcases hy : y t with ⟨b, t', k⟩
  rw [hx, hy] at h
  cases h with
  | failed states =>
    rw [bind_apply_error hx, bind_apply_error hy]
    exact .failed states
  | @answered a b _ _ _ answers states =>
    have hrest := hfg a b answers s' t' states
    rw [bind_apply_ok hx, bind_apply_ok hy]
    rcases hf : f a s' with ⟨c, s'', l⟩
    rcases hg : g b t' with ⟨d, t'', n⟩
    rw [hf, hg] at hrest
    cases hrest with
    | failed states => exact .failed states
    | answered answers states => exact .answered answers states

theorem Agree.bind {x : Step σ α} {y : Step σ α'} {f : α → Step σ β} {g : α' → Step σ β'}
    (h : Agree R A x y) (hfg : ∀ a a', A a a' → Agree R B (f a) (g a')) :
    Agree R B (x >>= f) (y >>= g) := fun s t hs => agrees_bind (h s t hs) hfg

theorem Agree.attempt {x y : Step σ α} (h : Agree R Eq x y) :
    Agree R Eq x.attempt y.attempt := by
  intro s t hs
  have hxy := h s t hs
  rcases hx : x s with ⟨a, s', i⟩
  rcases hy : y t with ⟨b, t', k⟩
  rw [hx, hy] at hxy
  rw [Step.attempt, Step.attempt, hx, hy]
  cases hxy with
  | failed states => exact .answered rfl states
  | answered answers states => exact .answered (congrArg Except.ok answers) states

end Step

end RolloutLedger
