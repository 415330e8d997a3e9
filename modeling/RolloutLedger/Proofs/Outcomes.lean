import Mathlib.Data.List.Forall2
import RolloutLedger.Error
/-! # Outcomes

What is known of the parts when a composed outcome is an answer, and what lists of outcomes
come to.
-/

namespace RolloutLedger

variable {ε α β : Type}

theorem ok_bind (a : α) (f : α → Except ε β) : (.ok a : Except ε α) >>= f = f a := rfl

theorem bind_eq_ok_iff {x : Except ε α} {f : α → Except ε β} {b : β} :
    (x >>= f) = .ok b ↔ ∃ a, x = .ok a ∧ f a = .ok b := by
  cases x with
  | error e => exact ⟨fun h => (nomatch h), fun ⟨_, h, _⟩ => (nomatch h)⟩
  | ok a => exact ⟨fun h => ⟨a, rfl, h⟩, fun ⟨_, h, hb⟩ => by cases h; exact hb⟩

theorem map_eq_ok_iff {x : Except ε α} {f : α → β} {b : β} :
    x.map f = .ok b ↔ ∃ a, x = .ok a ∧ f a = b := by
  cases x with
  | error e => exact ⟨fun h => (nomatch h), fun ⟨_, h, _⟩ => (nomatch h)⟩
  | ok a => exact ⟨fun h => ⟨a, rfl, Except.ok.inj h⟩, fun ⟨_, h, hb⟩ => by cases h; rw [← hb]; rfl⟩

theorem map_eq_error_iff {x : Except ε α} {f : α → β} {e : ε} :
    x.map f = .error e ↔ x = .error e := by
  cases x with
  | error e' => exact ⟨fun h => by cases h; rfl, fun h => by cases h; rfl⟩
  | ok a => exact ⟨fun h => (nomatch h), fun h => (nomatch h)⟩

theorem mapError_eq_ok_iff {ε' : Type} {x : Except ε α} {f : ε → ε'} {a : α} :
    x.mapError f = .ok a ↔ x = .ok a := by
  cases x with
  | error e => exact ⟨fun h => (nomatch h), fun h => (nomatch h)⟩
  | ok b => exact ⟨fun h => by cases h; rfl, fun h => by cases h; rfl⟩

/-! ## Lists -/

theorem exists_of_mapM_eq_ok {f : α → Except ε β} :
    ∀ {xs : List α} {ys : List β}, xs.mapM f = .ok ys → ∀ y ∈ ys, ∃ x ∈ xs, f x = .ok y
  | [], _, h, y, hy => by
    cases h
    exact absurd hy List.not_mem_nil
  | x :: xs, _, h, y, hy => by
    rw [List.mapM_cons] at h
    obtain ⟨z, hz, h⟩ := bind_eq_ok_iff.mp h
    obtain ⟨zs, hzs, h⟩ := bind_eq_ok_iff.mp h
    cases h
    rcases List.mem_cons.mp hy with rfl | hy
    · exact ⟨x, List.mem_cons_self, hz⟩
    · obtain ⟨w, hw, hwy⟩ := exists_of_mapM_eq_ok hzs y hy
      exact ⟨w, List.mem_cons_of_mem _ hw, hwy⟩

theorem exists_mem_of_mapM_eq_ok {f : α → Except ε β} {xs : List α} {ys : List β}
    (h : xs.mapM f = .ok ys) : ∀ x ∈ xs, ∃ y ∈ ys, f x = .ok y := by
  induction xs generalizing ys with
  | nil =>
    intro x hx
    exact absurd hx List.not_mem_nil
  | cons z zs ih =>
    rw [List.mapM_cons] at h
    obtain ⟨y, hy, h⟩ := bind_eq_ok_iff.mp h
    obtain ⟨ys', hys, h⟩ := bind_eq_ok_iff.mp h
    cases h
    intro x hx
    rcases List.mem_cons.mp hx with rfl | hx
    · exact ⟨y, List.mem_cons_self, hy⟩
    · obtain ⟨w, hw, hxw⟩ := ih hys x hx
      exact ⟨w, List.mem_cons_of_mem _ hw, hxw⟩

theorem exists_of_mem_of_mapM_eq_ok {f : α → Except ε β} {xs : List α} {ys : List β}
    (h : xs.mapM f = .ok ys) : ∀ x ∈ xs, ∃ y, f x = .ok y := by
  intro x hx
  obtain ⟨y, -, hy⟩ := exists_mem_of_mapM_eq_ok h x hx
  exact ⟨y, hy⟩

theorem getElem?_of_mapM_eq_ok {f : α → Except ε β} {xs : List α} {ys : List β}
    (h : xs.mapM f = .ok ys) (i : Nat) :
    (xs[i]? = none ∧ ys[i]? = none) ∨
      ∃ x y, xs[i]? = some x ∧ ys[i]? = some y ∧ f x = .ok y := by
  induction xs generalizing ys i with
  | nil =>
    cases h
    exact Or.inl ⟨rfl, rfl⟩
  | cons x xs ih =>
    rw [List.mapM_cons] at h
    obtain ⟨y, hy, h⟩ := bind_eq_ok_iff.mp h
    obtain ⟨zs, hzs, h⟩ := bind_eq_ok_iff.mp h
    cases h
    cases i with
    | zero => exact Or.inr ⟨x, y, rfl, rfl, hy⟩
    | succ i => exact ih hzs i

/-- Where a result tells its element, a list has results just if it consists of such elements. -/
theorem mapM_eq_ok_iff_map {f : α → Except ε β} {g : β → α} {P : β → Prop}
    (h : ∀ x y, f x = .ok y ↔ x = g y ∧ P y) {xs : List α} {ys : List β} :
    xs.mapM f = .ok ys ↔ xs = ys.map g ∧ ∀ y ∈ ys, P y := by
  induction xs generalizing ys with
  | nil =>
    rw [List.mapM_nil]
    constructor
    · intro hys
      cases hys
      exact ⟨rfl, fun y hy => absurd hy List.not_mem_nil⟩
    · rintro ⟨hys, -⟩
      rw [List.map_eq_nil_iff.mp hys.symm]
      rfl
  | cons x xs ih =>
    rw [List.mapM_cons, bind_eq_ok_iff]
    constructor
    · rintro ⟨y, hy, hbind⟩
      obtain ⟨zs, hzs, hbind⟩ := bind_eq_ok_iff.mp hbind
      cases hbind
      obtain ⟨rfl, hP⟩ := (h x y).mp hy
      obtain ⟨rfl, hrest⟩ := ih.mp hzs
      exact ⟨rfl, List.forall_mem_cons.mpr ⟨hP, hrest⟩⟩
    · rintro ⟨hxs, hP⟩
      cases ys with
      | nil => exact nomatch hxs
      | cons y ys =>
        obtain ⟨hx, hrest⟩ := List.cons.inj hxs
        obtain ⟨hy, hys⟩ := List.forall_mem_cons.mp hP
        exact ⟨y, (h x y).mpr ⟨hx, hy⟩, bind_eq_ok_iff.mpr ⟨ys, ih.mpr ⟨hrest, hys⟩, rfl⟩⟩

theorem mapM_eq_ok_map {f : α → Except ε β} {g : α → β} {xs : List α}
    (h : ∀ x ∈ xs, f x = .ok (g x)) : xs.mapM f = .ok (xs.map g) := by
  induction xs with
  | nil => rfl
  | cons x xs ih =>
    rw [List.mapM_cons, h x List.mem_cons_self, ih fun y hy => h y (List.mem_cons_of_mem _ hy)]
    rfl

theorem mapM_id_map_ok (xs : List α) :
    (xs.map Except.ok).mapM id = (.ok xs : Except ε (List α)) := by
  rw [List.mapM_map]
  exact (mapM_eq_ok_map (g := id) fun _ _ => rfl).trans (congrArg _ (List.map_id xs))

theorem mapM_congr {f g : α → Except ε β} {xs : List α} (h : ∀ x ∈ xs, f x = g x) :
    xs.mapM f = xs.mapM g := by
  induction xs with
  | nil => rfl
  | cons x xs ih =>
    rw [List.mapM_cons, List.mapM_cons, h x List.mem_cons_self,
      ih fun y hy => h y (List.mem_cons_of_mem _ hy)]

/-- Results that are all there if all elements satisfy a condition, and one failure otherwise. -/
theorem mapM_of_ite {f : α → Except ε β} {c : α → Bool} {g : α → β} {e : ε} {xs : List α}
    (h : ∀ x ∈ xs, f x = if c x then .ok (g x) else .error e) :
    xs.mapM f = if xs.all c then .ok (xs.map g) else .error e := by
  induction xs with
  | nil => rfl
  | cons x xs ih =>
    rw [List.mapM_cons, h x List.mem_cons_self, ih fun y hy => h y (List.mem_cons_of_mem _ hy),
      List.all_cons]
    cases c x with
    | false => rfl
    | true => cases xs.all c <;> rfl

/-! ## What answers and failures are like -/

/-- Outcomes whose answer meets one condition, or whose failure meets another one. -/
inductive Meets (answers : α → Prop) (failures : ε → Prop) : Except ε α → Prop
  | ok {a : α} (h : answers a) : Meets answers failures (.ok a)
  | error {e : ε} (h : failures e) : Meets answers failures (.error e)

namespace Meets

variable {P P' : α → Prop} {R : β → Prop} {Q Q' : ε → Prop} {x : Except ε α}

theorem any (x : Except ε α) : Meets (fun _ => True) (fun _ => True) x := by
  cases x with
  | error e => exact .error trivial
  | ok a => exact .ok trivial

theorem of_ok {a : α} (h : Meets P Q x) (hx : x = .ok a) : P a := by
  cases h with
  | ok h => exact Except.ok.inj hx ▸ h
  | error _ => exact nomatch hx

theorem of_error {e : ε} (h : Meets P Q x) (hx : x = .error e) : Q e := by
  cases h with
  | error h => exact Except.error.inj hx ▸ h
  | ok _ => exact nomatch hx

theorem exists_ok (h : Meets P (fun _ => False) x) : ∃ a, x = .ok a := by
  cases h with
  | ok _ => exact ⟨_, rfl⟩
  | error h => exact h.elim

theorem mono (h : Meets P Q x) (hP : ∀ a, P a → P' a) (hQ : ∀ e, Q e → Q' e) : Meets P' Q' x := by
  cases h with
  | error h => exact .error (hQ _ h)
  | ok h => exact .ok (hP _ h)

theorem map {f : α → β} (h : Meets P Q x) (hf : ∀ a, P a → R (f a)) : Meets R Q (x.map f) := by
  cases h with
  | error h => exact .error h
  | ok h => exact .ok (hf _ h)

theorem mapError {ε' : Type} {S : ε' → Prop} {f : ε → ε'} (h : Meets P Q x)
    (hf : ∀ e, Q e → S (f e)) : Meets P S (x.mapError f) := by
  cases h with
  | error h => exact .error (hf _ h)
  | ok h => exact .ok h

theorem bind {f : α → Except ε β} (h : Meets P Q x) (hf : ∀ a, P a → Meets R Q (f a)) :
    Meets R Q (x >>= f) := by
  cases h with
  | error h => exact .error h
  | ok h => exact hf _ h

theorem mapM {f : α → Except ε β} {xs : List α} (h : ∀ x ∈ xs, Meets R Q (f x)) :
    Meets (fun ys => ∀ y ∈ ys, R y) Q (xs.mapM f) := by
  induction xs with
  | nil => exact .ok fun y hy => absurd hy List.not_mem_nil
  | cons x xs ih =>
    rw [List.mapM_cons]
    refine bind (h x List.mem_cons_self) fun y hy => ?_
    refine bind (ih fun z hz => h z (List.mem_cons_of_mem _ hz)) fun ys hys => ?_
    exact .ok (List.forall_mem_cons.mpr ⟨hy, hys⟩)

/-- Each outcome may be known through what it belongs to. -/
theorem mapM_of_forall₂ {γ : Type} {S : γ → α → Prop} {f : α → Except ε β} {ts : List γ}
    {xs : List α} (h : List.Forall₂ S ts xs) (hS : ∀ t x, S t x → Meets R Q (f x)) :
    Meets (fun ys => ∀ y ∈ ys, R y) Q (xs.mapM f) := by
  induction h with
  | nil => exact .ok fun y hy => absurd hy List.not_mem_nil
  | cons hx _ ih =>
    rw [List.mapM_cons]
    refine bind (hS _ _ hx) fun y hy => bind ih fun ys hys => ?_
    exact .ok (List.forall_mem_cons.mpr ⟨hy, hys⟩)

end Meets

/-! ## Outcomes that agree where there is one -/

/-- One outcome is an answer at least where another is, and the same answer. -/
def Extends (y x : Except ε α) : Prop := ∀ a, x = .ok a → y = .ok a

/-! ## Outcomes that are cut short -/

/-- One outcome is another one, or it is a failure of its own. -/
def Curtails (e : ε) (x y : Except ε α) : Prop := x = y ∨ x = .error e

namespace Curtails

variable {e : ε} {x y : Except ε α}

theorem refl (x : Except ε α) : Curtails e x x := Or.inl rfl

theorem error (y : Except ε α) : Curtails e (.error e) y := Or.inr rfl

/-- What was not cut short is the same. -/
theorem of_ok {a : α} (h : Curtails e x y) (hx : x = .ok a) : y = .ok a := by
  rcases h with rfl | h
  · exact hx
  · rw [hx] at h
    exact nomatch h

theorem bind {f g : α → Except ε β} (h : Curtails e x y) (hfg : ∀ a, Curtails e (f a) (g a)) :
    Curtails e (x >>= f) (y >>= g) := by
  rcases h with rfl | rfl
  · cases x with
    | error e' => exact .refl _
    | ok a => exact hfg a
  · exact .error _

theorem map (h : Curtails e x y) (f : α → β) : Curtails e (x.map f) (y.map f) := by
  rcases h with rfl | rfl
  · exact .refl _
  · exact .error _

theorem mapError {ε' : Type} (h : Curtails e x y) (f : ε → ε') :
    Curtails (f e) (x.mapError f) (y.mapError f) := by
  rcases h with rfl | rfl
  · exact .refl _
  · exact .error _

end Curtails

/-! ## Outcomes that fail alike -/

/-- Two outcomes of which one fails exactly if the other does, with the same failure. -/
def FailAlike {α β : Type} (x : Except ε α) (y : Except ε β) : Prop :=
  ∀ e, x = .error e ↔ y = .error e

namespace FailAlike

variable {α' β' : Type}

theorem refl (x : Except ε α) : FailAlike x x := fun _ => Iff.rfl

theorem of_ok (a : α) (b : β) : FailAlike (.ok a : Except ε α) (.ok b : Except ε β) :=
  fun _ => ⟨fun h => (nomatch h), fun h => (nomatch h)⟩

theorem of_error (e : ε) : FailAlike (.error e : Except ε α) (.error e : Except ε β) :=
  fun _ => ⟨fun h => congrArg Except.error (Except.error.inj h),
    fun h => congrArg Except.error (Except.error.inj h)⟩

theorem bind {x : Except ε α} {y : Except ε α'} {f : α → Except ε β} {g : α' → Except ε β'}
    (h : FailAlike x y) (hfg : ∀ a a', FailAlike (f a) (g a')) :
    FailAlike (x >>= f) (y >>= g) := by
  cases x with
  | error e =>
    rw [(h e).mp rfl]
    exact of_error e
  | ok a =>
    cases y with
    | error e => exact nomatch (h e).mpr rfl
    | ok a' => exact hfg a a'

/-- After the same outcome only what follows on one answer has to fail alike. -/
theorem bind_same (x : Except ε α) {f : α → Except ε β} {g : α → Except ε β'}
    (hfg : ∀ a, FailAlike (f a) (g a)) : FailAlike (x >>= f) (x >>= g) := by
  cases x with
  | error e => exact of_error e
  | ok a => exact hfg a

theorem map {x : Except ε α} {y : Except ε α'} (h : FailAlike x y) (f : α → β) (g : α' → β') :
    FailAlike (x.map f) (y.map g) := by
  cases x with
  | error e =>
    rw [(h e).mp rfl]
    exact of_error e
  | ok a =>
    cases y with
    | error e => exact nomatch (h e).mpr rfl
    | ok a' => exact of_ok (f a) (g a')

end FailAlike

end RolloutLedger
