import RolloutLedger.Gate.Check
import RolloutLedger.Proofs.Digest.Canonical
/-! # What a check comes to

A check may fail to return, when content that it compares has no canonical form or keys that it
sorts have no order.  If it returns, it is satisfied or names what differs.  A check that is made
of others is satisfied if all of them are.
-/

namespace RolloutLedger.Gate

/-- A check that returns, and finds that nothing differs. -/
def Satisfied (x : Except Error Checked) : Prop := ∃ c, x = .ok c ∧ c.verdict = .satisfied

/-! ## Verdicts -/

section Verdicts

variable {c : Checked} {x y : Except Error Checked}

theorem satisfied_ok_iff : Satisfied (.ok c) ↔ c.verdict = .satisfied := by
  constructor
  · rintro ⟨d, hd, hsatisfied⟩
    cases hd
    exact hsatisfied
  · intro h
    exact ⟨c, rfl, h⟩

instance : Decidable (Satisfied x) :=
  match x with
  | .error _ => isFalse fun ⟨_, h, _⟩ => nomatch h
  | .ok c => decidable_of_iff (c.verdict = .satisfied) satisfied_ok_iff.symm

theorem not_satisfied_mismatch (name reason : String) :
    ¬ Satisfied (.ok (.mismatch name reason)) := by
  rw [satisfied_ok_iff]
  intro h
  cases h

theorem satisfied_bind_iff {α : Type} {z : Except Error α} {f : α → Except Error Checked} :
    Satisfied (z >>= f) ↔ ∃ a, z = .ok a ∧ Satisfied (f a) := by
  cases z with
  | error e =>
    constructor
    · rintro ⟨d, hd, -⟩
      cases hd
    · rintro ⟨a, ha, -⟩
      cases ha
  | ok a =>
    rw [ok_bind]
    constructor
    · intro h
      exact ⟨a, rfl, h⟩
    · rintro ⟨b, hb, h⟩
      cases hb
      exact h

theorem satisfied_andThen_iff : Satisfied (c.andThen x) ↔ c.verdict = .satisfied ∧ Satisfied x := by
  unfold Checked.andThen
  cases hverdict : c.verdict with
  | satisfied =>
    rw [eq_self, true_and]
    cases x with
    | error e => rfl
    | ok d =>
      rw [Except.map, satisfied_ok_iff, satisfied_ok_iff]
  | differs name reason =>
    have hnot : ¬ Satisfied (.ok c) := by
      rw [satisfied_ok_iff, hverdict]
      intro h
      cases h
    constructor
    · intro h
      exact absurd h hnot
    · rintro ⟨h, -⟩
      cases h

theorem satisfied_both_iff :
    Satisfied (x >>= fun c => c.andThen y) ↔ Satisfied x ∧ Satisfied y := by
  rw [satisfied_bind_iff]
  constructor
  · rintro ⟨c, hx, h⟩
    obtain ⟨hc, hy⟩ := satisfied_andThen_iff.mp h
    exact ⟨⟨c, hx, hc⟩, hy⟩
  · rintro ⟨⟨c, hx, hc⟩, hy⟩
    exact ⟨c, hx, satisfied_andThen_iff.mpr ⟨hc, hy⟩⟩

theorem verdict_within_iff {part : String} :
    (c.within part).verdict = .satisfied ↔ c.verdict = .satisfied := by
  unfold Checked.within Verdict.within
  cases c.verdict <;> simp

theorem exists_andThen (h : ∃ d, x = .ok d) : ∃ d, c.andThen x = .ok d := by
  unfold Checked.andThen
  cases c.verdict with
  | satisfied =>
    obtain ⟨d, rfl⟩ := h
    exact ⟨_, rfl⟩
  | differs name reason => exact ⟨c, rfl⟩

theorem exists_both (hx : ∃ c, x = .ok c) (hy : ∃ d, y = .ok d) :
    ∃ d, (x >>= fun c => c.andThen y) = .ok d := by
  obtain ⟨c, rfl⟩ := hx
  exact exists_andThen hy

end Verdicts

/-! ## Labels and annotations -/

/-- Every wanted member is there with an equal value. -/
def Covers (wanted there : Entries) : Prop :=
  ∀ p ∈ wanted, ∃ v, Entries.get? p.1 there = some v ∧ v.same p.2 = true

section Labels

variable {wanted there : Entries}

theorem firstLacking_spec (there : Entries) :
    ∀ wanted, ∃ k, firstLacking (.object there) wanted = .ok k ∧
      (k = none ↔ Covers wanted there) := by
  intro wanted
  induction wanted with
  | nil => exact ⟨none, rfl, by simp [Covers]⟩
  | cons p rest ih =>
    obtain ⟨k, w⟩ := p
    obtain ⟨first, hfirst, hiff⟩ := ih
    unfold firstLacking
    have hheld : (Value.object there).held k = .ok (Entries.get? k there) := rfl
    rw [hheld, ok_bind]
    cases hget : Entries.get? k there with
    | none => exact ⟨some k, rfl, by simp [Covers, hget]⟩
    | some v =>
      by_cases hsame : v.same w = true
      · refine ⟨first, ?_, ?_⟩
        · simp only [hsame, if_true]
          exact hfirst
        · rw [hiff]
          simp [Covers, hget, hsame]
      · refine ⟨some k, ?_, by simp [Covers, hget, hsame]⟩
        simp only [hsame]
        rfl

theorem covers_perm {wanted' : Entries} (h : wanted'.Perm wanted) :
    Covers wanted' there ↔ Covers wanted there := by
  unfold Covers
  simp only [h.mem_iff]

/-- Where the wanted keys have an order, members are checked, and as meant. -/
theorem checkMembers_spec (name what : String) (there : Entries)
    (hkeys : Key.areComparable (wanted.map (·.1)) = true) :
    ∃ c, checkMembers name what (.object wanted) (.object there) = .ok c ∧
      (c.verdict = .satisfied ↔ Covers wanted there) := by
  have hsorted : ∃ sorted, sortMembers? wanted = some sorted := by
    unfold sortMembers?
    rw [hkeys, Bool.not_true, if_neg Bool.false_ne_true]
    split
    · exact ⟨_, rfl⟩
    · exact ⟨_, rfl⟩
  obtain ⟨sorted, hsorted⟩ := hsorted
  obtain ⟨k, hk, hiff⟩ := firstLacking_spec there sorted
  rw [covers_perm (Json.sortMembers?_perm hsorted)] at hiff
  unfold checkMembers
  rw [Value.orEmpty_object, Value.orEmpty_object, Value.members, ok_bind]
  simp only [hsorted, hk, ok_bind]
  cases k with
  | none => exact ⟨.satisfied, rfl, by simp [Checked.satisfied, ← hiff]⟩
  | some k => exact ⟨_, rfl, by simp [Checked.mismatch, ← hiff]⟩

theorem checkLabeling_spec {desired actual : PodTemplate}
    (hlabels : Key.areComparable (desired.labels.map (·.1)) = true)
    (hannotations : Key.areComparable (desired.annotations.map (·.1)) = true) :
    (∃ c, checkLabeling (labelingOf desired) (labelingOf actual) = .ok c) ∧
      (Satisfied (checkLabeling (labelingOf desired) (labelingOf actual)) ↔
        Covers desired.labels actual.labels ∧
          Covers desired.annotations actual.annotations) := by
  obtain ⟨c, hc, hcovers⟩ := checkMembers_spec "labels" "label" actual.labels hlabels
  obtain ⟨d, hd, hcovers'⟩ :=
    checkMembers_spec "annotations" "annotation" actual.annotations hannotations
  unfold checkLabeling labelingOf
  constructor
  · exact exists_both ⟨c, hc⟩ ⟨d, hd⟩
  · rw [satisfied_both_iff, hc, hd, satisfied_ok_iff, satisfied_ok_iff, hcovers, hcovers']

end Labels

/-! ## Environments -/

/-- Whether the source of a variable is data without doubles that can be written. -/
def IsComparable (v : EnvVar) : Prop := v.valueFrom.Fits v.valueFrom.depth

theorem source_of_present? {v : EnvVar} {source : Value} (h : v.valueFrom.present? = some source) :
    v.valueFrom = source ∧ source ≠ .null := by
  cases hv : v.valueFrom with
  | null =>
    rw [hv] at h
    cases h
  | _ =>
    rw [hv] at h
    cases h
    exact ⟨rfl, nofun⟩

theorem exists_variableOf {v : EnvVar} (h : IsComparable v) : ∃ w, variableOf v = .ok w := by
  unfold variableOf
  cases hsource : v.valueFrom.present? with
  | none => exact ⟨_, rfl⟩
  | some source =>
    obtain ⟨rfl, -⟩ := source_of_present? hsource
    obtain ⟨bytes, hbytes⟩ := Digest.exists_canonicalBytes .standard h.plain h.exchangeable
    exact ⟨_, map_eq_ok_iff.mpr ⟨bytes, hbytes, rfl⟩⟩

theorem exists_mapM_variableOf {env : List EnvVar} (h : ∀ v ∈ env, IsComparable v) :
    ∃ ws, env.mapM variableOf = .ok ws := by
  induction env with
  | nil => exact ⟨[], rfl⟩
  | cons v rest ih =>
    obtain ⟨hv, hrest⟩ := List.forall_mem_cons.mp h
    obtain ⟨w, hw⟩ := exists_variableOf hv
    obtain ⟨ws, hws⟩ := ih hrest
    rw [List.mapM_cons, hw, hws]
    exact ⟨w :: ws, rfl⟩

theorem exists_checkEnv {desired actual : List EnvVar} (hdesired : ∀ v ∈ desired, IsComparable v)
    (hactual : ∀ v ∈ actual, IsComparable v) : ∃ c, checkEnv desired actual = .ok c := by
  obtain ⟨want, hwant⟩ := exists_mapM_variableOf hdesired
  obtain ⟨held, hheld⟩ := exists_mapM_variableOf hactual
  unfold checkEnv
  rw [hwant, hheld, ok_bind, ok_bind]
  dsimp only
  split
  · exact ⟨_, rfl⟩
  · exact ⟨_, rfl⟩

end RolloutLedger.Gate
