import Mathlib.Data.List.Nodup
import RolloutLedger.History
import RolloutLedger.Proofs.Value.Entries
/-! # The highest revision and the last one in order

A history is ranked twice: the highest revision is the last listed among those with the greatest
number, and the order of a history settles equal numbers by creation time and name.  The two agree
on numbers only.  What the order puts behind the highest revision are its rivals; they all share
its number.
-/

namespace RolloutLedger.History

/-! ## The order -/

theorem precedes_iff {a b : Revision} :
    precedes a b = true ↔ a.number < b.number ∨ a.number = b.number ∧
      (creation a < creation b ∨ creation a = creation b ∧ textLe a.name b.name = true) := by
  simp only [precedes, Bool.or_eq_true, Bool.and_eq_true, decide_eq_true_eq, beq_iff_eq]

theorem precedes_isTotalOrder : IsTotalOrder precedes where
  total a b := by
    rw [precedes_iff, precedes_iff]
    rcases Int.lt_trichotomy a.number b.number with hn | hn | hn
    · exact Or.inl (Or.inl hn)
    · rcases Int.lt_trichotomy (creation a) (creation b) with hc | hc | hc
      · exact Or.inl (Or.inr ⟨hn, Or.inl hc⟩)
      · rcases textLe_isTotalOrder.total a.name b.name with hname | hname
        · exact Or.inl (Or.inr ⟨hn, Or.inr ⟨hc, hname⟩⟩)
        · exact Or.inr (Or.inr ⟨hn.symm, Or.inr ⟨hc.symm, hname⟩⟩)
      · exact Or.inr (Or.inr ⟨hn.symm, Or.inl hc⟩)
    · exact Or.inr (Or.inl hn)
  trans a b c := by
    rw [precedes_iff, precedes_iff, precedes_iff]
    have hname := textLe_isTotalOrder.trans a.name b.name c.name
    rintro (hab | ⟨hab, hab'⟩) (hbc | ⟨hbc, hbc'⟩)
    · exact Or.inl (by omega)
    · exact Or.inl (by omega)
    · exact Or.inl (by omega)
    · refine Or.inr ⟨by omega, ?_⟩
      rcases hab' with hab' | ⟨hab', hnab⟩ <;> rcases hbc' with hbc' | ⟨hbc', hnbc⟩
      · exact Or.inl (by omega)
      · exact Or.inl (by omega)
      · exact Or.inl (by omega)
      · exact Or.inr ⟨by omega, hname hnab hnbc⟩

theorem number_le_of_precedes {a b : Revision} (h : precedes a b = true) :
    a.number ≤ b.number := by
  rw [precedes_iff] at h
  omega

theorem sorted_perm (revisions : List Revision) : (sorted revisions).Perm revisions :=
  sortBy_perm precedes revisions

theorem precedes_of_mem_take_drop {revisions : List Revision} {n : Nat} {a b : Revision}
    (ha : a ∈ (sorted revisions).take n) (hb : b ∈ (sorted revisions).drop n) :
    precedes a b = true := by
  have hsorted := sortBy_pairwise precedes_isTotalOrder revisions
  rw [← sorted, ← List.take_append_drop n (sorted revisions)] at hsorted
  exact (List.pairwise_append.mp hsorted).2.2 a ha b hb

/-- Revisions that the order keeps apart: each two of them stand in it in one way only. -/
def Separated (revisions : List Revision) : Prop :=
  ∀ a ∈ revisions, ∀ b ∈ revisions, precedes a b = true → precedes b a = true → a = b

theorem separated_of_numbers {revisions : List Revision}
    (h : (revisions.map Revision.number).Nodup) : Separated revisions := by
  intro a ha b hb hab hba
  refine List.inj_on_of_nodup_map h ha hb ?_
  exact Int.le_antisymm (number_le_of_precedes hab) (number_le_of_precedes hba)

theorem separated_of_names {revisions : List Revision}
    (h : (revisions.map Revision.name).Nodup) : Separated revisions := by
  intro a ha b hb hab hba
  have hnumber := Int.le_antisymm (number_le_of_precedes hab) (number_le_of_precedes hba)
  rw [precedes_iff] at hab hba
  obtain ⟨-, hab⟩ := hab.resolve_left (by omega)
  obtain ⟨-, hba⟩ := hba.resolve_left (by omega)
  refine List.inj_on_of_nodup_map h ha hb ?_
  rcases hab with hlt | ⟨hcreation, hname⟩
  · rcases hba with hlt' | ⟨hcreation, -⟩ <;> omega
  · exact textLe_antisymm hname (hba.resolve_left (by omega)).2

/-- What stands at the end of a history in order stands in this order, however it is listed. -/
theorem sorted_eq_drop {revisions rest : List Revision} {n : Nat} (h : Separated revisions)
    (hrest : rest.Perm ((sorted revisions).drop n)) :
    sorted rest = (sorted revisions).drop n := by
  have hmem : ∀ r ∈ (sorted revisions).drop n, r ∈ revisions := fun r hr =>
    (sorted_perm revisions).mem_iff.mp (List.mem_of_mem_drop hr)
  refine (eq_sortBy precedes_isTotalOrder ?_ hrest.symm ?_).symm
  · intro a ha b hb
    exact h a (hmem a (hrest.mem_iff.mp ha)) b (hmem b (hrest.mem_iff.mp hb))
  · exact (sortBy_pairwise precedes_isTotalOrder revisions).sublist (List.drop_sublist _ _)

/-! ## The highest revision -/

section Highest

variable {α : Type} {number : α → Int} {r : α}

/-- What the search for the greatest number keeps: the best so far, or the last of the greatest
numbers that are not below the floor. -/
theorem highestFrom_eq_some_iff {floor : Int} {best : Option α} {xs : List α} :
    highestFrom number floor best xs = some r ↔
      (best = some r ∧ ∀ x ∈ xs, number x < floor) ∨
        ∃ front back, xs = front ++ r :: back ∧ floor ≤ number r ∧
          (∀ x ∈ front, number x ≤ number r) ∧ ∀ x ∈ back, number x < number r := by
  induction xs generalizing floor best with
  | nil => simp [highestFrom]
  | cons y ys ih =>
    rw [highestFrom]
    by_cases hy : floor ≤ number y
    -- a number at or above the floor is the best so far, and the new floor
    · rw [if_pos hy, ih]
      constructor
      · rintro (⟨hr, hys⟩ | ⟨front, back, rfl, hr, hfront, hback⟩)
        · cases hr
          exact Or.inr ⟨[], ys, rfl, hy, by simp, hys⟩
        · refine Or.inr ⟨y :: front, back, rfl, by omega, ?_, hback⟩
          exact List.forall_mem_cons.mpr ⟨hr, hfront⟩
      · rintro (⟨-, hall⟩ | ⟨front, back, hsplit, hr, hfront, hback⟩)
        · exact absurd (hall y List.mem_cons_self) (by omega)
        · cases front with
          | nil =>
            obtain ⟨rfl, rfl⟩ := List.cons.inj hsplit
            exact Or.inl ⟨rfl, hback⟩
          | cons z front =>
            obtain ⟨rfl, rfl⟩ := List.cons.inj hsplit
            obtain ⟨hz, hfront⟩ := List.forall_mem_cons.mp hfront
            exact Or.inr ⟨front, back, rfl, hz, hfront, hback⟩
    · rw [if_neg hy, ih]
      constructor
      · rintro (⟨hr, hys⟩ | ⟨front, back, rfl, hr, hfront, hback⟩)
        · exact Or.inl ⟨hr, List.forall_mem_cons.mpr ⟨by omega, hys⟩⟩
        · refine Or.inr ⟨y :: front, back, rfl, hr, ?_, hback⟩
          exact List.forall_mem_cons.mpr ⟨by omega, hfront⟩
      · rintro (⟨hr, hall⟩ | ⟨front, back, hsplit, hr, hfront, hback⟩)
        · exact Or.inl ⟨hr, (List.forall_mem_cons.mp hall).2⟩
        · cases front with
          | nil =>
            obtain ⟨rfl, rfl⟩ := List.cons.inj hsplit
            exact absurd hr hy
          | cons z front =>
            obtain ⟨rfl, rfl⟩ := List.cons.inj hsplit
            exact Or.inr ⟨front, back, rfl, hr, (List.forall_mem_cons.mp hfront).2, hback⟩

theorem highestFrom_eq_none_iff {floor : Int} {best : Option α} {xs : List α} :
    highestFrom number floor best xs = none ↔ best = none ∧ ∀ x ∈ xs, number x < floor := by
  induction xs generalizing floor best with
  | nil => simp [highestFrom]
  | cons y ys ih =>
    rw [highestFrom, List.forall_mem_cons]
    by_cases hy : floor ≤ number y
    · rw [if_pos hy, ih]
      constructor
      · rintro ⟨h, -⟩
        cases h
      · rintro ⟨-, h, -⟩
        omega
    · rw [if_neg hy, ih]
      have hlt : number y < floor := by omega
      exact ⟨fun ⟨hb, hys⟩ => ⟨hb, hlt, hys⟩, fun ⟨hb, _, hys⟩ => ⟨hb, hys⟩⟩

end Highest

variable {revisions : List Revision} {r : Revision}

/-- The highest revision stands behind every revision of its number. -/
theorem highest?_eq_some_iff :
    highest? revisions = some r ↔
      ∃ front back, revisions = front ++ r :: back ∧ 0 ≤ r.number ∧
        (∀ x ∈ front, x.number ≤ r.number) ∧ ∀ x ∈ back, x.number < r.number := by
  rw [highest?, highestBy?, highestFrom_eq_some_iff]
  exact or_iff_right fun h => nomatch h.1

theorem highest?_eq_none_iff : highest? revisions = none ↔ ∀ x ∈ revisions, x.number < 0 := by
  rw [highest?, highestBy?, highestFrom_eq_none_iff]
  exact and_iff_right rfl

theorem mem_of_highest? (h : highest? revisions = some r) : r ∈ revisions := by
  obtain ⟨front, back, rfl, -⟩ := highest?_eq_some_iff.mp h
  exact List.mem_append_right _ List.mem_cons_self

theorem number_le_of_highest? (h : highest? revisions = some r) :
    ∀ x ∈ revisions, x.number ≤ r.number := by
  obtain ⟨front, back, rfl, -, hfront, hback⟩ := highest?_eq_some_iff.mp h
  intro x hx
  rcases List.mem_append.mp hx with hx | hx
  · exact hfront x hx
  · rcases List.mem_cons.mp hx with rfl | hx
    · exact Int.le_refl _
    · exact Int.le_of_lt (hback x hx)

theorem highest?_eq_some_of_unique (hr : r ∈ revisions) (hnumber : 0 ≤ r.number)
    (hle : ∀ x ∈ revisions, x.number ≤ r.number)
    (hunique : ∀ x ∈ revisions, x.number = r.number → x = r) :
    highest? revisions = some r := by
  cases h : highest? revisions with
  | none =>
    have := highest?_eq_none_iff.mp h r hr
    omega
  | some s =>
    have hrs := number_le_of_highest? h r hr
    have hsr := hle s (mem_of_highest? h)
    rw [hunique s (mem_of_highest? h) (by omega)]

/-- If numbers are not shared, the highest revision is the highest wherever it is left. -/
theorem highest?_eq_some_of_subset {left : List Revision} (h : highest? revisions = some r)
    (hnumbers : (revisions.map Revision.number).Nodup) (hsub : ∀ x ∈ left, x ∈ revisions)
    (hr : r ∈ left) : highest? left = some r := by
  obtain ⟨-, -, -, hpositive, -⟩ := highest?_eq_some_iff.mp h
  refine highest?_eq_some_of_unique hr hpositive
    (fun x hx => number_le_of_highest? h x (hsub x hx)) fun x hx hnumber => ?_
  exact List.inj_on_of_nodup_map hnumbers (hsub x hx) (mem_of_highest? h) hnumber

/-! ## The next number -/

theorem lt_nextNumber : ∀ x ∈ revisions, x.number < nextNumber revisions := by
  intro x hx
  rw [nextNumber]
  split
  · have := highest?_eq_none_iff.mp ‹_› x hx
    omega
  · have := number_le_of_highest? ‹_› x hx
    omega

theorem one_le_nextNumber (revisions : List Revision) : 1 ≤ nextNumber revisions := by
  rw [nextNumber]
  split
  · exact Int.le_refl _
  · obtain ⟨_, _, _, h, -⟩ := highest?_eq_some_iff.mp ‹_›
    omega

theorem highest?_append_next (h : r.number = nextNumber revisions) :
    highest? (revisions ++ [r]) = some r := by
  have hnext := one_le_nextNumber revisions
  refine highest?_eq_some_iff.mpr ⟨revisions, [], rfl, by omega, ?_, by simp⟩
  intro x hx
  have := lt_nextNumber x hx
  omega

theorem nodup_append_next (h : r.number = nextNumber revisions)
    (hnumbers : (revisions.map Revision.number).Nodup) :
    ((revisions ++ [r]).map Revision.number).Nodup := by
  rw [List.map_append, List.nodup_append]
  refine ⟨hnumbers, List.nodup_singleton _, ?_⟩
  intro n hn k hk hnk
  obtain ⟨x, hx, rfl⟩ := List.mem_map.mp hn
  have hlt := lt_nextNumber x hx
  rw [List.mem_singleton.mp hk, h] at hnk
  omega

/-! ## Rivals -/

/-- The revisions that the order puts behind a revision. -/
def rivals (r : Revision) (revisions : List Revision) : List Revision :=
  revisions.filter fun x => !precedes x r

theorem length_rivals_lt (h : r ∈ revisions) :
    (rivals r revisions).length < revisions.length := by
  refine List.length_filter_lt_length_iff_exists.mpr ⟨r, h, ?_⟩
  rw [precedes_isTotalOrder.refl]
  exact Bool.noConfusion

theorem number_eq_of_mem_rivals (h : highest? revisions = some r) :
    ∀ x ∈ rivals r revisions, x.number = r.number := by
  intro x hx
  obtain ⟨hx, hnot⟩ := List.mem_filter.mp hx
  have hle := number_le_of_highest? h x hx
  rcases precedes_isTotalOrder.total x r with hxr | hrx
  · rw [hxr] at hnot
    exact Bool.noConfusion hnot
  · exact Int.le_antisymm hle (number_le_of_precedes hrx)

theorem rivals_eq_nil (h : highest? revisions = some r)
    (hnumbers : (revisions.map Revision.number).Nodup) : rivals r revisions = [] := by
  refine List.eq_nil_iff_forall_not_mem.mpr fun x hx => ?_
  have hnumber := number_eq_of_mem_rivals h x hx
  obtain ⟨hx, hnot⟩ := List.mem_filter.mp hx
  have hsame : x = r := List.inj_on_of_nodup_map hnumbers hx (mem_of_highest? h) hnumber
  rw [hsame, precedes_isTotalOrder.refl] at hnot
  exact Bool.noConfusion hnot

/-- **Where the highest revision ends up.**  In order, it stands behind all revisions but its
rivals. -/
theorem sorted_split (h : highest? revisions = some r) :
    ∃ before after, sorted revisions = before ++ r :: after ∧
      after.length = (rivals r revisions).length := by
  have hlast : (revisions.filter (isTie precedes r)).getLast? = some r := by
    obtain ⟨front, back, rfl, -, -, hback⟩ := highest?_eq_some_iff.mp h
    have hnone : back.filter (isTie precedes r) = [] := by
      refine List.filter_eq_nil_iff.mpr fun x hx htie => ?_
      rw [isTie, Bool.and_eq_true] at htie
      have := number_le_of_precedes htie.1
      have := hback x hx
      omega
    rw [List.filter_append, List.filter_cons_of_pos (isTie_self precedes_isTotalOrder r), hnone]
    exact List.getLast?_concat
  obtain ⟨before, after, hsplit, hbefore, hafter⟩ := sortBy_split precedes_isTotalOrder hlast
  refine ⟨before, after, hsplit, ?_⟩
  have hperm := (sorted_perm revisions).filter fun x => !precedes x r
  rw [sorted, hsplit, List.filter_append, List.filter_eq_nil_iff.mpr, List.nil_append,
    List.filter_cons_of_neg, List.filter_eq_self.mpr] at hperm
  · exact hperm.length_eq
  · intro x hx
    rw [hafter x hx]
    rfl
  · rw [precedes_isTotalOrder.refl]
    exact Bool.noConfusion
  · intro x hx
    rw [hbefore x hx]
    exact Bool.noConfusion

end RolloutLedger.History
