import RolloutLedger.Proofs.History.Order
/-! # Numbers of a history

Whether numbers are consecutive, and that the next number is fresh.
-/

namespace RolloutLedger

open History (highest? nextNumber sorted)

/-! ## Numbered histories

A history is numbered if its revisions have consecutive numbers, from some first number on, and
greater numbers were created later.  Appending the next number and dropping revisions from the
front leave it so.
-/

/-! ### Consecutive numbers -/

/-- Numbers that count up from a first one. -/
def Consecutive : Int → List Int → Prop
  | _, [] => True
  | first, n :: rest => n = first ∧ Consecutive (first + 1) rest

namespace Consecutive

variable {first : Int} {ns : List Int}

theorem append (h : Consecutive first ns) : Consecutive first (ns ++ [first + ns.length]) := by
  induction ns generalizing first with
  | nil => exact ⟨Int.add_zero _, trivial⟩
  | cons n rest ih =>
    obtain ⟨hn, hrest⟩ := h
    have hlast := ih hrest
    rw [show first + 1 + (rest.length : Int) = first + (n :: rest).length by
      rw [List.length_cons]; omega] at hlast
    exact ⟨hn, hlast⟩

theorem drop (h : Consecutive first ns) (k : Nat) : Consecutive (first + k) (ns.drop k) := by
  induction k generalizing first ns with
  | zero =>
    rw [List.drop_zero, show first + ((0 : Nat) : Int) = first by omega]
    exact h
  | succ k ih =>
    cases ns with
    | nil => exact trivial
    | cons n rest =>
      have hrest := ih h.2
      rw [List.drop_succ_cons, show first + ((k + 1 : Nat) : Int) = first + 1 + k by omega]
      exact hrest

theorem mem_iff (h : Consecutive first ns) {n : Int} :
    n ∈ ns ↔ first ≤ n ∧ n < first + ns.length := by
  induction ns generalizing first with
  | nil =>
    rw [List.length_nil]
    exact ⟨fun hn => absurd hn List.not_mem_nil, fun hn => absurd hn (by omega)⟩
  | cons m rest ih =>
    obtain ⟨rfl, hrest⟩ := h
    rw [List.mem_cons, ih hrest, List.length_cons]
    omega

theorem pairwise_lt (h : Consecutive first ns) : ns.Pairwise (· < ·) := by
  induction ns generalizing first with
  | nil => exact List.Pairwise.nil
  | cons n rest ih =>
    obtain ⟨rfl, hrest⟩ := h
    refine List.pairwise_cons.mpr ⟨fun m hm => ?_, ih hrest⟩
    have := (hrest.mem_iff.mp hm).1
    omega

/-- Dropping numbers from the front keeps the greatest one, as long as any is kept. -/
theorem exists_le_mem_drop (h : Consecutive first ns) {k : Nat} (hk : k < ns.length) :
    ∃ top ∈ ns.drop k, ∀ n ∈ ns, n ≤ top := by
  refine ⟨first + ns.length - 1, ?_, fun n hn => ?_⟩
  · rw [(h.drop k).mem_iff, List.length_drop]
    omega
  · have := (h.mem_iff.mp hn).2
    omega

end Consecutive

section Revisions

variable {first : Int} {revisions : List Revision} {r : Revision}

theorem Consecutive.nextNumber_eq (h : Consecutive first (revisions.map Revision.number))
    (hfirst : 1 ≤ first) (hne : revisions ≠ []) :
    nextNumber revisions = first + revisions.length := by
  have hlength : 0 < revisions.length := List.length_pos_iff.mpr hne
  have hlast : first + revisions.length - 1 ∈ revisions.map Revision.number := by
    rw [h.mem_iff, List.length_map]
    omega
  obtain ⟨l, hl, hnumber⟩ := List.mem_map.mp hlast
  rw [nextNumber]
  cases hhighest : highest? revisions with
  | none =>
    have := History.highest?_eq_none_iff.mp hhighest l hl
    omega
  | some t =>
    have hle := History.number_le_of_highest? hhighest l hl
    have ht := h.mem_iff.mp (List.mem_map_of_mem (History.mem_of_highest? hhighest))
    rw [List.length_map] at ht
    show t.number + 1 = first + revisions.length
    omega

theorem Consecutive.append_next (h : Consecutive first (revisions.map Revision.number))
    (hfirst : 1 ≤ first) (hr : r.number = nextNumber revisions) :
    ∃ start, 1 ≤ start ∧ Consecutive start ((revisions ++ [r]).map Revision.number) := by
  by_cases hne : revisions = []
  · subst hne
    exact ⟨1, Int.le_refl _, hr, trivial⟩
  · refine ⟨first, hfirst, ?_⟩
    rw [List.map_append, List.map_singleton, hr, h.nextNumber_eq hfirst hne,
      ← List.length_map Revision.number]
    exact h.append

theorem Consecutive.sorted_eq_self (h : Consecutive first (revisions.map Revision.number)) :
    sorted revisions = revisions :=
  sortBy_eq_self <| (List.pairwise_map.mp h.pairwise_lt).imp fun hlt =>
    History.precedes_iff.mpr (Or.inl hlt)

end Revisions

/-! ### Numbered histories -/

/-- Revisions numbered without gaps from some first number on, those with greater numbers created
later. -/
structure IsNumbered (revisions : List Revision) : Prop where
  distinct : (revisions.map Revision.number).Nodup
  contiguous : ∃ first : Int, 1 ≤ first ∧
    ∀ n, (∃ r ∈ revisions, r.number = n) ↔ first ≤ n ∧ n < first + revisions.length
  later : ∀ r ∈ revisions, ∀ s ∈ revisions, r.number < s.number →
    ∃ t u, r.metadata.created = some t ∧ s.metadata.created = some u ∧ t.instant < u.instant

def Revision.CreatedBefore (a b : Revision) : Prop :=
  ∃ t u, a.metadata.created = some t ∧ b.metadata.created = some u ∧ t.instant < u.instant

/-- Two elements of a list are the same or stand in its relation one way or the other. -/
theorem related_of_pairwise {α : Type} {R : α → α → Prop} {xs : List α} (h : xs.Pairwise R) :
    ∀ a ∈ xs, ∀ b ∈ xs, a = b ∨ R a b ∨ R b a := by
  induction h with
  | nil => exact fun a ha => absurd ha List.not_mem_nil
  | @cons x xs hx _ ih =>
    intro a ha b hb
    rcases List.mem_cons.mp ha with hax | ha' <;> rcases List.mem_cons.mp hb with hbx | hb'
    · exact Or.inl (hax.trans hbx.symm)
    · rw [hax]
      exact Or.inr (Or.inl (hx b hb'))
    · rw [hbx]
      exact Or.inr (Or.inr (hx a ha'))
    · exact ih a ha' b hb'

/-- Revisions that stand in the order of consecutive numbers and of their creation. -/
theorem isNumbered_of_consecutive {revisions : List Revision} {first : Int} (hfirst : 1 ≤ first)
    (hnumbers : Consecutive first (revisions.map Revision.number))
    (htimes : revisions.Pairwise Revision.CreatedBefore) : IsNumbered revisions where
  distinct := hnumbers.pairwise_lt.imp fun h => Int.ne_of_lt h
  contiguous := by
    refine ⟨first, hfirst, fun n => ?_⟩
    rw [← List.mem_map, hnumbers.mem_iff, List.length_map]
  later := by
    intro r hr s hs hlt
    have hboth := List.Pairwise.and htimes (List.pairwise_map.mp hnumbers.pairwise_lt)
    rcases related_of_pairwise hboth r hr s hs with rfl | ⟨htime, -⟩ | ⟨-, hnumber⟩
    · omega
    · exact htime
    · omega

end RolloutLedger

namespace RolloutLedger.History

/-! ## Fresh numbers

The next number of a history is counted from the highest revision, and it is above every number in
the history, whatever numbers these are and in whatever order they are listed.

Revisions of a list may be the same and still stand at different places, so the search for the
highest one is followed by places: among the revisions with the greatest number it ends at the last
place.  The order of a history ends with the greatest number too, if not with the same revision.
-/

/-! ### Where the highest revision stands -/

/-- A revision stands at a place, no number is greater than its own, and no revision with that
number stands further back. -/
structure IsLastGreatest (revisions : List Revision) (i : Nat) (r : Revision) : Prop where
  placed : revisions[i]? = some r
  greatest : ∀ x ∈ revisions, x.number ≤ r.number
  last : ∀ j x, revisions[j]? = some x → x.number = r.number → j ≤ i

/-- The highest revision together with its place in the list. -/
def highestPlaced? (revisions : List Revision) : Option (Revision × Nat) :=
  highestBy? (fun p => p.1.number) revisions.zipIdx

section Places

variable {revisions : List Revision} {r : Revision} {i : Nat}

/-- The search sees nothing of its elements but their numbers. -/
theorem highestFrom_map {α β : Type} (number : β → Int) (f : α → β) (floor : Int)
    (best : Option α) (xs : List α) :
    highestFrom number floor (best.map f) (xs.map f) =
      (highestFrom (fun x => number (f x)) floor best xs).map f := by
  induction xs generalizing floor best with
  | nil => rfl
  | cons x xs ih =>
    rw [List.map_cons, highestFrom, highestFrom]
    by_cases hx : floor ≤ number (f x)
    · rw [if_pos hx, if_pos hx]
      exact ih (number (f x)) (some x)
    · rw [if_neg hx, if_neg hx]
      exact ih floor best

theorem highestPlaced?_fst (revisions : List Revision) :
    (highestPlaced? revisions).map Prod.fst = highest? revisions := by
  have hmap := highestFrom_map Revision.number Prod.fst 0 none revisions.zipIdx
  rw [List.zipIdx_map_fst] at hmap
  exact hmap.symm

/-- The last of the greatest numbers parts a list into what stands in front of it and what stands
behind it. -/
theorem isLastGreatest_iff :
    IsLastGreatest revisions i r ↔
      ∃ front back, revisions = front ++ r :: back ∧ front.length = i ∧
        (∀ x ∈ front, x.number ≤ r.number) ∧ ∀ x ∈ back, x.number < r.number := by
  constructor
  · intro h
    obtain ⟨hi, hr⟩ := List.getElem?_eq_some_iff.mp h.placed
    have hsplit : revisions = revisions.take i ++ r :: revisions.drop (i + 1) := by
      rw [← hr, ← List.drop_eq_getElem_cons, List.take_append_drop]
    refine ⟨_, _, hsplit, List.length_take_of_le (Nat.le_of_lt hi), ?_, ?_⟩
    · intro x hx
      exact h.greatest x (List.mem_of_mem_take hx)
    · intro x hx
      obtain ⟨k, hk⟩ := List.mem_iff_getElem?.mp hx
      rw [List.getElem?_drop] at hk
      have hle := h.greatest x (List.mem_of_getElem? hk)
      have hne : x.number ≠ r.number := by
        intro heq
        have := h.last _ x hk heq
        omega
      omega
  · rintro ⟨front, back, rfl, rfl, hfront, hback⟩
    refine ⟨?_, ?_, ?_⟩
    · rw [List.getElem?_append_right (Nat.le_refl _), Nat.sub_self]
      rfl
    · intro x hx
      rcases List.mem_append.mp hx with hx | hx
      · exact hfront x hx
      rcases List.mem_cons.mp hx with rfl | hx
      · exact Int.le_refl _
      · exact Int.le_of_lt (hback x hx)
    · intro j x hj hnumber
      by_contra hlt
      obtain ⟨k, rfl⟩ : ∃ k, j = front.length + (k + 1) := ⟨j - front.length - 1, by omega⟩
      rw [List.getElem?_append_right (by omega), Nat.add_sub_cancel_left,
        List.getElem?_cons_succ] at hj
      have := hback x (List.mem_of_getElem? hj)
      omega

/-- **Where the search ends.**  The highest revision is the last listed of those with the greatest
number, if this number is not negative. -/
theorem highestPlaced?_eq_some_iff :
    highestPlaced? revisions = some (r, i) ↔ 0 ≤ r.number ∧ IsLastGreatest revisions i r := by
  rw [highestPlaced?, highestBy?, highestFrom_eq_some_iff, isLastGreatest_iff]
  constructor
  · rintro (⟨hnone, -⟩ | ⟨front, back, hsplit, hr, hfront, hback⟩)
    · cases hnone
    have hlist := congrArg (List.map Prod.fst) hsplit
    rw [List.zipIdx_map_fst, List.map_append, List.map_cons] at hlist
    refine ⟨hr, front.map Prod.fst, back.map Prod.fst, hlist, ?_, ?_, ?_⟩
    · have hplace : revisions.zipIdx[front.length]? = some (r, i) := by
        rw [hsplit, List.getElem?_append_right (Nat.le_refl _), Nat.sub_self]
        rfl
      rw [List.getElem?_zipIdx, Option.map_eq_some_iff] at hplace
      obtain ⟨_, -, hplace⟩ := hplace
      rw [List.length_map]
      have := (Prod.mk.inj hplace).2
      omega
    · exact List.forall_mem_map.mpr hfront
    · exact List.forall_mem_map.mpr hback
  · rintro ⟨hr, front, back, rfl, rfl, hfront, hback⟩
    refine Or.inr ⟨front.zipIdx, back.zipIdx (front.length + 1), ?_, hr, ?_, ?_⟩
    · rw [List.zipIdx_append, List.zipIdx_cons, Nat.zero_add]
    · intro p hp
      exact hfront p.1 (List.fst_mem_of_mem_zipIdx hp)
    · intro p hp
      exact hback p.1 (List.fst_mem_of_mem_zipIdx hp)

theorem exists_highestPlaced? (h : highest? revisions = some r) :
    ∃ i, highestPlaced? revisions = some (r, i) := by
  rw [← highestPlaced?_fst, Option.map_eq_some_iff] at h
  obtain ⟨⟨_, i⟩, hplaced, rfl⟩ := h
  exact ⟨i, hplaced⟩

end Places

/-! ### Where the order ends -/

section Ends

variable {revisions : List Revision} {r l : Revision}

theorem number_le_of_getLast? (h : (sorted revisions).getLast? = some l) :
    ∀ x ∈ revisions, x.number ≤ l.number := by
  obtain ⟨before, hsplit⟩ := List.getLast?_eq_some_iff.mp h
  have hsorted := sortBy_pairwise precedes_isTotalOrder revisions
  rw [← sorted, hsplit] at hsorted
  intro x hx
  rw [← (sorted_perm revisions).mem_iff, hsplit] at hx
  rcases List.mem_append.mp hx with hx | hx
  · have hprecedes := (List.pairwise_append.mp hsorted).2.2 x hx l (List.mem_singleton_self l)
    exact number_le_of_precedes hprecedes
  · exact Int.le_of_eq (congrArg Revision.number (List.mem_singleton.mp hx))

theorem exists_getLast?_sorted (h : highest? revisions = some r) :
    ∃ l, (sorted revisions).getLast? = some l ∧ l.number = r.number := by
  have hr := (sorted_perm revisions).mem_iff.mpr (mem_of_highest? h)
  have hlast := List.getLast?_eq_some_getLast (List.ne_nil_of_mem hr)
  have hl := (sorted_perm revisions).mem_iff.mp (List.getLast_mem (List.ne_nil_of_mem hr))
  refine ⟨_, hlast, Int.le_antisymm ?_ ?_⟩
  · exact number_le_of_highest? h _ hl
  · exact number_le_of_getLast? hlast r (mem_of_highest? h)

end Ends

/-! ### Fresh numbers -/

/-- **Numbers are fresh.**  The next number is at least one and above every number in the list.
There is no highest revision exactly if all numbers are negative; otherwise it is the last listed
of the revisions with the greatest number, and the order of the history ends with this number. -/
theorem numbers_fresh (revisions : List Revision) :
    (1 ≤ nextNumber revisions ∧ ∀ x ∈ revisions, x.number < nextNumber revisions) ∧
    (highest? revisions = none ↔ ¬ ∃ x ∈ revisions, 0 ≤ x.number) ∧
    ((∃ x ∈ revisions, 0 ≤ x.number) →
      ∃ r i, highest? revisions = some r ∧ highestPlaced? revisions = some (r, i) ∧
        IsLastGreatest revisions i r ∧
        ∃ l, (sorted revisions).getLast? = some l ∧ l.number = r.number) := by
  have hnone : highest? revisions = none ↔ ¬ ∃ x ∈ revisions, 0 ≤ x.number := by
    simp [highest?_eq_none_iff]
  refine ⟨⟨one_le_nextNumber revisions, lt_nextNumber⟩, hnone, ?_⟩
  intro hsome
  cases hhighest : highest? revisions with
  | none => exact absurd hsome (hnone.mp hhighest)
  | some r =>
    obtain ⟨i, hplaced⟩ := exists_highestPlaced? hhighest
    obtain ⟨-, hgreatest⟩ := highestPlaced?_eq_some_iff.mp hplaced
    exact ⟨r, i, rfl, hplaced, hgreatest, exists_getLast?_sorted hhighest⟩

def numbered (name : String) (number : Int) : Revision :=
  ⟨{ Metadata.empty with name := name }, number, .none⟩

def contestedHistory : List Revision :=
  [numbered "c" (-1), numbered "b" 2, numbered "a" 2, numbered "a" 2, numbered "d" 0]

/-- The highest revision stands at the fourth place, and another one is the last in order. -/
theorem numbers_fresh_contested :
    (∃ x ∈ contestedHistory, 0 ≤ x.number) ∧ nextNumber contestedHistory = 3 ∧
      ∃ r l, highestPlaced? contestedHistory = some (r, 3) ∧
        IsLastGreatest contestedHistory 3 r ∧
        (sorted contestedHistory).getLast? = some l ∧ l.number = r.number ∧
        r.name = "a" ∧ l.name = "b" := by
  have hexists : ∃ x ∈ contestedHistory, 0 ≤ x.number :=
    ⟨numbered "b" 2, by simp [contestedHistory], by decide⟩
  obtain ⟨-, -, hhighest⟩ := numbers_fresh contestedHistory
  obtain ⟨r, i, hr, hplaced, hgreatest, l, hl, hnumber⟩ := hhighest hexists
  have hplace : (highestPlaced? contestedHistory).map Prod.snd = some 3 := by decide
  have hname : (highest? contestedHistory).map Revision.name = some "a" := by decide
  have hend : (sorted contestedHistory).getLast?.map Revision.name = some "b" := by
    decide +kernel
  rw [hplaced] at hplace
  rw [hr] at hname
  rw [hl] at hend
  obtain rfl : i = 3 := Option.some.inj hplace
  exact ⟨hexists, by decide, r, l, hplaced, hgreatest, hl, hnumber, Option.some.inj hname,
    Option.some.inj hend⟩

end RolloutLedger.History
