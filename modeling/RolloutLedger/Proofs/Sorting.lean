import RolloutLedger.Sorting
/-! # Sorted lists and where their elements stand

Insertion by a total and transitive order gives a sorted list, and among lists with the same
elements only one is sorted as long as no two different elements may precede each other.  So a
sort may be moved past maps and filters.

Without any assumption on the order, sorting is stable: elements each of which may precede each
other keep their order.  From this follows where the last of such elements ends up: in front of
it stand exactly the elements that may precede it.
-/

namespace RolloutLedger

variable {α β : Type} {le : α → α → Bool}

/-! ## Sortedness -/

/-- A Boolean order in which any two elements may be compared, and that is transitive. -/
structure IsTotalOrder (le : α → α → Bool) : Prop where
  total : ∀ a b, le a b = true ∨ le b a = true
  trans : ∀ a b c, le a b = true → le b c = true → le a c = true

theorem IsTotalOrder.refl (h : IsTotalOrder le) (a : α) : le a a = true := by
  rcases h.total a a with ha | ha <;> exact ha

theorem IsTotalOrder.on (h : IsTotalOrder le) (key : β → α) :
    IsTotalOrder fun x y => le (key x) (key y) where
  total x y := h.total (key x) (key y)
  trans x y z := h.trans (key x) (key y) (key z)

theorem insertBy_pairwise (h : IsTotalOrder le) (x : α) :
    ∀ {ys : List α}, ys.Pairwise (le · · = true) → (insertBy le x ys).Pairwise (le · · = true)
  | [], _ => List.pairwise_singleton _ _
  | y :: ys, hys => by
    obtain ⟨hy, hrest⟩ := List.pairwise_cons.mp hys
    rw [insertBy]
    by_cases hxy : le x y = true
    · rw [if_pos hxy]
      refine List.pairwise_cons.mpr ⟨?_, hys⟩
      intro z hz
      rcases List.mem_cons.mp hz with rfl | hz
      · exact hxy
      · exact h.trans x y z hxy (hy z hz)
    · rw [if_neg hxy]
      refine List.pairwise_cons.mpr ⟨?_, insertBy_pairwise h x hrest⟩
      intro z hz
      rcases List.mem_cons.mp ((insertBy_perm le x ys).mem_iff.mp hz) with rfl | hz
      · exact (h.total z y).resolve_left hxy
      · exact hy z hz

theorem sortBy_pairwise (h : IsTotalOrder le) (xs : List α) :
    (sortBy le xs).Pairwise (le · · = true) := by
  induction xs with
  | nil => exact List.Pairwise.nil
  | cons x xs ih => exact insertBy_pairwise h x ih

/-- A sorted list with the same elements is the sorted list, if only equal elements may precede
each other. -/
theorem eq_sortBy {xs ys : List α} (h : IsTotalOrder le)
    (anti : ∀ a ∈ xs, ∀ b ∈ xs, le a b = true → le b a = true → a = b)
    (hperm : ys.Perm xs) (hys : ys.Pairwise (le · · = true)) : ys = sortBy le xs := by
  refine List.Perm.eq_of_pairwise ?_ hys (sortBy_pairwise h xs)
    (hperm.trans (sortBy_perm le xs).symm)
  intro a b ha hb
  exact anti a (hperm.mem_iff.mp ha) b ((mem_sortBy le xs b).mp hb)

theorem sortBy_eq_of_perm {xs ys : List α} (h : IsTotalOrder le)
    (anti : ∀ a ∈ xs, ∀ b ∈ xs, le a b = true → le b a = true → a = b)
    (hperm : xs.Perm ys) : sortBy le xs = sortBy le ys := by
  refine eq_sortBy h ?_ ((sortBy_perm le xs).trans hperm) (sortBy_pairwise h xs)
  intro a ha b hb
  exact anti a (hperm.mem_iff.mpr ha) b (hperm.mem_iff.mpr hb)

theorem sortBy_eq_self {xs : List α} (h : xs.Pairwise (le · · = true)) : sortBy le xs = xs := by
  induction xs with
  | nil => rfl
  | cons x xs ih =>
    obtain ⟨hx, hxs⟩ := List.pairwise_cons.mp h
    rw [sortBy, ih hxs]
    cases xs with
    | nil => rfl
    | cons y ys => rw [insertBy, if_pos (hx y List.mem_cons_self)]

/-! ## Maps and filters -/

theorem map_insertBy {le : β → β → Bool} (f : α → β) (x : α) (ys : List α) :
    (insertBy (fun a b => le (f a) (f b)) x ys).map f = insertBy le (f x) (ys.map f) := by
  induction ys with
  | nil => rfl
  | cons y ys ih =>
    rw [insertBy, List.map_cons, insertBy]
    by_cases hxy : le (f x) (f y) = true
    · rw [if_pos hxy, if_pos hxy]
      rfl
    · rw [if_neg hxy, if_neg hxy, List.map_cons, ih]

theorem sortBy_map {le : β → β → Bool} (f : α → β) (xs : List α) :
    sortBy le (xs.map f) = (sortBy (fun a b => le (f a) (f b)) xs).map f := by
  induction xs with
  | nil => rfl
  | cons x xs ih => rw [List.map_cons, sortBy, sortBy, ih, map_insertBy]

/-! An arrangement around elements without a place depends on the order alone as well: it looks at
nothing but what the order says of two elements. -/

section Arranging

variable {le : β → β → Bool} (f : α → β)

theorem map_takeFalling (last : α) (run ys : List α) :
    takeFalling le (f last) (run.map f) (ys.map f) =
      Prod.map (List.map f) (List.map f)
        (takeFalling (fun a b => le (f a) (f b)) last run ys) := by
  induction ys generalizing last run with
  | nil => rfl
  | cons y ys ih =>
    rw [List.map_cons, takeFalling, takeFalling]
    split
    · rfl
    · exact ih y (last :: run)

theorem map_takeRising (last : α) (ys : List α) :
    takeRising le (f last) (ys.map f) =
      Prod.map (List.map f) (List.map f) (takeRising (fun a b => le (f a) (f b)) last ys) := by
  induction ys generalizing last with
  | nil => rfl
  | cons y ys ih =>
    rw [List.map_cons, takeRising, takeRising, ih]
    split <;> rfl

theorem map_firstRun (xs : List α) :
    firstRun le (xs.map f) =
      Prod.map (List.map f) (List.map f) (firstRun (fun a b => le (f a) (f b)) xs) := by
  match xs with
  | [] => rfl
  | [x] => rfl
  | x :: y :: rest =>
    rw [List.map_cons, List.map_cons, firstRun, firstRun]
    split
    · exact map_takeRising f x (y :: rest)
    · exact map_takeFalling f y [x] rest

theorem map_bisectBy (x : α) (xs : List α) :
    (bisectBy (fun a b => le (f a) (f b)) x xs).map f = bisectBy le (f x) (xs.map f) := by
  fun_induction bisectBy (fun a b => le (f a) (f b)) x xs with
  | case1 xs hcut =>
    rw [bisectBy, List.length_map, ← List.map_drop, hcut]
    rfl
  | case2 xs y after hcut hle ih =>
    rw [List.map_append, List.map_cons, ih]
    conv => rhs; rw [bisectBy, List.length_map, ← List.map_drop, hcut, ← List.map_take]
    exact (if_pos hle).symm
  | case3 xs y after hcut hle ih =>
    rw [List.map_append, List.map_cons, ih]
    conv => rhs; rw [bisectBy, List.length_map, ← List.map_drop, hcut, ← List.map_take]
    exact (if_neg hle).symm

theorem arrangeBy_map (xs : List α) :
    arrangeBy le (xs.map f) = (arrangeBy (fun a b => le (f a) (f b)) xs).map f := by
  have hfold : ∀ rest run : List α,
      (rest.map f).foldl (fun run x => bisectBy le x run) (run.map f) =
        (rest.foldl (fun run x => bisectBy (fun a b => le (f a) (f b)) x run) run).map f := by
    intro rest
    induction rest with
    | nil => exact fun _ => rfl
    | cons x rest ih =>
      intro run
      rw [List.map_cons, List.foldl_cons, List.foldl_cons, ← map_bisectBy, ih]
  rw [arrangeBy, map_firstRun]
  exact hfold _ _

end Arranging

theorem filter_sortBy {xs : List α} (h : IsTotalOrder le)
    (anti : ∀ a ∈ xs, ∀ b ∈ xs, le a b = true → le b a = true → a = b) (p : α → Bool) :
    (sortBy le xs).filter p = sortBy le (xs.filter p) := by
  refine eq_sortBy h ?_ ((sortBy_perm le xs).filter p) ((sortBy_pairwise h xs).filter p)
  intro a ha b hb
  exact anti a (List.mem_filter.mp ha).1 b (List.mem_filter.mp hb).1

theorem sortBy_congr {le le' : α → α → Bool} {xs : List α}
    (h : ∀ a ∈ xs, ∀ b ∈ xs, le a b = le' a b) : sortBy le xs = sortBy le' xs := by
  have hinsert : ∀ (x : α) (ys : List α), (∀ b ∈ ys, le x b = le' x b) →
      insertBy le x ys = insertBy le' x ys := by
    intro x ys hys
    induction ys with
    | nil => rfl
    | cons y ys ih =>
      rw [insertBy, insertBy, hys y List.mem_cons_self,
        ih fun b hb => hys b (List.mem_cons_of_mem _ hb)]
  induction xs with
  | nil => rfl
  | cons x xs ih =>
    rw [sortBy, sortBy, ih fun a ha b hb => h a (List.mem_cons_of_mem _ ha) b
      (List.mem_cons_of_mem _ hb)]
    refine hinsert x _ fun b hb => ?_
    exact h x List.mem_cons_self b (List.mem_cons_of_mem _ ((mem_sortBy le' xs b).mp hb))

/-! ## Stability -/

theorem filter_insertBy_of_neg {p : α → Bool} {x : α} (hx : p x = false) (ys : List α) :
    (insertBy le x ys).filter p = ys.filter p := by
  induction ys with
  | nil => simp [insertBy, hx]
  | cons y ys ih =>
    rw [insertBy]
    by_cases hxy : le x y = true
    · rw [if_pos hxy, List.filter_cons_of_neg (by simp [hx])]
    · rw [if_neg hxy, List.filter_cons, List.filter_cons, ih]

theorem filter_insertBy_of_pos {p : α → Bool} {x : α} (hx : p x = true)
    (ties : ∀ y, p y = true → le x y = true) (ys : List α) :
    (insertBy le x ys).filter p = x :: ys.filter p := by
  induction ys with
  | nil => simp [insertBy, hx]
  | cons y ys ih =>
    rw [insertBy]
    by_cases hxy : le x y = true
    · rw [if_pos hxy, List.filter_cons_of_pos hx]
    · have hy : p y = false := by
        cases hy : p y with
        | false => rfl
        | true => exact absurd (ties y hy) hxy
      rw [if_neg hxy, List.filter_cons_of_neg (by simp [hy]), ih,
        List.filter_cons_of_neg (by simp [hy])]

/-- Sorting keeps the order of elements each of which may precede each other. -/
theorem filter_sortBy_of_ties {p : α → Bool}
    (ties : ∀ x y, p x = true → p y = true → le x y = true) (xs : List α) :
    (sortBy le xs).filter p = xs.filter p := by
  induction xs with
  | nil => rfl
  | cons x xs ih =>
    rw [sortBy, List.filter_cons]
    by_cases hx : p x = true
    · rw [if_pos hx, filter_insertBy_of_pos hx (fun y hy => ties x y hx hy), ih]
    · rw [if_neg hx, filter_insertBy_of_neg (by simpa using hx), ih]

/-! ## The place of an element -/

/-- Two elements that may precede each other. -/
def isTie (le : α → α → Bool) (c x : α) : Bool := le c x && le x c

theorem isTie_self (h : IsTotalOrder le) (c : α) : isTie le c c = true := by
  rw [isTie, h.refl c]
  rfl

/-- **The place of the last of some ties.**  In front of it stand the elements that may precede
it, behind it those that may not. -/
theorem sortBy_split (h : IsTotalOrder le) {c : α} {xs : List α}
    (hlast : (xs.filter (isTie le c)).getLast? = some c) :
    ∃ before after, sortBy le xs = before ++ c :: after ∧
      (∀ a ∈ before, le a c = true) ∧ ∀ b ∈ after, le b c = false := by
  have hties : ∀ x y, isTie le c x = true → isTie le c y = true → le x y = true := by
    intro x y hx hy
    simp only [isTie, Bool.and_eq_true] at hx hy
    exact h.trans x c y hx.2 hy.1
  have hfilter := filter_sortBy_of_ties hties xs
  obtain ⟨front, hfront⟩ : ∃ front, xs.filter (isTie le c) = front ++ [c] :=
    List.getLast?_eq_some_iff.mp hlast
  -- the last tie of the sorted list is the last tie of the list
  obtain ⟨before, rest, hsplit, -, hrest⟩ :=
    List.filter_eq_append_iff.mp (hfilter.trans hfront)
  obtain ⟨middle, after, hmiddle, hnot, -, hafter⟩ := List.filter_eq_cons_iff.mp hrest
  have hwhole : sortBy le xs = (before ++ middle) ++ c :: after := by
    rw [hsplit, hmiddle, List.append_assoc]
  have hsorted := sortBy_pairwise h xs
  rw [hwhole] at hsorted
  obtain ⟨-, htail, hcross⟩ := List.pairwise_append.mp hsorted
  refine ⟨before ++ middle, after, hwhole, ?_, ?_⟩
  · intro a ha
    exact hcross a ha c List.mem_cons_self
  · intro b hb
    have hcb : le c b = true := (List.pairwise_cons.mp htail).1 b hb
    have hbt : ¬ isTie le c b = true := List.filter_eq_nil_iff.mp hafter b hb
    cases hbc : le b c with
    | false => rfl
    | true => exact absurd (by rw [isTie, hcb, hbc]; rfl) hbt

end RolloutLedger
