/-! # Stable sorting by a Boolean order

Insertion sort on lists, by recursion on the list.  It is used wherever an answer shows an
order: the members of a written object, the values of a label query, the records of a history.
The main statements say that sorting only rearranges and that equal neighbours keep their
places because an element moves past another one only when it may not precede it.

Some elements may stand before and after all others.  Around them there is no sorted order, and
where the others go depends on which of them are compared.  `arrangeBy` settles that: it starts
from the run at the front and halves the way to the place of each further element.  It too only
rearranges.
-/

namespace RolloutLedger

/-- Put `x` in front of the first element it may precede. -/
def insertBy {α : Type} (le : α → α → Bool) (x : α) : List α → List α
  | [] => [x]
  | y :: ys => if le x y then x :: y :: ys else y :: insertBy le x ys

/-- Sort by `le`; elements that may precede each other keep their order. -/
def sortBy {α : Type} (le : α → α → Bool) : List α → List α
  | [] => []
  | x :: xs => insertBy le x (sortBy le xs)

theorem insertBy_perm {α : Type} (le : α → α → Bool) (x : α) (ys : List α) :
    (insertBy le x ys).Perm (x :: ys) := by
  induction ys with
  | nil => exact List.Perm.refl _
  | cons y ys ih =>
    rw [insertBy]
    split
    · exact List.Perm.refl _
    · exact (ih.cons y).trans (List.Perm.swap x y ys)

theorem sortBy_perm {α : Type} (le : α → α → Bool) (xs : List α) :
    (sortBy le xs).Perm xs := by
  induction xs with
  | nil => exact List.Perm.refl _
  | cons x xs ih => exact (insertBy_perm le x _).trans (ih.cons x)

@[simp] theorem length_sortBy {α : Type} (le : α → α → Bool) (xs : List α) :
    (sortBy le xs).length = xs.length :=
  (sortBy_perm le xs).length_eq

@[simp] theorem mem_sortBy {α : Type} (le : α → α → Bool) (xs : List α) (a : α) :
    a ∈ sortBy le xs ↔ a ∈ xs :=
  (sortBy_perm le xs).mem_iff

/-! ## Arranging around elements without a place -/

/-- The strictly falling run that starts with `last`, turned round in front of `run`, and what
follows it. -/
def takeFalling {α : Type} (le : α → α → Bool) (last : α) (run : List α) :
    List α → List α × List α
  | [] => (last :: run, [])
  | y :: ys => if le last y then (last :: run, y :: ys) else takeFalling le y (last :: run) ys

/-- The run that starts with `last` and does not fall, and what follows it. -/
def takeRising {α : Type} (le : α → α → Bool) (last : α) : List α → List α × List α
  | [] => ([last], [])
  | y :: ys =>
    if le last y then (last :: (takeRising le y ys).1, (takeRising le y ys).2)
    else ([last], y :: ys)

/-- The run at the front of a list, rising, and what follows it. -/
def firstRun {α : Type} (le : α → α → Bool) : List α → List α × List α
  | [] => ([], [])
  | [x] => ([x], [])
  | x :: y :: rest =>
    if le x y then takeRising le x (y :: rest) else takeFalling le y [x] rest

/-- Put `x` at the place that is found by halving: in front of the middle element or of one
before it if the middle one may not precede `x`, and behind it otherwise. -/
def bisectBy {α : Type} (le : α → α → Bool) (x : α) (xs : List α) : List α :=
  match _cut : xs.drop (xs.length / 2) with
  | [] => x :: xs
  | y :: after =>
    if le y x then xs.take (xs.length / 2) ++ y :: bisectBy le x after
    else bisectBy le x (xs.take (xs.length / 2)) ++ y :: after
termination_by xs.length
decreasing_by
  all_goals
    have whole := congrArg List.length _cut
    simp only [List.length_drop, List.length_cons, List.length_take] at whole ⊢
    omega

/-- Take the run at the front and put the further elements into it one after the other. -/
def arrangeBy {α : Type} (le : α → α → Bool) (xs : List α) : List α :=
  (firstRun le xs).2.foldl (fun run x => bisectBy le x run) (firstRun le xs).1

theorem takeFalling_perm {α : Type} (le : α → α → Bool) (last : α) (run ys : List α) :
    ((takeFalling le last run ys).1 ++ (takeFalling le last run ys).2).Perm
      (last :: run ++ ys) := by
  induction ys generalizing last run with
  | nil => simp [takeFalling]
  | cons y ys ih =>
    rw [takeFalling]
    split
    · exact List.Perm.refl _
    · have front : (last :: run ++ y :: ys).Perm (y :: (last :: run ++ ys)) := List.perm_middle
      exact (ih y (last :: run)).trans front.symm

theorem takeRising_append {α : Type} (le : α → α → Bool) (last : α) (ys : List α) :
    (takeRising le last ys).1 ++ (takeRising le last ys).2 = last :: ys := by
  induction ys generalizing last with
  | nil => rfl
  | cons y ys ih =>
    rw [takeRising]
    split
    · rw [List.cons_append, ih y]
    · rfl

theorem firstRun_perm {α : Type} (le : α → α → Bool) (xs : List α) :
    ((firstRun le xs).1 ++ (firstRun le xs).2).Perm xs := by
  match xs with
  | [] => exact List.Perm.refl _
  | [x] => exact List.Perm.refl _
  | x :: y :: rest =>
    rw [firstRun]
    split
    · rw [takeRising_append]
    · exact (takeFalling_perm le y [x] rest).trans (List.Perm.swap x y rest)

theorem bisectBy_perm {α : Type} (le : α → α → Bool) (x : α) (xs : List α) :
    (bisectBy le x xs).Perm (x :: xs) := by
  fun_induction bisectBy le x xs with
  | case1 => exact List.Perm.refl _
  | case2 xs y after h _ ih =>
    have whole : xs.take (xs.length / 2) ++ y :: after = xs := by
      rw [← h, List.take_append_drop]
    refine ((ih.cons y).append_left _).trans ?_
    refine ((List.Perm.swap x y after).append_left _).trans ?_
    exact List.perm_middle.trans (.of_eq (congrArg (x :: ·) whole))
  | case3 xs y after h _ ih =>
    have whole : xs.take (xs.length / 2) ++ y :: after = xs := by
      rw [← h, List.take_append_drop]
    exact (ih.append_right _).trans (.of_eq (congrArg (x :: ·) whole))

theorem arrangeBy_perm {α : Type} (le : α → α → Bool) (xs : List α) :
    (arrangeBy le xs).Perm xs := by
  have fold : ∀ rest run : List α,
      (rest.foldl (fun run x => bisectBy le x run) run).Perm (run ++ rest) := by
    intro rest
    induction rest with
    | nil => intro run; rw [List.foldl_nil, List.append_nil]
    | cons x rest ih =>
      intro run
      refine (ih _).trans (((bisectBy_perm le x run).append_right rest).trans ?_)
      exact List.perm_middle.symm
  exact (fold _ _).trans (firstRun_perm le xs)

end RolloutLedger
