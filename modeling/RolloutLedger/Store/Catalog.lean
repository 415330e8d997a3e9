import RolloutLedger.Value.Basic
/-! # Catalogs

Things kept by namespace and name, in the order in which they came.  No two things in a catalog
have the same address: putting one at an address that is taken replaces what was there, in its
place.
-/

namespace RolloutLedger

structure Address where
  ns : Key
  name : Key
  /-- Which of the things whose names agree with nothing, not even with themselves. -/
  copy : Nat
  deriving DecidableEq

namespace Address

def ofTexts (ns name : String) : Address := ⟨.text ns, .text name, 0⟩

def same (a b : Address) : Bool := a.ns.same b.ns && a.name.same b.name

/-- An address as it is used beside those in use: the one it agrees with if there is one, and
otherwise itself, told apart from those that look the same. -/
def among (used : List Address) (a : Address) : Address :=
  (used.find? a.same).getD { a with copy := used.countP fun b => b.ns == a.ns && b.name == a.name }

end Address

class Addressed (α : Type) where
  address : α → Address

open Addressed (address)

/-- Things in order, no two of them at one address. -/
structure Catalog (α : Type) [Addressed α] where
  items : List α
  distinct : (items.map address).Nodup

namespace Catalog

variable {α : Type} [Addressed α]

def empty : Catalog α := ⟨[], List.Pairwise.nil⟩

def holds (c : Catalog α) (a : Address) : Bool := c.items.any fun x => address x == a

theorem holds_iff (c : Catalog α) (a : Address) :
    c.holds a = true ↔ a ∈ c.items.map address := by
  simp [holds]

/-- A thing in the place of the one at its address, or at the end. -/
def place (x : α) : List α → List α
  | [] => [x]
  | y :: ys => if address y = address x then x :: ys else y :: place x ys

theorem place_of_not_mem {x : α} {ys : List α} (h : address x ∉ ys.map address) :
    place x ys = ys ++ [x] := by
  induction ys with
  | nil => rfl
  | cons y ys ih =>
    rw [List.map_cons, List.mem_cons, not_or] at h
    rw [place, if_neg (Ne.symm h.1), ih h.2]
    rfl

theorem map_address_place_of_mem {x : α} {ys : List α} (h : address x ∈ ys.map address) :
    (place x ys).map address = ys.map address := by
  induction ys with
  | nil => exact absurd h List.not_mem_nil
  | cons y ys ih =>
    rw [place]
    split
    · rename_i hy
      rw [List.map_cons, List.map_cons, hy]
    · rename_i hy
      rw [List.map_cons, List.mem_cons] at h
      rw [List.map_cons, List.map_cons, ih (h.resolve_left (Ne.symm hy))]

theorem nodup_place {x : α} {ys : List α} (h : (ys.map address).Nodup) :
    ((place x ys).map address).Nodup := by
  by_cases hx : address x ∈ ys.map address
  · rw [map_address_place_of_mem hx]
    exact h
  · rw [place_of_not_mem hx, List.map_append, List.map_cons, List.map_nil]
    refine List.pairwise_append.2 ⟨h, List.pairwise_singleton _ _, ?_⟩
    intro a ha b hb
    rw [List.mem_singleton] at hb
    rintro rfl
    exact hx (hb ▸ ha)

def put (c : Catalog α) (x : α) : Catalog α := ⟨place x c.items, nodup_place c.distinct⟩

def remove (c : Catalog α) (a : Address) : Catalog α where
  items := c.items.filter fun x => address x != a
  distinct := c.distinct.sublist (List.filter_sublist.map _)

theorem items_put_of_not_holds {c : Catalog α} {x : α} (h : c.holds (address x) = false) :
    (c.put x).items = c.items ++ [x] := by
  refine place_of_not_mem fun hx => ?_
  rw [(c.holds_iff _).2 hx] at h
  exact Bool.noConfusion h

end Catalog

end RolloutLedger
