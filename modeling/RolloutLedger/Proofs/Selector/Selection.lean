import RolloutLedger.Proofs.Selector.Reading
import RolloutLedger.Store.Cluster
import RolloutLedger.Store.Memory
/-! # Selectors with one query

A store is asked with the query of a selector, and what it lists is picked over by the selector
itself.  The two cannot fall apart: what a query is read as picks what the selector picks, so
selectors with one query are one selection, and an object has the same revisions under each.
-/

namespace RolloutLedger

/-! ## Picking in order -/

namespace Selector

theorem Requirement.holds_sorted (r : Requirement) (labels : Entries) :
    r.sorted.holds labels = r.holds labels := by
  have hlists : ∀ v : Value, r.sorted.lists v = r.lists v :=
    fun v => (sortBy_perm textLe r.values).any_eq
  simp only [holds, hlists]
  rfl

theorem selects_sorted (s : Selector) (labels : Entries) :
    s.sorted.selects labels = s.selects labels := by
  have hlabels : s.sorted.labels.all (hasLabel labels) = s.labels.all (hasLabel labels) :=
    (Entries.sorted_perm s.labels).all_eq
  have hrequirements : s.sorted.requirements.all (·.holds labels) =
      s.requirements.all (·.holds labels) := by
    rw [sorted, List.all_map]
    congr 1
    funext r
    exact r.holds_sorted labels
  rw [selects, hlabels, hrequirements, selects]

/-- What the query of a selector is read as picks what the selector picks. -/
theorem selects_ofQuery? {s : Selector} (h : s.IsExpressible) :
    ∃ q read, s.query = .ok q ∧ ofQuery? q = some read ∧
      ∀ labels, read.selects labels = s.selects labels := by
  obtain ⟨q, hq, hread⟩ := ofQuery?_query h
  exact ⟨q, s.sorted, hq, hread, s.selects_sorted⟩

end Selector

/-! ## What is listed under a query -/

section Listing

variable {φ : Type} [FaultSource φ] {ns : String} {s t : Selector}

/-- A store in memory learns nothing of a selector but its query. -/
theorem Memory.list_congr (h : s.query = t.query) :
    (RevisionStore.list ns s : Step (Memory φ) (List Revision)) = RevisionStore.list ns t := by
  show (Step.ofExcept s.query >>= _) = (Step.ofExcept t.query >>= _)
  rw [h]

/-- A store in a cluster learns nothing of a selector but its query. -/
theorem Cluster.list_congr (h : s.query = t.query) :
    (RevisionStore.list ns s : Step (Cluster φ) (List Revision)) = RevisionStore.list ns t := by
  show (Step.ofExcept s.query >>= _) = (Step.ofExcept t.query >>= _)
  rw [h]

/-- Selectors under which a store lists the same and that pick the same give the same revisions
of an object. -/
theorem Store.owned_congr {σ : Type} [RevisionStore σ] {owner : Metadata}
    (hlist : (RevisionStore.list owner.ns s : Step σ (List Revision)) =
      RevisionStore.list owner.ns t)
    (hselects : ∀ labels, s.selects labels = t.selects labels) :
    (owned owner (some s) : Step σ (List Revision)) = owned owner (some t) := by
  have hbelongs : belongs owner s = belongs owner t := by
    funext r
    rw [belongs, hselects, belongs]
  rw [owned, owned, hlist, hbelongs]

end Listing

namespace Selector

/-- **The query tells the selection.**  Selectors whose keys and values are free of the characters
with a meaning in queries have a query.  If two of them have the same one, they pick the same
objects whatever the labels, and an object has the same revisions under both, in memory as in a
cluster. -/
theorem query_tells_selection {φ ψ : Type} [FaultSource φ] [FaultSource ψ] {s t : Selector}
    (hs : s.IsExpressible) (ht : t.IsExpressible) :
    ∃ q r, s.query = .ok q ∧ t.query = .ok r ∧
      (q = r → (∀ labels, s.selects labels = t.selects labels) ∧
        ∀ owner,
          (Store.owned owner (some s) : Step (Memory φ) (List Revision)) =
            Store.owned owner (some t) ∧
          (Store.owned owner (some s) : Step (Cluster ψ) (List Revision)) =
            Store.owned owner (some t)) := by
  obtain ⟨q, read, hq, hread, hselects⟩ := selects_ofQuery? hs
  obtain ⟨r, read', hr, hread', hselects'⟩ := selects_ofQuery? ht
  refine ⟨q, r, hq, hr, ?_⟩
  rintro rfl
  have hsame : read = read' := Option.some.inj (hread.symm.trans hread')
  have hpicked : ∀ labels, s.selects labels = t.selects labels := by
    intro labels
    rw [← hselects, hsame, hselects']
  have hquery : s.query = t.query := hq.trans hr.symm
  exact ⟨hpicked, fun owner => ⟨Store.owned_congr (Memory.list_congr hquery) hpicked,
    Store.owned_congr (Cluster.list_congr hquery) hpicked⟩⟩

def frontend : Selector where
  labels := [(.text "tier", .text "web"), (.text "app.kubernetes.io/name", .text "")]
  requirements := [⟨"zone", .isIn, ["b-1", "", "a_1"], rfl⟩, ⟨"env", .notIn, ["dev"], rfl⟩,
    ⟨"owner", .present, [], rfl⟩, ⟨"legacy", .absent, [], rfl⟩]

def frontendInOrder : Selector where
  labels := [(.text "app.kubernetes.io/name", .text ""), (.text "tier", .text "web")]
  requirements := [⟨"zone", .isIn, ["", "a_1", "b-1"], rfl⟩, ⟨"env", .notIn, ["dev"], rfl⟩,
    ⟨"owner", .present, [], rfl⟩, ⟨"legacy", .absent, [], rfl⟩]

theorem query_tells_selection_frontend :
    frontend.IsExpressible ∧ frontendInOrder.IsExpressible ∧
      frontend.query = .ok
        "app.kubernetes.io/name=,tier=web,zone in (,a_1,b-1),env notin (dev),owner,!legacy" ∧
      frontendInOrder.query = frontend.query ∧
      ∀ labels, frontend.selects labels = frontendInOrder.selects labels := by
  have htier : ∃ k v, (Key.text "tier", Value.text "web") = (.text k, .text v) ∧
      IsBareKey k ∧ isBare v.toList = true := ⟨_, _, rfl, by decide, by decide⟩
  have happ : ∃ k v, (Key.text "app.kubernetes.io/name", Value.text "") = (.text k, .text v) ∧
      IsBareKey k ∧ isBare v.toList = true :=
    ⟨_, _, rfl, ⟨by decide, isBare_of_isOfLabels (by decide)⟩, by decide⟩
  have hfrontend : frontend.IsExpressible :=
    ⟨by decide, List.forall_mem_cons.mpr ⟨htier, List.forall_mem_singleton.mpr happ⟩,
      by decide, by decide⟩
  have hinOrder : frontendInOrder.IsExpressible :=
    ⟨by decide, List.forall_mem_cons.mpr ⟨happ, List.forall_mem_singleton.mpr htier⟩,
      by decide, by decide⟩
  have hquery : frontendInOrder.query = frontend.query := rfl
  obtain ⟨q, r, hq, hr, htells⟩ :=
    query_tells_selection (φ := Unit) (ψ := Unit) hfrontend hinOrder
  have hsame : q = r := Except.ok.inj (hq.symm.trans (hquery.symm.trans hr))
  exact ⟨hfrontend, hinOrder, rfl, hquery, (htells hsame).1⟩

/-- A comma in a value makes it look like two conditions. -/
example : (ofLabels [(.text "tier", .text "web,zone=a")]).query =
    (ofLabels [(.text "tier", .text "web"), (.text "zone", .text "a")]).query := rfl

end Selector

end RolloutLedger
