import RolloutLedger.Proofs.Patch.Stored
import RolloutLedger.Proofs.Store.Cluster
import RolloutLedger.Proofs.Sync.Survival
/-! # What makes a sync create

After a sync, the next sync of the same group creates a revision exactly if what the group declares
has changed.  The first sync leaves its current revision as the highest one; the second compares
the data of that revision with the snapshot of what is declared now, byte by byte.
-/

namespace RolloutLedger

open Store (remaining)
open History (highest? nextNumber rivals sorted surplus)

namespace Sync

/-! ## After the first sync -/

section Done

variable {σ : Type} [RevisionStore σ] [LawfulStore σ] {s' : σ} {m : Manager} {g : Group}
  {rs : List Revision} {res : SyncResult} {candidate : Revision} {pruned : Nat}

theorem Done.nodup_numbers (h : Done m g rs s' res candidate pruned)
    (hnumbers : ((g.revisionsAmong rs).map Revision.number).Nodup) :
    ((considered g rs res).map Revision.number).Nodup := by
  unfold considered
  cases h.settled with
  | reused hcreated _ _ =>
    rw [SyncResult.added, if_neg (by rw [hcreated]; exact Bool.false_ne_true), List.append_nil]
    exact hnumbers
  | stored hcreated hcopy _ =>
    rw [SyncResult.added, if_pos hcreated]
    exact History.nodup_append_next (hcopy.number.trans (Revision.number_of_build h.built))
      hnumbers

theorem Done.current_remains (h : Done m g rs s' res candidate pruned)
    (hnumbers : ((g.revisionsAmong rs).map Revision.number).Nodup) (hlimit : 1 ≤ m.limitFor g) :
    res.current ∈ remaining (rs ++ res.added) ((sorted (considered g rs res)).take pruned) := by
  have hmem := History.mem_of_highest? h.highest?_eq
  have hlength := List.length_pos_iff.mpr (List.ne_nil_of_mem hmem)
  have hpruned := h.pruned_le
  rw [h.current_remains_iff, History.rivals_eq_nil h.highest?_eq (h.nodup_numbers hnumbers),
    List.length_nil]
  rw [surplus] at hpruned
  omega

/-- A current revision belongs to every group of the same name, namespace and identity. -/
theorem Done.current_belongs (h : Done m g rs s' res candidate pruned) {g' : Group}
    (hname : g'.metadata.name = g.metadata.name) (hns : g'.metadata.ns = g.metadata.ns)
    (huid : g'.metadata.uid = g.metadata.uid) :
    Store.belongs g'.metadata g'.revisionSelector res.current = true := by
  cases h.settled with
  | reused _ hhighest _ =>
    have hbelongs := (List.mem_filter.mp (History.mem_of_highest? hhighest)).2
    rw [Store.belongs, Store.mayOwn, Group.revisionSelector, hname, hns, huid]
    exact hbelongs
  | stored _ hcopy _ => exact hcopy.belongs h.built hname hns huid

theorem revisionsAmong_congr {g' : Group} (hname : g'.metadata.name = g.metadata.name)
    (hns : g'.metadata.ns = g.metadata.ns) (huid : g'.metadata.uid = g.metadata.uid) :
    g'.revisionsAmong rs = g.revisionsAmong rs := by
  refine List.filter_congr fun r _ => ?_
  rw [Store.belongs, Store.mayOwn, Group.revisionSelector, hname, hns, huid]
  rfl

/-- **What a sync leaves to the next one.**  The current revision is the highest of the group's. -/
theorem Done.highest?_afterwards (h : Done m g rs s' res candidate pruned)
    (hnumbers : ((g.revisionsAmong rs).map Revision.number).Nodup) (hlimit : 1 ≤ m.limitFor g) :
    highest? (g.revisionsAmong
      (remaining (rs ++ res.added) ((sorted (considered g rs res)).take pruned))) =
        some res.current := by
  refine History.highest?_eq_some_of_subset h.highest?_eq (h.nodup_numbers hnumbers) ?_ ?_
  · intro x hx
    obtain ⟨hx, hbelongs⟩ := List.mem_filter.mp hx
    rcases List.mem_append.mp (Store.mem_remaining_iff.mp hx).1 with hx | hx
    · exact List.mem_append_left _ (List.mem_filter.mpr ⟨hx, hbelongs⟩)
    · exact List.mem_append_right _ hx
  · exact List.mem_filter.mpr ⟨h.current_remains hnumbers hlimit, h.current_belongs rfl rfl rfl⟩

end Done

/-! ## The second sync -/

/-- What a sync answers with as current has the snapshot of the group as its data, and no
object. -/
theorem Settled.data {existing : List Revision} {candidate : Revision} {res : SyncResult}
    (h : Settled existing candidate res) (hobject : candidate.data.object = .null) :
    res.current.data.bytes = candidate.data.bytes ∧ res.current.data.object = .null := by
  cases h with
  | reused _ _ hsame =>
    rw [Revision.sameContent, Bool.and_eq_true, beq_iff_eq, hobject, Value.same_null_iff] at hsame
    exact hsame
  | stored _ hcopy _ => exact ⟨hcopy.bytes, hcopy.object.trans hobject⟩

section Twice

variable {σ : Type} [RevisionStore σ] [LawfulStore σ] {s s' : σ} {m : Manager} {g₁ g₂ : Group}
  {rs : List Revision} {res₁ res₂ : SyncResult} {candidate₁ candidate₂ : Revision}

/-- The highest revision, left by a sync of one group, records the same as a candidate of another
exactly if the two groups declare the same. -/
theorem sameContent_iff {o : HashOptions} {n₁ n₂ : Int} {existing : List Revision}
    (hplain₁ : g₁.isPlain = true) (hplain₂ : g₂.isPlain = true)
    (hbuild₁ : Revision.build o g₁ n₁ = .ok candidate₁)
    (hbuild₂ : Revision.build o g₂ n₂ = .ok candidate₂)
    (hsettled : Settled existing candidate₁ res₁) :
    res₁.current.sameContent candidate₂ = true ↔ g₁.declaresSame g₂ = true := by
  obtain ⟨raw₁, hraw₁, hdata₁⟩ := Revision.data_of_build hbuild₁
  obtain ⟨raw₂, hraw₂, hdata₂⟩ := Revision.data_of_build hbuild₂
  obtain ⟨hbytes, hobject⟩ := hsettled.data (by rw [hdata₁])
  have hsame : Value.same .null .null = true := rfl
  rw [Revision.sameContent, hbytes, hobject, hdata₁, hdata₂, hsame, Bool.and_true, beq_iff_eq]
  exact Patch.encodeSnapshot_eq_iff hplain₁ hplain₂ hraw₁ hraw₂

/-- **Change detection.**  After a sync, the next sync of the same group creates a revision exactly
if the group no longer declares the same; otherwise it stays with the current revision. -/
theorem created_iff_of_done {pruned₁ pruned₂ : Nat} {s₁ s₂ : σ}
    (hlimit : 1 ≤ m.limitFor g₁) (hname : g₂.metadata.name = g₁.metadata.name)
    (hns : g₂.metadata.ns = g₁.metadata.ns) (huid : g₂.metadata.uid = g₁.metadata.uid)
    (hplain₁ : g₁.isPlain = true) (hplain₂ : g₂.isPlain = true)
    (hnumbers : ((g₁.revisionsAmong rs).map Revision.number).Nodup)
    (h₁ : Done m g₁ rs s₁ res₁ candidate₁ pruned₁)
    (h₂ : Done m g₂ (remaining (rs ++ res₁.added)
      ((sorted (considered g₁ rs res₁)).take pruned₁)) s₂ res₂ candidate₂ pruned₂) :
    (res₂.created = true ↔ ¬ g₁.declaresSame g₂ = true) ∧
      (res₂.created = false → res₂.current = res₁.current) := by
  have hhighest := h₁.highest?_afterwards hnumbers hlimit
  rw [← revisionsAmong_congr hname hns huid] at hhighest
  have hsame := sameContent_iff hplain₁ hplain₂ h₁.built h₂.built h₁.settled
  cases h₂.settled with
  | reused hcreated hcurrent hrecords =>
    have hcurrent : res₂.current = res₁.current := Option.some.inj (hcurrent.symm.trans hhighest)
    rw [hcurrent] at hrecords
    refine ⟨⟨fun h => ?_, fun h => absurd (hsame.mp hrecords) h⟩, fun _ => hcurrent⟩
    rw [hcreated] at h
    exact Bool.noConfusion h
  | stored hcreated _ hchanged =>
    refine ⟨⟨fun _ hdeclares => ?_, fun _ => hcreated⟩, fun h => ?_⟩
    · have hnot := hchanged _ hhighest
      rw [hsame.mpr hdeclares] at hnot
      exact Bool.noConfusion hnot
    · rw [hcreated] at h
      exact Bool.noConfusion h

end Twice

/-- What is wanted of two syncs in a row that both answer, if the first finds no number twice among
the group's revisions: the second creates a revision exactly if what is declared has changed, and
otherwise makes no call to create one and stays with the revision that was current. -/
def DetectsChange {σ : Type} [RevisionStore σ] (m : Manager) (g₁ g₂ : Group) (s : σ) : Prop :=
  ∀ res₁ s₁ j₁ res₂ s₂ j₂,
    (∀ existing s' j, revisionsOf g₁ s = ⟨.ok existing, s', j⟩ →
      (existing.map Revision.number).Nodup) →
    m.sync g₁ s = ⟨.ok res₁, s₁, j₁⟩ → m.sync g₂ s₁ = ⟨.ok res₂, s₂, j₂⟩ →
      (res₂.created = true ↔ ¬ g₁.declaresSame g₂ = true) ∧
        (res₂.created = false → j₂.creations = [] ∧ res₂.current = res₁.current)

/-- In a lawful store that accepts what is built, changes are detected. -/
theorem detectsChange_of_holds {σ : Type} [RevisionStore σ] [LawfulStore σ] {s : σ}
    (rs : List Revision) {m : Manager} {g₁ g₂ : Group} (hlimit : 1 ≤ m.historyLimit)
    (hname : g₂.metadata.name = g₁.metadata.name) (hns : g₂.metadata.ns = g₁.metadata.ns)
    (huid : g₂.metadata.uid = g₁.metadata.uid) (hplain₁ : g₁.isPlain = true)
    (hplain₂ : g₂.isPlain = true)
    (haccepts : ∀ g n r, g.isPlain = true → Revision.build m.hashOptions g n = .ok r →
      LawfulStore.Accepts σ r)
    (hs : ∀ existing s' j, revisionsOf g₁ s = ⟨.ok existing, s', j⟩ →
      LawfulStore.Holds s rs ∧ existing = g₁.revisionsAmong rs) :
    DetectsChange m g₁ g₂ s := by
  intro res₁ s₁ j₁ res₂ s₂ j₂ hnumbers h₁ h₂
  obtain ⟨existing, t, i, k, hown, -⟩ := Step.bind_eq_ok_iff.mp h₁
  obtain ⟨hholds, rfl⟩ := hs _ _ _ hown
  obtain ⟨candidate₁, pruned₁, hdone₁, -⟩ := done_of_ok hholds
    (Manager.one_le_limitFor hlimit g₁) (fun n r hbuild => haccepts g₁ n r hplain₁ hbuild) h₁
  obtain ⟨candidate₂, pruned₂, hdone₂, hquiet⟩ := done_of_ok hdone₁.holds
    (Manager.one_le_limitFor hlimit g₂) (fun n r hbuild => haccepts g₂ n r hplain₂ hbuild) h₂
  obtain ⟨hcreated, hcurrent⟩ := created_iff_of_done (Manager.one_le_limitFor hlimit g₁) hname
    hns huid hplain₁ hplain₂ (hnumbers _ _ _ hown) hdone₁ hdone₂
  exact ⟨hcreated, fun h => ⟨hquiet h, hcurrent h⟩⟩

end Sync

theorem Revision.isStored_of_build {o : HashOptions} {g : Group} {n : Int} {r : Revision}
    (hplain : g.isPlain = true) (h : build o g n = .ok r) : r.IsStored := by
  obtain ⟨raw, hraw, hdata⟩ := data_of_build h
  have hsnapshot := Patch.isPlain_snapshot hplain
  constructor
  · rw [hdata]
  · intro v hv
    rw [hdata] at hv ⊢
    have hordered := Json.eq_ordered_of_decode hsnapshot hraw hv
    rw [hordered]
    refine ⟨fun hnull => ?_, Json.encode_ordered hsnapshot hraw⟩
    rw [Patch.snapshot, Value.ordered_object] at hnull
    cases hnull

/-- **Syncs create revisions for changes only, and for every change.**  A manager that keeps at
least one revision detects changes in every store in memory, and in every cluster without faults
whose documents are filed under the addresses they give. -/
theorem created_iff_declaration_changed {m : Manager} {g₁ g₂ : Group}
    (hlimit : 1 ≤ m.historyLimit) (hname : g₂.metadata.name = g₁.metadata.name)
    (hns : g₂.metadata.ns = g₁.metadata.ns) (huid : g₂.metadata.uid = g₁.metadata.uid)
    (hplain₁ : g₁.isPlain = true) (hplain₂ : g₂.isPlain = true) :
    (∀ (φ : Type) [FaultSource φ] (s : Memory φ), Sync.DetectsChange m g₁ g₂ s) ∧
      ∀ c : Cluster Unit, c.IsFiled → Sync.DetectsChange m g₁ g₂ c := by
  constructor
  · intro φ _ s
    refine Sync.detectsChange_of_holds s.revisions.items hlimit hname hns huid hplain₁ hplain₂
      (fun _ _ r _ _ => Memory.accepts r) fun existing s' j hown => ?_
    obtain ⟨listed, hlist, hexisting⟩ := Sync.list_of_revisionsOf hown
    cases listed with
    | error e => exact nomatch hexisting
    | ok listed =>
      obtain ⟨rfl, -⟩ := LawfulStore.list_ok (Memory.holds_items s) hlist
      cases hexisting
      exact ⟨Memory.holds_items s, rfl⟩
  · intro c hfiled res₁ s₁ j₁ res₂ s₂ j₂ hnumbers h₁
    -- what the first sync lists is what the cluster holds
    obtain ⟨existing, t, i, k, hown, -⟩ := Step.bind_eq_ok_iff.mp h₁
    obtain ⟨listed, hlist, hexisting⟩ := Sync.list_of_revisionsOf hown
    cases listed with
    | error e => exact nomatch hexisting
    | ok listed =>
      have hholds := Cluster.holds_of_list hfiled hlist
      refine Sync.detectsChange_of_holds listed hlimit hname hns huid hplain₁ hplain₂
        (fun g _ r hplain hbuild => Revision.isStored_of_build hplain hbuild)
        (fun existing' s' j hown' => ?_) res₁ s₁ j₁ res₂ s₂ j₂ hnumbers h₁
      rw [hown] at hown'
      cases hown'
      exact ⟨hholds, Except.ok.inj hexisting⟩

def emptyCluster : Cluster Unit := .empty (.ofUniversal ⟨⟨2024, 1, 1⟩, 0, 0, 0, 0⟩) .null ()

/-- The bare group, and then the same group with a scheduling policy: a revision is created in
either store. -/
theorem created_iff_declaration_changed_gang :
    (∃ res₁ s₁ j₁ res₂ s₂ j₂,
      keepingOne.sync bareGroup (Memory.empty .earliest ()) = ⟨.ok res₁, s₁, j₁⟩ ∧
      keepingOne.sync gangGroup s₁ = ⟨.ok res₂, s₂, j₂⟩ ∧ res₂.created = true) ∧
    ∃ res₁ s₁ j₁ res₂ s₂ j₂, keepingOne.sync bareGroup emptyCluster = ⟨.ok res₁, s₁, j₁⟩ ∧
      keepingOne.sync gangGroup s₁ = ⟨.ok res₂, s₂, j₂⟩ ∧ res₂.created = true := by
  obtain ⟨hmemory, hcluster⟩ := @created_iff_declaration_changed keepingOne bareGroup gangGroup
    (by decide) rfl rfl rfl (by decide) (by decide)
  have hchanged : ¬ bareGroup.declaresSame gangGroup = true := by decide
  constructor
  · obtain ⟨res₁, s₁, j₁, h₁⟩ := Step.exists_of_isOk (s := Memory.empty .earliest ())
      (x := keepingOne.sync bareGroup) (by decide +kernel)
    obtain ⟨res₂, s₂, j₂, h₂⟩ := Step.exists_of_isOk (s := s₁) (x := keepingOne.sync gangGroup) (by
      rw [show s₁ = (keepingOne.sync bareGroup (Memory.empty .earliest ())).state by rw [h₁]]
      decide +kernel)
    refine ⟨res₁, s₁, j₁, res₂, s₂, j₂, h₁, h₂, ?_⟩
    refine ((hmemory Unit _ res₁ s₁ j₁ res₂ s₂ j₂ (fun existing s' j h => ?_) h₁ h₂).1).mpr hchanged
    cases h
    exact List.nodup_nil
  · obtain ⟨res₁, s₁, j₁, h₁⟩ := Step.exists_of_isOk (s := emptyCluster)
      (x := keepingOne.sync bareGroup) (by decide +kernel)
    obtain ⟨res₂, s₂, j₂, h₂⟩ := Step.exists_of_isOk (s := s₁) (x := keepingOne.sync gangGroup) (by
      rw [show s₁ = (keepingOne.sync bareGroup emptyCluster).state by rw [h₁]]
      decide +kernel)
    have hfiled : emptyCluster.IsFiled := fun _ ho => absurd ho List.not_mem_nil
    refine ⟨res₁, s₁, j₁, res₂, s₂, j₂, h₁, h₂, ?_⟩
    refine ((hcluster emptyCluster hfiled res₁ s₁ j₁ res₂ s₂ j₂ (fun existing s' j h => ?_) h₁
      h₂).1).mpr hchanged
    cases h
    exact List.nodup_nil

end RolloutLedger
