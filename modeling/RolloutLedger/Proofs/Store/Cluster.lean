import RolloutLedger.Proofs.Document.Metadata
import RolloutLedger.Proofs.Store.Lawful
import RolloutLedger.Store.Cluster
/-! # The store in a cluster is lawful

A cluster whose calls meet no faults holds the revisions that its documents are read as, provided
every document is filed under the namespace and the name that it gives.  A created revision comes
back as its document is read, so it is a copy if its data is in stored form: decoding it and
encoding it again changes nothing.
-/

namespace RolloutLedger

open Entries (field fieldIf valueOr)

/-! ## Revisions read back -/

namespace Revision

/-- A revision that carries no object and whose data, if it can be decoded, is encoded to the same
again. -/
structure IsStored (r : Revision) : Prop where
  object : r.data.object = .null
  stable : ∀ v, Json.decode r.data.bytes = .ok v → v ≠ .null ∧ Json.encode v = .ok r.data.bytes

theorem exists_reads_of_ofDocument {es : Entries} {r : Revision}
    (h : ofDocument (.object es) = .ok r) :
    Metadata.ofDocument (valueOr es "metadata" .null) = .ok r.metadata ∧
      ((valueOr es "revision" .null).orElse (.int 0)).toInteger = .ok r.number ∧
      (valueOr es "data" .null).optional Json.encode = .ok r.data.raw ∧ r.data.object = .null := by
  rw [ofDocument] at h
  simp only [Value.member, Value.memberOr_object, ok_bind] at h
  obtain ⟨metadata, hmetadata, h⟩ := bind_eq_ok_iff.mp h
  obtain ⟨number, hnumber, h⟩ := bind_eq_ok_iff.mp h
  obtain ⟨raw, hraw, h⟩ := bind_eq_ok_iff.mp h
  cases h
  exact ⟨hmetadata, hnumber, hraw, rfl⟩

theorem exists_members_of_document {r : Revision} {body : Value} (h : r.document = .ok body) :
    ∃ created es, body = .object es ∧
      Entries.get? (.text "metadata") es = some (.object (r.metadata.membersWith created)) ∧
      valueOr es "revision" .null = .int r.number ∧
      (r.data.bytes = [] ∧ valueOr es "data" .null = .null ∨
        Json.decode r.data.bytes = .ok (valueOr es "data" .null)) := by
  obtain ⟨metadata, hmetadata, h⟩ := bind_eq_ok_iff.mp h
  obtain ⟨created, -, hmetadata⟩ := bind_eq_ok_iff.mp hmetadata
  cases hmetadata
  split at h
  · rename_i hempty
    cases h
    exact ⟨created, _, rfl, by simp, by simp [valueOr],
      Or.inl ⟨List.isEmpty_iff.mp hempty, by simp [valueOr]⟩⟩
  · obtain ⟨v, hv, h⟩ := bind_eq_ok_iff.mp h
    cases h
    refine ⟨created, _, rfl, by simp, by simp [valueOr], Or.inr ?_⟩
    rw [hv]
    simp [valueOr]

/-- What comes back of a created revision whose data is in stored form is a copy of it. -/
theorem isCopyOf_of_stamped {r read : Revision} {t : Time.Timestamp} {body : Value}
    (hr : r.IsStored) (hbody : r.document = .ok body)
    (hread : ofDocument (Cluster.stampedDocument t body) = .ok read) :
    read.IsCopyOf r := by
  obtain ⟨created, es, rfl, hmetadata, hnumber, hdata⟩ := exists_members_of_document hbody
  obtain ⟨hmetadata', hnumber', hraw, hobject⟩ := exists_reads_of_ofDocument hread
  simp only [hmetadata, valueOr, Entries.get?_put, String.reduceEq, if_true, if_false,
    Option.getD_some] at hmetadata' hnumber' hraw
  simp only [valueOr] at hnumber hdata
  rw [hnumber, Value.toInteger_int_orElse] at hnumber'
  obtain ⟨hname, hns, hlabels, howners⟩ :=
    (Metadata.ofDocument_object_iff.mp hmetadata').of_stamped
  refine ⟨(Except.ok.inj hnumber').symm, hname, hns, hlabels, howners, ?_, ?_⟩
  · rcases hdata with ⟨hempty, hnull⟩ | hdecode
    · rw [hnull] at hraw
      rw [RevisionData.bytes, ← Except.ok.inj hraw]
      exact hempty.symm
    · obtain ⟨hpresent, hencode⟩ := hr.stable _ hdecode
      rw [Value.optional.eq_2 _ _ hpresent, hencode] at hraw
      rw [RevisionData.bytes, ← Except.ok.inj hraw]
      rfl
  · rw [hobject, hr.object]

end Revision

/-! ## Steps of the store -/

namespace Cluster

variable {c c' : Cluster Unit} {j : Journal}

/-- Without faults a call changes nothing, and if it answers it met no fault or was not made. -/
theorem call_spec {k : Call} {operation : Operation} {name : Option String}
    {a : Except Error (Option Fault)} (h : call k operation name c = ⟨a, c', j⟩) :
    c' = c ∧ (j = [] ∨ j = [.called k]) ∧ ∀ fault, a = .ok (some fault) → fault = .overdue := by
  rw [call] at h
  cases hpast : isPast c.deadline with
  | error e =>
    rw [hpast] at h
    cases h
    exact ⟨rfl, Or.inl rfl, fun _ ha => (nomatch ha)⟩
  | ok past =>
    rw [hpast] at h
    cases past with
    | false =>
      cases h
      exact ⟨rfl, Or.inr rfl, fun _ ha => (nomatch ha)⟩
    | true =>
      cases h
      exact ⟨rfl, Or.inl rfl, fun fault ha => by cases ha; rfl⟩

theorem failWith_spec {α : Type} {operation : Operation} {fault : Fault} {a : Except Error α}
    (h : failWith operation fault c = ⟨a, c', j⟩) :
    (∃ e, a = .error e) ∧ c' = c ∧ j.creations = [] := by
  rw [failWith] at h
  rcases Step.bind_eq_iff.mp h with ⟨e, hstate, -⟩ | ⟨s, t, i, k, hstate, h, rfl⟩
  · exact nomatch congrArg Outcome.answer hstate
  cases hstate
  cases h
  refine ⟨⟨_, rfl⟩, rfl, ?_⟩
  cases fault <;> rfl

theorem readObject_spec {o : ClusterObject} {a : Except Error Revision}
    (h : readObject o c = ⟨a, c', j⟩) :
    a = Revision.ofDocument o.document ∧ c' = c ∧ j.creations = [] := by
  rw [readObject] at h
  split at h
  · rcases Step.bind_eq_iff.mp h with ⟨e, hnote, -⟩ | ⟨u, t, i, k, hnote, hread, rfl⟩
    · exact nomatch congrArg Outcome.answer hnote
    · cases hnote
      obtain ⟨rfl, rfl, rfl⟩ := Step.ofExcept_eq_iff.mp hread
      exact ⟨rfl, rfl, rfl⟩
  · obtain ⟨rfl, rfl, rfl⟩ := Step.ofExcept_eq_iff.mp h
    exact ⟨rfl, rfl, rfl⟩

theorem readObjects_spec {os : List ClusterObject} {a : Except Error (List Revision)}
    (h : readObjects os c = ⟨a, c', j⟩) :
    c' = c ∧ j.creations = [] ∧ ∀ rs, a = .ok rs →
      List.Forall₂ (fun o r => Revision.ofDocument o.document = .ok r) os rs := by
  induction os generalizing c a j with
  | nil =>
    cases h
    exact ⟨rfl, rfl, fun rs ha => by cases ha; exact .nil⟩
  | cons o os ih =>
    rw [readObjects] at h
    rcases Step.bind_eq_iff.mp h with ⟨e, hfirst, rfl⟩ | ⟨r, t, i, k, hfirst, h₁, rfl⟩
    · obtain ⟨-, rfl, hquiet⟩ := readObject_spec hfirst
      exact ⟨rfl, hquiet, fun _ ha => (nomatch ha)⟩
    obtain ⟨hread, rfl, hquiet⟩ := readObject_spec hfirst
    rcases Step.bind_eq_iff.mp h₁ with ⟨e, hrest, rfl⟩ | ⟨rs, t', i', k', hrest, h₂, rfl⟩
    · obtain ⟨rfl, hquiet', -⟩ := ih hrest
      refine ⟨rfl, ?_, fun _ ha => (nomatch ha)⟩
      rw [Journal.creations_append, hquiet, hquiet', List.append_nil]
    · cases h₂
      obtain ⟨rfl, hquiet', hrs⟩ := ih hrest
      refine ⟨rfl, ?_, fun _ ha => ?_⟩
      · rw [Journal.creations_append, Journal.creations_append, hquiet, hquiet']
        rfl
      · cases ha
        exact .cons hread.symm (hrs rs rfl)

theorem list_spec {ns : String} {selector : Selector} {a : Except Error (List Revision)}
    (h : RevisionStore.list ns selector c = ⟨a, c', j⟩) :
    c' = c ∧ j.creations = [] ∧ ∀ rs, a = .ok rs →
      List.Forall₂ (fun o r => Revision.ofDocument o.document = .ok r) c.objects.items rs := by
  rcases Step.bind_eq_iff.mp h with ⟨e, hquery, rfl⟩ | ⟨query, t, i, k, hquery, h₁, rfl⟩
  · obtain ⟨-, rfl, rfl⟩ := Step.ofExcept_eq_iff.mp hquery
    exact ⟨rfl, rfl, fun _ ha => (nomatch ha)⟩
  obtain ⟨-, rfl, rfl⟩ := Step.ofExcept_eq_iff.mp hquery
  rcases Step.bind_eq_iff.mp h₁ with ⟨e, hcall, rfl⟩ | ⟨fault, t', i', k', hcall, h₂, rfl⟩
  · obtain ⟨rfl, hj, -⟩ := call_spec hcall
    refine ⟨rfl, ?_, fun _ ha => (nomatch ha)⟩
    rcases hj with rfl | rfl <;> rfl
  obtain ⟨rfl, hj, -⟩ := call_spec hcall
  have hquiet : i'.creations = [] := by rcases hj with rfl | rfl <;> rfl
  cases fault with
  | some fault =>
    obtain ⟨⟨e, rfl⟩, rfl, hquiet'⟩ := failWith_spec h₂
    refine ⟨rfl, ?_, fun _ ha => (nomatch ha)⟩
    rw [List.nil_append, Journal.creations_append, hquiet, hquiet']
    rfl
  | none =>
    rcases Step.bind_eq_iff.mp h₂ with ⟨e, hstate, -⟩ | ⟨s, t, i, k, hstate, h₃, rfl⟩
    · exact nomatch congrArg Outcome.answer hstate
    cases hstate
    obtain ⟨rfl, hquiet', hrs⟩ := readObjects_spec h₃
    refine ⟨rfl, ?_, hrs⟩
    rw [List.nil_append, List.nil_append, Journal.creations_append, hquiet, hquiet']
    rfl

/-- A creation that answers stored the document at a free address and read it back. -/
theorem create_spec {r copy : Revision} (h : RevisionStore.create r c = ⟨.ok copy, c', j⟩) :
    ∃ body read, r.document = .ok body ∧ c.objects.holds r.address = false ∧
      c' = c.add r.address body ∧
      Revision.ofDocument (stampedDocument c.now body) = .ok read ∧
      copy = { read with data := { read.data with object := r.data.object } } := by
  obtain ⟨body, t, i, k, hbody, h₁, rfl⟩ := Step.bind_eq_ok_iff.mp h
  obtain ⟨hdocument, rfl, rfl⟩ := Step.ofExcept_eq_iff.mp hbody
  obtain ⟨fault, t', i', k', hcall, h₂, rfl⟩ := Step.bind_eq_ok_iff.mp h₁
  obtain ⟨rfl, -, -⟩ := call_spec hcall
  cases fault with
  | some fault =>
    obtain ⟨⟨e, ha⟩, -⟩ := failWith_spec h₂
    exact nomatch ha
  | none =>
    obtain ⟨s, t, i, k, hstate, h₃, rfl⟩ := Step.bind_eq_ok_iff.mp h₂
    cases hstate
    by_cases hholds : t'.objects.holds r.address = true
    · rw [if_pos hholds] at h₃
      obtain ⟨⟨e, ha⟩, -⟩ := failWith_spec h₃
      exact nomatch ha
    · rw [if_neg hholds] at h₃
      obtain ⟨u, t, i, k, hset, h₄, rfl⟩ := Step.bind_eq_ok_iff.mp h₃
      cases hset
      obtain ⟨read, t, i, k, hread, h₅, rfl⟩ := Step.bind_eq_ok_iff.mp h₄
      obtain ⟨hrevision, rfl, rfl⟩ := Step.ofExcept_eq_iff.mp hread
      cases h₅
      exact ⟨body, read, hdocument, Bool.eq_false_iff.mpr hholds, rfl, hrevision, rfl⟩

/-- A deletion that answers took out what was at the address; one that failed took out nothing. -/
theorem delete_spec {r : Revision} {a : Except Error Unit}
    (h : RevisionStore.delete r c = ⟨a, c', j⟩) :
    j.creations = [] ∧ ((∃ e, a = .error e ∧ c' = c) ∨
      a = .ok () ∧ c'.objects.items = c.objects.items.filter fun o => o.address != r.address) := by
  rcases Step.bind_eq_iff.mp h with ⟨e, hcall, rfl⟩ | ⟨fault, t, i, k, hcall, h₁, rfl⟩
  · obtain ⟨rfl, hj, -⟩ := call_spec hcall
    refine ⟨?_, Or.inl ⟨e, rfl, rfl⟩⟩
    rcases hj with rfl | rfl <;> rfl
  obtain ⟨rfl, hj, hfault⟩ := call_spec hcall
  have hquiet : i.creations = [] := by rcases hj with rfl | rfl <;> rfl
  rw [Journal.creations_append, hquiet, List.nil_append]
  cases fault with
  | some fault =>
    obtain rfl := hfault fault rfl
    obtain ⟨⟨e, rfl⟩, rfl, hquiet'⟩ := failWith_spec h₁
    exact ⟨hquiet', Or.inl ⟨e, rfl, rfl⟩⟩
  | none =>
    rcases Step.bind_eq_iff.mp h₁ with ⟨e, hstate, -⟩ | ⟨s, t', i', k', hstate, h₂, rfl⟩
    · exact nomatch congrArg Outcome.answer hstate
    cases hstate
    by_cases hholds : t.objects.holds r.address = true
    · rw [if_pos hholds] at h₂
      cases h₂
      exact ⟨rfl, Or.inr ⟨rfl, rfl⟩⟩
    · rw [if_neg hholds] at h₂
      have hnone : t.objects.items.filter (fun o => o.address != r.address) =
          t.objects.items := by
        refine List.filter_eq_self.mpr fun o ho => ?_
        rw [bne_iff_ne]
        intro haddress
        exact hholds ((t.objects.holds_iff _).mpr (List.mem_map.mpr ⟨o, ho, haddress⟩))
      cases h₂
      exact ⟨rfl, Or.inr ⟨rfl, hnone.symm⟩⟩

/-! ## Lawfulness -/

/-- Whether an object is the stored form of a revision: read as it, and filed under its address. -/
def Stores (o : ClusterObject) (r : Revision) : Prop :=
  Revision.ofDocument o.document = .ok r ∧ o.address = r.address

theorem map_address_of_stores {os : List ClusterObject} {rs : List Revision}
    (h : List.Forall₂ Stores os rs) : os.map ClusterObject.address = rs.map Revision.address := by
  induction h with
  | nil => rfl
  | cons hfirst _ ih => rw [List.map_cons, List.map_cons, hfirst.2, ih]

theorem filter_of_stores {os : List ClusterObject} {rs : List Revision} (a : Address)
    (h : List.Forall₂ Stores os rs) :
    List.Forall₂ Stores (os.filter fun o => o.address != a)
      (rs.filter fun r => r.address != a) := by
  induction h with
  | nil => exact .nil
  | cons hfirst _ ih =>
    rw [List.filter_cons, List.filter_cons, hfirst.2]
    split
    · exact .cons hfirst ih
    · exact ih

theorem append_of_stores {os : List ClusterObject} {rs : List Revision} {o : ClusterObject}
    {r : Revision} (h : List.Forall₂ Stores os rs) (hlast : Stores o r) :
    List.Forall₂ Stores (os ++ [o]) (rs ++ [r]) := by
  induction h with
  | nil => exact .cons hlast .nil
  | cons hfirst _ ih => exact .cons hfirst ih

theorem eq_of_stores {os : List ClusterObject} {rs rs' : List Revision}
    (h : List.Forall₂ Stores os rs)
    (h' : List.Forall₂ (fun o r => Revision.ofDocument o.document = .ok r) os rs') : rs' = rs := by
  induction h generalizing rs' with
  | nil =>
    cases h'
    rfl
  | cons hfirst _ ih =>
    cases h' with
    | cons hfirst' hrest' =>
      have hsame := Except.ok.inj (hfirst'.symm.trans hfirst.1)
      rw [hsame, ih hrest']

instance : LawfulStore (Cluster Unit) where
  Holds c rs := List.Forall₂ Stores c.objects.items rs
  Accepts r := r.IsStored
  distinct := by
    intro c rs h
    rw [← map_address_of_stores h]
    exact c.objects.distinct
  list_ok := by
    intro c c' rs ns selector listed j h hlist
    obtain ⟨rfl, -, hlisted⟩ := list_spec hlist
    exact ⟨eq_of_stores h (hlisted listed rfl), h⟩
  create_ok := by
    intro c c' rs r copy j h hr hcreate
    obtain ⟨body, read, hbody, hfree, rfl, hread, rfl⟩ := create_spec hcreate
    have hcopy := Revision.isCopyOf_of_stamped hr hbody hread
    have hobject : read.data.object = r.data.object := hcopy.object
    have hsame : { read with data := { read.data with object := r.data.object } } = read := by
      rw [← hobject]
    rw [hsame]
    refine ⟨hcopy, ?_⟩
    show List.Forall₂ Stores (c.add r.address body).objects.items _
    rw [add, Catalog.items_put_of_not_holds hfree]
    exact append_of_stores h ⟨hread, hcopy.address.symm⟩
  delete_ok := by
    intro c c' rs r u j h hdelete
    obtain ⟨-, ⟨e, ha, -⟩ | ⟨-, hitems⟩⟩ := delete_spec hdelete
    · exact nomatch ha
    · show List.Forall₂ Stores c'.objects.items _
      rw [hitems]
      exact filter_of_stores _ h
  delete_error := by
    intro c c' rs r e j h hdelete
    obtain ⟨-, ⟨-, -, rfl⟩ | ⟨ha, -⟩⟩ := delete_spec hdelete
    · exact h
    · exact nomatch ha
  list_creations h := (list_spec h).2.1
  delete_creations h := (delete_spec h).1

/-- A cluster in which every document that can be read is filed under the address it gives. -/
def IsFiled (c : Cluster Unit) : Prop :=
  ∀ o ∈ c.objects.items, ∀ r, Revision.ofDocument o.document = .ok r → o.address = r.address

/-- Where documents are filed properly, a cluster that can be listed holds what it lists. -/
theorem holds_of_list {ns : String} {selector : Selector} {rs : List Revision}
    (hfiled : c.IsFiled) (h : RevisionStore.list ns selector c = ⟨.ok rs, c', j⟩) :
    LawfulStore.Holds c rs := by
  have hread := (list_spec h).2.2 rs rfl
  clear h
  show List.Forall₂ Stores c.objects.items rs
  rw [IsFiled] at hfiled
  generalize c.objects.items = os at *
  induction hread with
  | nil => exact .nil
  | cons hfirst _ ih =>
    obtain ⟨haddress, hrest⟩ := List.forall_mem_cons.mp hfiled
    exact .cons ⟨hfirst, haddress _ hfirst⟩ (ih hrest)

end Cluster

end RolloutLedger
