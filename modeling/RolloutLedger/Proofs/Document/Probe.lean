import RolloutLedger.Pod
import RolloutLedger.Proofs.Document.Recasting
import RolloutLedger.Proofs.Document.Room
/-! # Probes are read back

A probe is written without the values that count as unset.  What is read back from a recast
document has the defaults in their place and the other values recast; where recasting only orders,
writing it again says the same.
-/

namespace RolloutLedger

open Entries (field fieldIf valueOr keysApart mapValues HasNames)

namespace Recasting

/-- The value that is read back for one that was written: the default if the value counts as
unset. -/
def reread (f : Recasting) (default v : Value) : Value :=
  if Probe.isUnset v then default else f.value v

theorem getD_of_written (f : Recasting) {default : Value} (hdefault : f.value default = default)
    (v : Value) :
    f.value ((if (!Probe.isUnset v) = true then some v else none).getD default) =
      f.reread default v := by
  rw [reread]
  cases Probe.isUnset v with
  | true => exact hdefault
  | false => rfl

end Recasting

namespace Probe

variable {room : Nat} {p : Probe}

/-- The value that is read back for one that was written, in ordered form: the default if the value
counts as unset. -/
def reread (default v : Value) : Value := if isUnset v then default else v.ordered

/-- A probe as it is read back: unset values are replaced by their defaults. -/
def ordered (p : Probe) : Probe where
  exec := reread .null p.exec
  httpGet := reread .null p.httpGet
  tcpSocket := reread .null p.tcpSocket
  grpc := reread .null p.grpc
  initialDelaySeconds := reread (.int 0) p.initialDelaySeconds
  timeoutSeconds := reread (.int 0) p.timeoutSeconds
  periodSeconds := reread (.int 0) p.periodSeconds
  successThreshold := reread (.int 0) p.successThreshold
  failureThreshold := reread (.int 0) p.failureThreshold
  terminationGracePeriodSeconds := reread .null p.terminationGracePeriodSeconds

def Fits (room : Nat) (p : Probe) : Prop := ∀ nv ∈ p.values, nv.2.Fits room

theorem ofDocument_object (es : Entries) :
    ofDocument (.object es) = .ok
      ⟨valueOr es "exec" .null, valueOr es "httpGet" .null, valueOr es "tcpSocket" .null,
        valueOr es "grpc" .null, valueOr es "initialDelaySeconds" (.int 0),
        valueOr es "timeoutSeconds" (.int 0), valueOr es "periodSeconds" (.int 0),
        valueOr es "successThreshold" (.int 0), valueOr es "failureThreshold" (.int 0),
        valueOr es "terminationGracePeriodSeconds" .null⟩ := rfl

theorem eq_default_or_mem_of_held {doc d v : Value} {n : String}
    (hv : (do return (← doc.held (.text n)).getD d : Except Error Value) = .ok v) :
    v = d ∨ ∃ es, doc = .object es ∧ (Key.text n, v) ∈ es := by
  obtain ⟨o, ho, hv⟩ := bind_eq_ok_iff.mp hv
  cases hv
  cases o with
  | none => exact Or.inl rfl
  | some v =>
    cases doc with
    | object es =>
      refine Or.inr ⟨es, rfl, ?_⟩
      rw [Option.getD_some]
      exact Entries.mem_of_get? (Except.ok.inj ho)
    | text s =>
      rw [Value.held] at ho
      split at ho
      · cases ho
      · cases ho
    | list items | set items =>
      rw [Value.held] at ho
      split at ho
      · cases ho
      · cases ho
    | _ => cases ho

/-- **What a probe holds.**  Each value is a default, or a member of the document. -/
theorem eq_default_or_mem {doc : Value} (hp : ofDocument doc = .ok p) :
    ∀ nv ∈ p.values, nv.2 = .null ∨ nv.2 = .int 0 ∨
      ∃ es, doc = .object es ∧ (Key.text nv.1, nv.2) ∈ es := by
  have hnull : ∀ {n v}, (do return (← doc.held (.text n)).getD .null : Except Error Value) = .ok v →
      v = .null ∨ v = .int 0 ∨ ∃ es, doc = .object es ∧ (Key.text n, v) ∈ es :=
    fun hv => (eq_default_or_mem_of_held hv).imp_right Or.inr
  have hzero : ∀ {n v},
      (do return (← doc.held (.text n)).getD (.int 0) : Except Error Value) = .ok v →
      v = .null ∨ v = .int 0 ∨ ∃ es, doc = .object es ∧ (Key.text n, v) ∈ es :=
    fun hv => Or.inr (eq_default_or_mem_of_held hv)
  obtain ⟨exec, hexec, hp⟩ := bind_eq_ok_iff.mp hp
  obtain ⟨httpGet, hhttpGet, hp⟩ := bind_eq_ok_iff.mp hp
  obtain ⟨tcpSocket, htcpSocket, hp⟩ := bind_eq_ok_iff.mp hp
  obtain ⟨grpc, hgrpc, hp⟩ := bind_eq_ok_iff.mp hp
  obtain ⟨initialDelay, hinitialDelay, hp⟩ := bind_eq_ok_iff.mp hp
  obtain ⟨timeout, htimeout, hp⟩ := bind_eq_ok_iff.mp hp
  obtain ⟨period, hperiod, hp⟩ := bind_eq_ok_iff.mp hp
  obtain ⟨success, hsuccess, hp⟩ := bind_eq_ok_iff.mp hp
  obtain ⟨failure, hfailure, hp⟩ := bind_eq_ok_iff.mp hp
  obtain ⟨termination, htermination, hp⟩ := bind_eq_ok_iff.mp hp
  cases hp
  simp only [values, List.forall_mem_cons, List.not_mem_nil, false_implies, implies_true, and_true]
  exact ⟨hnull hexec, hnull hhttpGet, hnull htcpSocket, hnull hgrpc, hzero hinitialDelay,
    hzero htimeout, hzero hperiod, hzero hsuccess, hzero hfailure, hnull htermination⟩

theorem fits_of_ofDocument {doc : Value} (h : doc.Fits (room + 1)) (hp : ofDocument doc = .ok p) :
    p.Fits room := by
  intro nv hnv
  rcases eq_default_or_mem hp nv hnv with hv | hv | ⟨es, rfl, hv⟩
  · rw [hv]
    exact .null
  · rw [hv]
    exact Value.Fits.int_iff.mpr (by decide +kernel)
  · exact (Value.Fits.object_iff.mp h).2 _ hv

def members (p : Probe) : Entries :=
  p.values.flatMap fun nv => fieldIf (!isUnset nv.2) nv.1 nv.2

theorem document_eq (p : Probe) : p.document = .object p.members := by
  rw [document, members]
  induction p.values with
  | nil => rfl
  | cons nv rest ih =>
    rw [List.filter_cons, List.flatMap_cons, ← Value.object.inj ih]
    cases isUnset nv.2 <;> rfl

theorem keysApart_members (p : Probe) : keysApart p.members = true := by
  have hnames : HasNames (p.values.map (·.1)) p.members := by
    rw [members]
    induction p.values with
    | nil => exact List.Sublist.refl _
    | cons nv rest ih => exact (HasNames.fieldIf (!isUnset nv.2) nv.1 nv.2).append ih
  exact hnames.keysApart (by simp [values])

theorem fits_document (h : p.Fits room) : p.document.Fits (room + 1) := by
  rw [document_eq]
  refine Value.Fits.object_iff.mpr ⟨p.keysApart_members, fun q hq => ?_⟩
  obtain ⟨nv, hnv, hq⟩ := List.mem_flatMap.mp hq
  exact Entries.forall_mem_fieldIf (h nv hnv) q hq

theorem isUnset_value (f : Recasting) (v : Value) : isUnset (f.value v) = isUnset v := by
  cases v with
  | list items => simp [f.value_list, isUnset, Value.same, Value.alike, Value.scalar?]
  | object es => simp [f.value_object, isUnset, Value.same, Value.alike, Value.scalar?]
  | _ => rw [f.value_scalar (fun _ => Value.noConfusion) fun _ => Value.noConfusion]

@[simp] theorem isUnset_ordered (v : Value) : isUnset v.ordered = isUnset v :=
  isUnset_value .ordering v

/-! ### Reading back -/

/-- A probe as it is read back from a recast document: unset values are replaced by their
defaults, the others are recast. -/
def recast (f : Recasting) (p : Probe) : Probe where
  exec := f.reread .null p.exec
  httpGet := f.reread .null p.httpGet
  tcpSocket := f.reread .null p.tcpSocket
  grpc := f.reread .null p.grpc
  initialDelaySeconds := f.reread (.int 0) p.initialDelaySeconds
  timeoutSeconds := f.reread (.int 0) p.timeoutSeconds
  periodSeconds := f.reread (.int 0) p.periodSeconds
  successThreshold := f.reread (.int 0) p.successThreshold
  failureThreshold := f.reread (.int 0) p.failureThreshold
  terminationGracePeriodSeconds := f.reread .null p.terminationGracePeriodSeconds

/-- **A probe is read back.** -/
theorem ofDocument_recast (f : Recasting) (p : Probe) :
    ofDocument (f.value p.document) = .ok (p.recast f) := by
  have hnull : ∀ n, Key.text n ≠ Patch.directiveKey →
      valueOr (f.members p.members) n .null = f.value (valueOr p.members n .null) :=
    fun n => f.valueOr_null p.keysApart_members n
  have hzero : ∀ n, Key.text n ≠ Patch.directiveKey →
      valueOr (f.members p.members) n (.int 0) = f.value (valueOr p.members n (.int 0)) :=
    fun n hn => f.valueOr_members p.keysApart_members hn (f.value_int 0)
  rw [document_eq, f.value_object, ofDocument_object]
  simp only [hnull, hzero, ne_eq, Patch.text_eq_directiveKey_iff, String.reduceEq,
    not_false_eq_true]
  simp only [valueOr, members, values, List.flatMap_cons, List.flatMap_nil, Entries.get?_append,
    Entries.get?_fieldIf, Entries.get?_nil, String.reduceEq, if_true, if_false, Option.or_none,
    Option.none_or, f.getD_of_written f.value_null, f.getD_of_written (f.value_int 0), recast]

theorem document_ordered (h : p.Fits room) : p.ordered.document.ordered = p.document.ordered := by
  have hwritten : ∀ (n : String) (default v : Value), isUnset default = true →
      v.isPlain = true →
      fieldIf (!isUnset (reread default v)) n (reread default v).ordered =
        fieldIf (!isUnset v) n v.ordered := by
    intro n default v hdefault hv
    cases hunset : isUnset v with
    | true => rw [reread, if_pos hunset, hdefault]; rfl
    | false =>
      rw [reread, if_neg (by rw [hunset]; exact Bool.false_ne_true), isUnset_ordered, hunset,
        Value.ordered_ordered hv]
  simp only [Fits, values, List.forall_mem_cons, List.not_mem_nil, false_implies, implies_true,
    and_true] at h
  obtain ⟨h1, h2, h3, h4, h5, h6, h7, h8, h9, h10⟩ := h
  rw [document_eq, document_eq, Value.ordered_object_eq, Value.ordered_object_eq]
  refine congrArg _ (Entries.ordered_eq_of_perm (keysApart_members _) (List.Perm.of_eq ?_))
  simp only [members, values, ordered, List.flatMap_cons, List.flatMap_nil,
    Entries.mapValues_append, Entries.mapValues_fieldIf]
  rw [hwritten _ _ _ rfl h1.plain, hwritten _ _ _ rfl h2.plain, hwritten _ _ _ rfl h3.plain,
    hwritten _ _ _ rfl h4.plain, hwritten _ _ _ rfl h5.plain, hwritten _ _ _ rfl h6.plain,
    hwritten _ _ _ rfl h7.plain, hwritten _ _ _ rfl h8.plain, hwritten _ _ _ rfl h9.plain,
    hwritten _ _ _ rfl h10.plain]

end Probe

end RolloutLedger
