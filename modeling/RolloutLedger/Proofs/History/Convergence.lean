import RolloutLedger.Proofs.History.Deletion
/-! # Trying a retention again

A retention that was interrupted may be tried again as often as it takes.  Each attempt is given
either those revisions of the history that the store still has, or the list that an earlier attempt
handed back, which may name revisions that are gone by now.  Whatever the attempts came to, the
first one that meets no fault leaves the store as it would have left it if it had been the only
one, and no attempt asks for the deletion of a revision that is to be kept.

Each attempt counts its surplus anew, from a list of a length of its own.  The invariant is that
the store is without the first `n` expired revisions of the whole history, and that every list an
attempt is given is what the history has, in order, from some place `i ≤ n` on.  So what is
expired in that list are the expired revisions of the history from the place `i` on, and the
boundary in front of the revisions to keep never moves.
-/

namespace RolloutLedger

open Store (remaining)

theorem mem_take_append_take_drop {α : Type} {xs : List α} {i n : Nat} (h : i ≤ n) (m : Nat)
    (x : α) : x ∈ xs.take n ++ (xs.drop i).take m ↔ x ∈ xs.take (max n (i + m)) := by
  rw [List.mem_append]
  rcases Nat.le_total (i + m) n with hle | hle
  · rw [Nat.max_eq_left hle]
    refine or_iff_left_of_imp fun hx => ?_
    have hfront : (xs.drop i).take m = (xs.take (i + m)).drop i := by
      rw [List.drop_take, Nat.add_sub_cancel_left]
    rw [hfront] at hx
    exact List.take_subset_take_left xs hle (List.mem_of_mem_drop hx)
  · rw [Nat.max_eq_right hle, List.take_add, List.mem_append]
    constructor
    · rintro (hx | hx)
      · have hx := List.take_subset_take_left xs hle hx
        rw [List.take_add] at hx
        exact List.mem_append.mp hx
      · exact Or.inr hx
    · rintro (hx | hx)
      · exact Or.inl (List.take_subset_take_left xs h hx)
      · exact Or.inr hx

namespace Store

theorem nodup_addresses {revisions : List Revision} (h : (revisions.map Revision.name).Nodup) :
    (revisions.map Revision.address).Nodup := by
  have hkeys : ((revisions.map Revision.name).map Key.text).Nodup :=
    h.map fun _ _ htexts => Key.text.inj htexts
  rw [List.map_map] at hkeys
  refine List.Nodup.of_map (fun a : Address => a.name) ?_
  rw [List.map_map]
  exact hkeys

theorem remaining_congr {revisions deleted deleted' : List Revision}
    (h : ∀ d, d ∈ deleted ↔ d ∈ deleted') :
    remaining revisions deleted = remaining revisions deleted' := by
  unfold remaining
  refine List.filter_congr fun r _ => congrArg Bool.not ?_
  rw [Bool.eq_iff_iff, List.contains_iff_mem, List.contains_iff_mem, List.mem_map, List.mem_map]
  exact exists_congr fun d => and_congr_left fun _ => h d

end Store

namespace History

variable {history : List Revision} {limit : Int}

/-! ## The newest revisions -/

/-- Revisions that are the newest of a history under a limit: as many as there are and the limit
allows, each of them behind all the others. -/
structure AreNewest (history : List Revision) (limit : Int) (newest : List Revision) : Prop where
  subset : newest ⊆ history
  distinct : newest.Nodup
  length : (newest.length : Int) = min (history.length : Int) limit
  behind : ∀ r ∈ newest, ∀ d ∈ history, d ∉ newest →
    precedes d r = true ∧ precedes r d = false

theorem areNewest_kept (hlimit : 1 ≤ limit) (hnames : (history.map Revision.name).Nodup) :
    AreNewest history limit (kept history limit) where
  subset r hr := (sorted_perm history).mem_iff.mp
    (List.mem_of_mem_drop ((kept_perm history limit).mem_iff.mp hr))
  distinct := (kept_perm history limit).nodup_iff.mpr
    (((sorted_perm history).nodup_iff.mpr hnames.of_map).sublist (List.drop_sublist _ _))
  length := length_kept hlimit
  behind r hr d hd hnot := by
    have hr' := (kept_perm history limit).mem_iff.mp hr
    have hd' := (sorted_perm history).mem_iff.mpr hd
    rw [← List.take_append_drop (surplus history limit) (sorted history)] at hd'
    have hfront := (List.mem_append.mp hd').resolve_right fun hback =>
      hnot ((kept_perm history limit).mem_iff.mpr hback)
    have hdr := precedes_of_mem_take_drop hfront hr'
    refine ⟨hdr, Bool.eq_false_iff.mpr fun hrd => hnot ?_⟩
    have hr'' := (sorted_perm history).mem_iff.mp (List.mem_of_mem_drop hr')
    rwa [separated_of_names hnames d hd r hr'' hdr hrd]

theorem mem_remaining_expired_iff (hlimit : 1 ≤ limit)
    (haddresses : (history.map Revision.address).Nodup) {r : Revision} :
    r ∈ remaining history (expired history limit) ↔ r ∈ kept history limit := by
  rw [expired_eq_take hlimit, (kept_perm history limit).mem_iff]
  exact (remaining_take_perm haddresses _).mem_iff

/-! ## Attempts -/

/-- The list that a retention hands back for another attempt, if it was interrupted. -/
def handedBack : Except Error (Except Interruption (List Revision)) → List (List Revision)
  | .ok (.error i) => [i.retained]
  | _ => []

end History

namespace Memory

open History (Interruption Separated expired handedBack kept prune sorted)

variable {φ ψ : Type}

/-- What an attempt at the retention of a history may be given: the revisions of the history that
the store still has, in any order, or a list that was handed back. -/
inductive Offered (history : List Revision) (t : Memory φ) (back : List (List Revision)) :
    List Revision → Prop
  | fresh {given : List Revision} (distinct : given.Nodup)
    (left : ∀ r, r ∈ given ↔ r ∈ history ∧ r ∈ t.revisions.items) : Offered history t back given
  | stale {given : List Revision} (earlier : given ∈ back) : Offered history t back given

/-- Attempts at the retention of a history, one after the other: the store they lead to, the lists
they have handed back, and what they have left in the journal. -/
inductive Attempts [FaultSource φ] (history : List Revision) (limit : Int) (s : Memory φ) :
    Memory φ → List (List Revision) → Journal → Prop
  | none : Attempts history limit s s [] []
  | more {t u : Memory φ} {back : List (List Revision)} {j k : Journal} {given : List Revision}
    {a : Except Error (Except Interruption (List Revision))}
    (before : Attempts history limit s t back j) (offered : Offered history t back given)
    (attempt : prune given limit t = ⟨a, u, k⟩) :
    Attempts history limit s u (back ++ handedBack a) (j ++ k)

/-! ## What attempts keep -/

/-- A store that is without the first `n` of the expired revisions of a history. -/
structure Advanced (history : List Revision) (limit : Int) (s : Memory φ) (n : Nat)
    (t : Memory ψ) : Prop where
  le : n ≤ (expired history limit).length
  items : t.revisions.items = remaining s.revisions.items ((expired history limit).take n)
  clock : t.clock = s.clock

theorem advanced_zero (history : List Revision) (limit : Int) {s : Memory φ} {t : Memory ψ}
    (hrevisions : t.revisions = s.revisions) (hclock : t.clock = s.clock) :
    Advanced history limit s 0 t where
  le := Nat.zero_le _
  items := by rw [hrevisions, List.take_zero, Store.remaining_nil]
  clock := hclock

/-- What a history has in order from some place on that is not behind the `n`-th. -/
def IsRest (history : List Revision) (n : Nat) (given : List Revision) : Prop :=
  ∃ i ≤ n, given.Perm ((sorted history).drop i)

/-- Whether all calls in a journal are deletions of expired revisions. -/
def DeletesExpired (history : List Revision) (limit : Int) (j : Journal) : Prop :=
  ∀ c ∈ j.calls, ∃ d ∈ expired history limit, c = d.deletion

section Attempt

variable {history given : List Revision} {limit : Int} {s : Memory φ} {t u : Memory ψ} {n : Nat}
  {back : List (List Revision)} {k : Journal}
  {a : Except Error (Except Interruption (List Revision))}

/-- Whatever an attempt is offered, it is the history in order from some place on. -/
theorem Advanced.isRest (h : Advanced history limit s n t) (hlimit : 1 ≤ limit)
    (hheld : history ⊆ s.revisions.items) (haddresses : (history.map Revision.address).Nodup)
    (hback : ∀ l ∈ back, IsRest history n l) (hoffered : Offered history t back given) :
    IsRest history n given := by
  cases hoffered with
  | stale earlier => exact hback given earlier
  | fresh distinct left =>
    refine ⟨n, Nat.le_refl n, ?_⟩
    have hrest := History.remaining_take_perm haddresses n
    refine List.Perm.trans ?_ hrest
    have hnodup : (remaining history ((sorted history).take n)).Nodup := haddresses.of_map.filter _
    refine (List.perm_ext_iff_of_nodup distinct hnodup).mpr fun r => ?_
    rw [left, h.items, History.take_expired hlimit h.le, Store.mem_remaining_iff,
      Store.mem_remaining_iff]
    constructor
    · rintro ⟨hr, -, hleft⟩
      exact ⟨hr, hleft⟩
    · rintro ⟨hr, hleft⟩
      exact ⟨hr, hheld hr, hleft⟩

/-- An interrupted attempt hands back what it was given. -/
theorem eq_of_mem_handedBack [FaultSource ψ] (hrun : prune given limit t = ⟨a, u, k⟩) :
    ∀ l ∈ handedBack a, l = given := by
  intro l hl
  obtain ⟨m, -, hends⟩ := prune_cases hrun
  cases hends with
  | interrupted cause _ _ _ => exact List.mem_singleton.mp hl
  | _ => exact absurd hl List.not_mem_nil

/-- **What one attempt keeps.**  It deletes expired revisions of the whole history, from the place
on at which its list begins; it deletes all the others if it runs to its end. -/
theorem Advanced.attempt [FaultSource ψ] (h : Advanced history limit s n t) (hlimit : 1 ≤ limit)
    (hseparated : Separated history) (hgiven : IsRest history n given)
    (hrun : prune given limit t = ⟨a, u, k⟩) :
    ∃ m, n ≤ m ∧ Advanced history limit s m u ∧ DeletesExpired history limit k ∧
      (∀ kept, a = .ok (.ok kept) → m = (expired history limit).length) := by
  obtain ⟨i, hin, hperm⟩ := hgiven
  have hexpired : expired given limit = (expired history limit).drop i :=
    History.expired_eq_drop hseparated hlimit (Nat.le_trans hin h.le) hperm
  obtain ⟨m, hemptied, hends⟩ := prune_cases hrun
  have hle := hemptied.le
  have hn := h.le
  rw [hexpired, List.length_drop] at hle
  refine ⟨max n (i + m), Nat.le_max_left _ _, ⟨by omega, ?_, hemptied.clock.trans h.clock⟩, ?_, ?_⟩
  · rw [hemptied.items, hexpired, h.items, Store.remaining_remaining]
    exact Store.remaining_congr (mem_take_append_take_drop hin m)
  · intro c hc
    rw [hemptied.calls, hexpired] at hc
    obtain ⟨d, hd, rfl⟩ := List.mem_map.mp hc
    exact ⟨d, List.mem_of_mem_drop (List.mem_of_mem_take hd), rfl⟩
  · rintro kept rfl
    cases hends with
    | finished _ hall =>
      rw [hexpired, List.length_drop] at hall
      omega

theorem IsRest.mono {m : Nat} (h : IsRest history n given) (hnm : n ≤ m) :
    IsRest history m given := by
  obtain ⟨i, hin, hperm⟩ := h
  exact ⟨i, Nat.le_trans hin hnm, hperm⟩

/-- **What any number of attempts keep.** -/
theorem Attempts.advanced [FaultSource φ] {t : Memory φ} {j : Journal}
    (h : Attempts history limit s t back j) (hlimit : 1 ≤ limit)
    (hheld : history ⊆ s.revisions.items) (haddresses : (history.map Revision.address).Nodup)
    (hseparated : Separated history) :
    ∃ n, Advanced history limit s n t ∧ (∀ l ∈ back, IsRest history n l) ∧
      DeletesExpired history limit j := by
  induction h with
  | none =>
    exact ⟨0, advanced_zero history limit rfl rfl, fun l hl => absurd hl List.not_mem_nil,
      fun c hc => absurd hc List.not_mem_nil⟩
  | @more t u back j k given a before offered attempt ih =>
    obtain ⟨n, hadvanced, hback, hcalls⟩ := ih
    have hgiven := hadvanced.isRest hlimit hheld haddresses hback offered
    obtain ⟨m, hnm, hadvanced', hcalls', -⟩ := hadvanced.attempt hlimit hseparated hgiven attempt
    refine ⟨m, hadvanced', fun l hl => ?_, fun c hc => ?_⟩
    · rcases List.mem_append.mp hl with hl | hl
      · exact (hback l hl).mono hnm
      · rw [eq_of_mem_handedBack attempt l hl]
        exact hgiven.mono hnm
    · rw [Journal.calls_append] at hc
      rcases List.mem_append.mp hc with hc | hc
      · exact hcalls c hc
      · exact hcalls' c hc

end Attempt

/-! ## The attempt that meets no fault -/

section Last

variable {history given : List Revision} {limit : Int} {s : Memory φ} {t : Memory Unit} {n : Nat}

/-- Where no call fails, an attempt under a limit runs to its end. -/
theorem prune_ok_of_unit (hlimit : 1 ≤ limit) :
    ∃ u k, prune given limit t = ⟨.ok (.ok (kept given limit)), u, k⟩ := by
  rcases hrun : prune given limit t with ⟨a, u, k⟩
  obtain ⟨m, -, hends⟩ := prune_cases hrun
  cases hends with
  | forbidden hlimit' => omega
  | finished _ _ => exact ⟨u, k, rfl⟩
  | interrupted cause _ _ hfault => exact absurd hfault (not_canFail_unit _)
  | failed e _ _ hfault _ => exact absurd hfault (not_canFail_unit _)

/-- Wherever attempts have brought a store, one that meets no fault leaves it without all expired
revisions of the history. -/
theorem Advanced.complete (h : Advanced history limit s n t) (hlimit : 1 ≤ limit)
    (hseparated : Separated history) (hgiven : IsRest history n given) :
    ∃ u k, prune given limit t = ⟨.ok (.ok (kept given limit)), u, k⟩ ∧
      Advanced history limit s (expired history limit).length u ∧
      DeletesExpired history limit k := by
  obtain ⟨u, k, hrun⟩ : ∃ u k, prune given limit t = ⟨.ok (.ok (kept given limit)), u, k⟩ :=
    prune_ok_of_unit hlimit
  obtain ⟨m, -, hadvanced, hcalls, hall⟩ := h.attempt hlimit hseparated hgiven hrun
  rw [hall _ rfl] at hadvanced
  exact ⟨u, k, hrun, hadvanced, hcalls⟩

/-- Two stores without all expired revisions are the same, apart from their faults. -/
theorem Advanced.withoutFaults_eq {χ : Type} {u : Memory ψ} {v : Memory χ}
    (hu : Advanced history limit s n u) (hv : Advanced history limit s n v) :
    v.withoutFaults = u.withoutFaults :=
  withoutFaults_congr (revisions_eq_of_items (hv.items.trans hu.items.symm))
    (hv.clock.trans hu.clock.symm)

end Last

section Converge

variable [FaultSource φ] {history given : List Revision} {limit : Int} {s t : Memory φ}
  {back : List (List Revision)} {j : Journal}

/-- **Retention may be tried again.**  After any number of attempts at the retention of a history of
revisions with different names, each of which may have failed at any call and was given what was
left of the history or what an earlier one handed back, an attempt that meets no fault runs to its
end and leaves the store as a single retention of the whole history would have left it.  Of the
history the store then holds the newest revisions, as many as the limit allows, and none of the
attempts has asked for the deletion of one of these. -/
theorem attempts_converge (hlimit : 1 ≤ limit) (hheld : history ⊆ s.revisions.items)
    (hnames : (history.map Revision.name).Nodup) (h : Attempts history limit s t back j)
    (hoffered : Offered history t back given) :
    ∃ answer u k newest, prune given limit t.withoutFaults = ⟨.ok (.ok answer), u, k⟩ ∧
      (∃ j₁, prune history limit s.withoutFaults = ⟨.ok (.ok newest), u, j₁⟩) ∧
      History.AreNewest history limit newest ∧
      (∀ r ∈ history, r ∈ u.revisions.items ↔ r ∈ newest) ∧
      ∀ r ∈ newest, r.deletion ∉ (j ++ k).calls := by
  have haddresses := Store.nodup_addresses hnames
  have hseparated := History.separated_of_names hnames
  -- the store after all attempts
  obtain ⟨n, hadvanced, hback, hcalls⟩ := h.advanced hlimit hheld haddresses hseparated
  have hgiven := hadvanced.isRest hlimit hheld haddresses hback hoffered
  have hadvanced' : Advanced history limit s n t.withoutFaults :=
    ⟨hadvanced.le, hadvanced.items, hadvanced.clock⟩
  obtain ⟨u, k, hrun, hend, hcalls'⟩ := hadvanced'.complete hlimit hseparated hgiven
  -- the store after a single retention
  have hwhole : IsRest history 0 history := ⟨0, Nat.le_refl 0, (History.sorted_perm history).symm⟩
  have hstart : Advanced history limit s 0 s.withoutFaults := advanced_zero history limit rfl rfl
  obtain ⟨u₁, j₁, hrun₁, hend₁, -⟩ := hstart.complete hlimit hseparated hwhole
  have hsame : u₁ = u := hend.withoutFaults_eq hend₁
  have hitems := hend.items
  rw [List.take_length] at hitems
  refine ⟨_, u, k, kept history limit, hrun, ⟨j₁, hsame ▸ hrun₁⟩,
    History.areNewest_kept hlimit hnames, fun r hr => ?_, fun r hr hcall => ?_⟩
  · rw [hitems, ← History.mem_remaining_expired_iff hlimit haddresses, Store.mem_remaining_iff,
      Store.mem_remaining_iff, and_iff_right hr, and_iff_right (hheld hr)]
  · rw [Journal.calls_append] at hcall
    obtain ⟨d, hd, hdeletion⟩ := (List.mem_append.mp hcall).elim (hcalls _) (hcalls' _)
    rw [← History.mem_remaining_expired_iff hlimit haddresses, Store.mem_remaining_iff] at hr
    rw [Revision.address_eq_of_deletion_eq hdeletion] at hr
    exact hr.2 (List.mem_map_of_mem hd)

def tiedHistory : List Revision :=
  [("b", 1), ("c", 2), ("a", 1)].map fun p =>
    ⟨{ Metadata.empty with name := p.1, ns := "ns" }, p.2, .none⟩

def interruptedStore : Memory (List FaultRule) :=
  tiedHistory.foldl seed
    (empty .earliest [⟨.delete, some "b", some 1, .failed "delete" "try again"⟩])

/-- The first attempt is interrupted after one deletion, and the second one, given the list that the
first one handed back, deletes this revision once more. -/
theorem attempts_converge_stale :
    ∃ t j, Attempts tiedHistory 1 interruptedStore t [tiedHistory] j ∧
      ∃ answer u k newest, prune tiedHistory 1 t.withoutFaults = ⟨.ok (.ok answer), u, k⟩ ∧
        (∃ j₁, prune tiedHistory 1 interruptedStore.withoutFaults = ⟨.ok (.ok newest), u, j₁⟩) ∧
        History.AreNewest tiedHistory 1 newest := by
  rcases hrun : prune tiedHistory 1 interruptedStore with ⟨a, t, j⟩
  have hinterrupted : (handedBack (prune tiedHistory 1 interruptedStore).answer).length = 1 := by
    decide +kernel
  rw [hrun] at hinterrupted
  obtain ⟨l, hl⟩ := List.length_eq_one_iff.mp hinterrupted
  have hback : handedBack a = [tiedHistory] := by
    rw [hl, eq_of_mem_handedBack hrun l (hl ▸ List.mem_singleton_self l)]
  have hitems : interruptedStore.revisions.items = tiedHistory := rfl
  have hfirst : Offered tiedHistory interruptedStore [] tiedHistory := by
    refine .fresh ?_ fun r => ?_
    · exact List.Nodup.of_map Revision.name (by decide)
    · rw [hitems, and_self]
  have hattempts : Attempts tiedHistory 1 interruptedStore t ([] ++ handedBack a) ([] ++ j) :=
    .more .none hfirst hrun
  rw [hback] at hattempts
  obtain ⟨answer, u, k, newest, hlast, hsingle, hnewest, -⟩ :=
    attempts_converge (by decide) (hitems ▸ List.Subset.refl _) (by decide) hattempts
      (.stale List.mem_cons_self)
  exact ⟨t, j, hattempts, answer, u, k, newest, hlast, hsingle, hnewest⟩

end Converge

end Memory

end RolloutLedger
