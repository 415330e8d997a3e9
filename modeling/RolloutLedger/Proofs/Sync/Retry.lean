import RolloutLedger.Proofs.Sync.InMemory
import RolloutLedger.Proofs.Sync.Numbering
/-! # Trying again

A sync that failed, or whose retention was interrupted, may be tried again as often as it takes.
Whatever the attempts came to, the first one that meets no fault leaves the store as it would have
left it if it had been the only one, and at most one revision is created on the way.

The invariant of the attempts says that the store is either untouched, or a single sync would
settle on a current revision here and the store is on the way to what that sync leaves: its
revision was added, and the first `n` of the expired revisions are gone.  An attempt at the later
stage settles on the same revision again, creates nothing, and finds just the other expired
revisions expired.
-/

namespace RolloutLedger

open Store (remaining)
open History (expired highest?)

/-! ## One more attempt -/

namespace Memory

section Attempt

variable {φ ψ : Type} {m : Manager} {g : Group} {s : Memory φ} {t t' : Memory ψ}
  {added : List Revision} {current : Revision} {created : Bool} {n : Nat}

/-- What a sync settles on records what the group declares, under whatever number that is built. -/
theorem Settles.sameContent (h : Settles m g s added current created) {k : Int}
    {candidate : Revision} (hbuilt : Revision.build m.hashOptions g k = .ok candidate) :
    current.sameContent candidate = true := by
  obtain ⟨raw, hraw, hdata⟩ := Revision.data_of_build hbuilt
  have hsame : ∀ {l candidate'}, Revision.build m.hashOptions g l = .ok candidate' →
      candidate'.data = candidate.data := by
    intro l candidate' hbuilt'
    obtain ⟨raw', hraw', hdata'⟩ := Revision.data_of_build hbuilt'
    rw [hdata, hdata', Except.ok.inj (hraw'.symm.trans hraw)]
  unfold Revision.sameContent
  cases h with
  | reused built highest same =>
    rw [Revision.sameContent, hsame built] at same
    exact same
  | @created candidate' built changed free =>
    have hcopy : (stamped s.now candidate').data = candidate'.data := rfl
    rw [hcopy, hsame built, hdata]
    exact (Bool.and_true _).trans (beq_self_eq_true _)

/-- On the way, a sync settles on the same revision and has nothing to add. -/
theorem Reached.settles_eq {added' : List Revision} {current' : Revision} {created' : Bool}
    (h : Reached m g s added n t) (hsettles : Settles m g s added current created)
    (hlimit : 1 ≤ m.limitFor g) (hnumbers : ((s.own g).map Revision.number).Nodup)
    (hsettles' : Settles m g t added' current' created') : added' = [] ∧ current' = current := by
  have hhighest : highest? (t.own g) = some current := by
    rw [h.own_eq hsettles]
    exact History.highest?_remaining_take hsettles.distinct_own (hsettles.nodup_numbers hnumbers)
      hlimit h.le hsettles.highest?_eq
  cases hsettles' with
  | reused built highest same => exact ⟨rfl, Option.some.inj (highest.symm.trans hhighest)⟩
  | created built changed free =>
    have hsame := hsettles.sameContent built
    rw [changed _ hhighest] at hsame
    exact Bool.noConfusion hsame

theorem Reached.trans {k : Nat} (h : Reached m g s added n t)
    (hsettles : Settles m g s added current created) (hlimit : 1 ≤ m.limitFor g)
    (hnumbers : ((s.own g).map Revision.number).Nodup) (h' : Reached m g t [] k t') :
    (expired (t.own g ++ []) (m.limitFor g)).length =
        (expired (s.own g ++ added) (m.limitFor g)).length - n ∧
      Reached m g s added (n + k) t' := by
  have hexpired : expired (t.own g ++ []) (m.limitFor g) =
      (expired (s.own g ++ added) (m.limitFor g)).drop n := by
    rw [List.append_nil, h.own_eq hsettles]
    refine History.expired_eq_drop (History.separated_of_numbers ?_) hlimit h.le ?_
    · exact hsettles.nodup_numbers hnumbers
    · rw [History.take_expired hlimit h.le]
      exact History.remaining_take_perm hsettles.distinct_own n
  have hlength := congrArg List.length hexpired
  rw [List.length_drop] at hlength
  refine ⟨hlength, ?_, ?_, h'.clock.trans h.clock⟩
  · have hk := h'.le
    have hn := h.le
    omega
  · rw [h'.items, hexpired, List.append_nil, h.items, Store.remaining_remaining, List.take_add]

/-- How far attempts have brought a store, and how many revisions they have created. -/
inductive Underway (m : Manager) (g : Group) (s : Memory φ) (t : Memory ψ) : Nat → Prop
  | untouched (revisions : t.revisions = s.revisions) (clock : t.clock = s.clock) :
    Underway m g s t 0
  | reached {added : List Revision} {current : Revision} {created : Bool} {n : Nat}
    (settles : Settles m g s added current created) (reached : Reached m g s added n t) :
    Underway m g s t added.length

theorem Underway.withoutFaults {c : Nat} (h : Underway m g s t c) :
    Underway m g s t.withoutFaults c := by
  cases h with
  | untouched revisions clock => exact .untouched revisions clock
  | reached settles reached => exact .reached settles ⟨reached.le, reached.items, reached.clock⟩

/-- What a sync of an untouched store reaches, it reaches from where the attempts began. -/
theorem Reached.of_untouched {χ : Type} {u : Memory χ} (hrevisions : t.revisions = s.revisions)
    (hclock : t.clock = s.clock) (h : Reached m g t added n u) : Reached m g s added n u := by
  have hown : t.own g = s.own g := by rw [own, hrevisions, own]
  have hnow : t.now = s.now := by rw [now, hclock, now]
  obtain ⟨hle, hitems, hclock'⟩ := h
  rw [hown] at hle hitems
  rw [hrevisions] at hitems
  rw [hclock, hnow] at hclock'
  exact ⟨hle, hitems, hclock'⟩

/-- The attempts never show more than one revision that was not there before. -/
theorem Underway.subset {c : Nat} (h : Underway m g s t c)
    (hsettles : Settles m g s added current created) :
    t.revisions.items ⊆ s.revisions.items ++ added := by
  intro r hr
  cases h with
  | untouched revisions clock =>
    rw [revisions] at hr
    exact List.mem_append_left _ hr
  | reached settles reached =>
    obtain ⟨rfl, -⟩ := hsettles.unique settles
    rw [reached.items] at hr
    exact (Store.mem_remaining_iff.mp hr).1

variable [FaultSource ψ]

/-- **What one attempt keeps.** -/
theorem Underway.sync {c : Nat} {a : Except Error SyncResult} {j : Journal}
    (h : Underway m g s t c) (hlimit : 1 ≤ m.limitFor g)
    (hnumbers : ((s.own g).map Revision.number).Nodup) (hsync : m.sync g t = ⟨a, t', j⟩) :
    Underway m g s t' (c + j.count .created) := by
  cases ran_of_sync hsync with
  | stopped reason revisions clock notes =>
    rw [notes.created, Nat.add_zero]
    cases h with
    | untouched revisions' clock' =>
      exact .untouched (revisions.trans revisions') (clock.trans clock')
    | reached settles reached =>
      refine .reached settles ⟨reached.le, ?_, clock.trans reached.clock⟩
      rw [revisions, reached.items]
  | @settled added' current' created' k b _ settles' reached' ends notes =>
    rw [notes.created]
    cases h with
    | untouched revisions clock =>
      rw [Nat.zero_add]
      exact .reached (settles'.congr revisions.symm clock.symm)
        (reached'.of_untouched revisions clock)
    | reached settles reached =>
      obtain ⟨rfl, -⟩ := reached.settles_eq settles hlimit hnumbers settles'
      exact .reached settles (reached.trans settles hlimit hnumbers reached').2

end Attempt

/-! ## Without faults -/

section WithoutFaults

variable {φ : Type} {m : Manager} {g : Group} {s : Memory φ} {t u : Memory Unit}
  {added : List Revision} {current : Revision} {created : Bool} {j : Journal}

/-- Where no call fails, a sync that answers has deleted all that was expired. -/
theorem reached_end_of_ok {res : SyncResult} (h : m.sync g t = ⟨.ok res, u, j⟩) :
    ∃ added, Settles m g t added res.current res.created ∧
      Reached m g t added (expired (t.own g ++ added) (m.limitFor g)).length u ∧
      j.count .created = added.length := by
  obtain ⟨added, n, b, settles, reached, ends, -, notes⟩ := settled_of_ok h
  cases ends with
  | finished hlimit hall => exact ⟨added, settles, hall ▸ reached, notes.created⟩
  | interrupted cause hlimit hsome hfault => exact absurd hfault (not_canFail_unit _)

/-- Where no call fails, a sync that has something to settle on answers. -/
theorem Settles.sync_ok (h : Settles m g t added current created) (hlimit : 1 ≤ m.limitFor g) :
    ∃ res u j, m.sync g t = ⟨.ok res, u, j⟩ ∧ res.current = current ∧
      Reached m g t added (expired (t.own g ++ added) (m.limitFor g)).length u := by
  rcases hsync : m.sync g t with ⟨a, u, j⟩
  cases ran_of_sync hsync with
  | stopped reason _ _ _ => exact absurd (h.canFail_of_stops reason) (not_canFail_unit _)
  | settled settles reached ends notes =>
    obtain ⟨rfl, rfl, rfl⟩ := h.unique settles
    cases ends with
    | forbidden hlimit' => omega
    | finished _ hall => exact ⟨_, u, j, rfl, rfl, hall ▸ reached⟩
    | interrupted cause _ _ hfault => exact absurd hfault (not_canFail_unit _)
    | failed e _ _ hfault _ => exact absurd hfault (not_canFail_unit _)

/-- Wherever attempts have brought a store, one that meets no fault and answers completes the sync
that they began. -/
theorem Underway.complete {c : Nat} {res : SyncResult} (h : Underway m g s t c)
    (hlimit : 1 ≤ m.limitFor g) (hnumbers : ((s.own g).map Revision.number).Nodup)
    (hsync : m.sync g t = ⟨.ok res, u, j⟩) :
    ∃ added created, Settles m g s added res.current created ∧
      Reached m g s added (expired (s.own g ++ added) (m.limitFor g)).length u ∧
      c + j.count .created = added.length := by
  obtain ⟨added', settles', reached', hcreated⟩ := reached_end_of_ok hsync
  rw [hcreated]
  cases h with
  | untouched revisions clock =>
    have hown : t.own g = s.own g := by rw [own, revisions, own]
    rw [hown] at reached'
    exact ⟨added', res.created, settles'.congr revisions.symm clock.symm,
      reached'.of_untouched revisions clock, Nat.zero_add _⟩
  | @reached added current created n settles reached =>
    obtain ⟨rfl, hcurrent⟩ := reached.settles_eq settles hlimit hnumbers settles'
    obtain ⟨hlength, hreached⟩ := reached.trans settles hlimit hnumbers reached'
    have hle := reached.le
    rw [hlength, Nat.add_sub_cancel' hle] at hreached
    rw [hcurrent]
    exact ⟨added, created, settles, hreached, Nat.add_zero _⟩

end WithoutFaults

/-! ## All attempts -/

end Memory

/-- What is left behind by managers that bring histories in step, one after the other. -/
def Sync.journal {σ : Type} [RevisionStore σ] (s : σ) : List (Manager × Group) → Journal
  | [] => []
  | p :: rest => (p.1.sync p.2 s).journal ++ journal (p.1.sync p.2 s).state rest

namespace Memory

variable {φ : Type} [FaultSource φ] {m : Manager} {g : Group} {s : Memory φ}

theorem Underway.run {t : Memory φ} {c : Nat} (h : Underway m g s t c)
    (hlimit : 1 ≤ m.limitFor g) (hnumbers : ((s.own g).map Revision.number).Nodup) (n : Nat) :
    Underway m g s (Sync.run t (List.replicate n (m, g)))
      (c + (Sync.journal t (List.replicate n (m, g))).count .created) := by
  induction n generalizing t c with
  | zero => exact h
  | succ n ih =>
    rcases hsync : m.sync g t with ⟨a, t', j⟩
    have hnext := ih (h.sync hlimit hnumbers hsync)
    rw [List.replicate_succ, Sync.run, Sync.journal, List.foldl_cons, Journal.count_append, hsync,
      ← Nat.add_assoc]
    exact hnext

/-- **Syncs may be tried again.**  After any number of syncs of an unchanged group, each of which
may have failed at any call, one that meets no fault and answers leaves the store in the state in
which it would have left it before all of them, with the same current revision; and all of them
together have created at most one revision. -/
theorem retries_converge {n : Nat} {res : SyncResult} {u : Memory Unit} {j : Journal}
    (hlimit : 1 ≤ m.historyLimit) (hnumbers : ((s.own g).map Revision.number).Nodup)
    (h : m.sync g (Sync.run s (List.replicate n (m, g))).withoutFaults = ⟨.ok res, u, j⟩) :
    (∃ res₁ j₁, m.sync g s.withoutFaults = ⟨.ok res₁, u, j₁⟩ ∧ res₁.current = res.current) ∧
      (Sync.journal s (List.replicate n (m, g)) ++ j).count .created ≤ 1 ∧
      ∃ added : List Revision, added.length ≤ 1 ∧
        (∀ k ≤ n, (Sync.run s (List.replicate k (m, g))).revisions.items ⊆
          s.revisions.items ++ added) ∧
        u.revisions.items ⊆ s.revisions.items ++ added := by
  have hlimit := Manager.one_le_limitFor hlimit g
  have hruns : ∀ k, ∃ c, Underway m g s (Sync.run s (List.replicate k (m, g))) c ∧
      c = (Sync.journal s (List.replicate k (m, g))).count .created := fun k =>
    ⟨_, (Underway.untouched rfl rfl).run hlimit hnumbers k, Nat.zero_add _⟩
  obtain ⟨c, hunderway, hc⟩ := hruns n
  obtain ⟨added, created, hsettles, hreached, hcreated⟩ :=
    hunderway.withoutFaults.complete hlimit hnumbers h
  have hadded := hsettles.length_le
  have hsettles' : Settles m g s.withoutFaults added res.current created := hsettles.congr rfl rfl
  obtain ⟨res₁, u₁, j₁, h₁, hcurrent, hreached₁⟩ := hsettles'.sync_ok hlimit
  have hreached₁ : Reached m g s added (expired (s.own g ++ added) (m.limitFor g)).length u₁ :=
    Reached.of_untouched (t := s.withoutFaults) rfl rfl hreached₁
  have hsame : u₁ = u := hreached.withoutFaults_eq hreached₁
  refine ⟨⟨res₁, j₁, hsame ▸ h₁, hcurrent⟩, ?_, added, hadded, fun k _ => ?_, ?_⟩
  · rw [Journal.count_append, ← hc, hcreated]
    exact hadded
  · obtain ⟨c', hunderway', -⟩ := hruns k
    exact hunderway'.subset hsettles
  · exact (Underway.reached hsettles hreached).subset hsettles

def troubledStore : Memory (List FaultRule) :=
  ((empty .earliest [⟨.create, none, some 1, .failed "create" "try again"⟩,
      ⟨.delete, none, some 1, .failed "delete" "try again"⟩]).seed
    { firstRevision "z" "\x7b\x7d" with number := 2 }).seed (firstRevision "a" "\x7b\x7d")

/-- The first attempt fails, the second one is interrupted, and the third completes the sync. -/
theorem retries_converge_thrice :
    ((troubledStore.own bareGroup).map Revision.number).Nodup ∧
      ∃ res u j, keepingOne.sync bareGroup
          (Sync.run troubledStore (List.replicate 2 (keepingOne, bareGroup))).withoutFaults =
            ⟨.ok res, u, j⟩ ∧
        ∃ res₁ j₁, keepingOne.sync bareGroup troubledStore.withoutFaults = ⟨.ok res₁, u, j₁⟩ ∧
          res₁.current = res.current := by
  have hnumbers : ((troubledStore.own bareGroup).map Revision.number).Nodup := by decide +kernel
  obtain ⟨res, u, j, h⟩ := Step.exists_of_isOk (x := keepingOne.sync bareGroup)
    (s := (Sync.run troubledStore (List.replicate 2 (keepingOne, bareGroup))).withoutFaults)
    (by decide +kernel)
  exact ⟨hnumbers, res, u, j, h, (retries_converge (by decide) hnumbers h).1⟩

end Memory

end RolloutLedger
