import RolloutLedger.Lifecycle
/-! # Which connections are closed

A program may be started and stopped in any order and as often as one likes, and any start may
fail.  It has one place for a connection: stopping it closes the connection there and empties the
place, but a start that succeeds puts its connection there without looking whether the place is
taken.  After a last stop every connection was closed exactly once, apart from those that a later
one replaced; those were never closed.
-/

namespace RolloutLedger.App

/-! ## Runs -/

inductive Request where
  | start (w : Surroundings)
  | stop

def turn (a : App) : Request → Turn
  | .start w => a.start w
  | .stop => a.stop

/-- The program after it was asked for some things, one after the other. -/
def run (a : App) (rs : List Request) : App := rs.foldl (fun a r => (a.turn r).app) a

/-- Whether doing what is asked makes a connection: it is a start, and it succeeds. -/
def connects (a : App) : Request → Bool
  | .start w => (a.start w).answer.isOk
  | .stop => false

/-- How many connections a run makes. -/
def made (a : App) : List Request → Nat
  | [] => 0
  | r :: rest => (a.connects r).toNat + made (a.turn r).app rest

def inPlace (a : App) : List Nat := (a.connection.map Connection.index).toList

/-- The connections that others replace in a run: those in place when a start succeeds. -/
def replaced (a : App) : List Request → List Nat
  | [] => []
  | r :: rest => (if a.connects r then a.inPlace else []) ++ replaced (a.turn r).app rest

/-- How often each of the first `n` connections was closed, if those that were replaced were never
closed and all others once. -/
def closedExcept (replaced : List Nat) (n : Nat) : List Nat :=
  (List.range n).map fun i => if i ∈ replaced then 0 else 1

section Closed

variable {old : List Nat} {n : Nat}

theorem length_closedExcept (old : List Nat) (n : Nat) : (closedExcept old n).length = n := by
  rw [closedExcept, List.length_map, List.length_range]

theorem closedExcept_succ (old : List Nat) (n : Nat) :
    closedExcept old (n + 1) = closedExcept old n ++ [if n ∈ old then 0 else 1] := by
  rw [closedExcept, List.range_succ, List.map_append]
  rfl

/-- Only what is replaced among the first connections matters. -/
theorem closedExcept_append_self : closedExcept (old ++ [n]) n = closedExcept old n := by
  refine List.map_congr_left fun i hi => ?_
  have hne : i ≠ n := Nat.ne_of_lt (List.mem_range.mp hi)
  simp [hne]

/-- All are closed once just if none of them was replaced. -/
theorem closedExcept_all_one_iff (h : ∀ i ∈ old, i < n) :
    (∀ k ∈ closedExcept old n, k = 1) ↔ old = [] := by
  constructor
  · intro hall
    refine List.eq_nil_iff_forall_not_mem.mpr fun i hi => ?_
    have hone := hall _ (List.mem_map_of_mem (List.mem_range.mpr (h i hi)))
    rw [if_pos hi] at hone
    exact absurd hone Nat.zero_ne_one
  · rintro rfl k hk
    obtain ⟨i, -, rfl⟩ := List.mem_map.mp hk
    exact if_neg List.not_mem_nil

end Closed

/-! ## One request -/

/-- What a start comes to for the connections: it fails and leaves them alone, or there is a new
one. -/
theorem start_cases (a : App) (w : Surroundings) :
    ((a.start w).answer.isOk = false ∧ (a.start w).app.connection = a.connection ∧
        (a.start w).app.closes = a.closes) ∨
      ∃ c, (a.start w).answer.isOk = true ∧ (a.start w).app = a.connected c := by
  unfold start
  cases a.configurationFor w with
  | error e => exact Or.inl ⟨rfl, rfl, rfl⟩
  | ok c =>
    dsimp only
    unfold startWith
    cases Level.thresholdOf c.logLevel with
    | error e => exact Or.inl ⟨rfl, rfl, rfl⟩
    | ok level =>
      dsimp only
      cases (obtain c w).outcome with
      | error cause => exact Or.inl ⟨rfl, rfl, rfl⟩
      | ok record => exact Or.inr ⟨c, rfl, rfl⟩

/-- How a program stands whose runs have made `n` connections, of which some were replaced: all
others were closed once, apart from the one in place, which is the last. -/
inductive Stands (old : List Nat) (a : App) : Nat → Prop
  | vacant {n : Nat} (before : ∀ i ∈ old, i < n) (connection : a.connection = none)
    (closes : a.closes = closedExcept old n) : Stands old a n
  | occupied {n : Nat} {deadline : Value} (before : ∀ i ∈ old, i < n)
    (connection : a.connection = some ⟨n, deadline⟩)
    (closes : a.closes = closedExcept old n ++ [0]) : Stands old a (n + 1)

section Stands

variable {old : List Nat} {a : App} {n : Nat}

theorem stands_idle (configuration : Option Configuration) : Stands [] (idle configuration) 0 :=
  .vacant (fun _ hi => absurd hi List.not_mem_nil) rfl rfl

theorem Stands.lt (h : Stands old a n) : ∀ i ∈ old, i < n := by
  cases h with
  | vacant before connection closes => exact before
  | occupied before connection closes => exact fun i hi => Nat.lt_succ_of_lt (before i hi)

theorem Stands.length_closes (h : Stands old a n) : a.closes.length = n := by
  cases h with
  | vacant before connection closes => rw [closes, length_closedExcept]
  | occupied before connection closes =>
    rw [closes, List.length_append, length_closedExcept]
    rfl

theorem Stands.congr {b : App} (h : Stands old a n) (hconnection : b.connection = a.connection)
    (hcloses : b.closes = a.closes) : Stands old b n := by
  cases h with
  | vacant before connection closes =>
    exact .vacant before (hconnection.trans connection) (hcloses.trans closes)
  | occupied before connection closes =>
    exact .occupied before (hconnection.trans connection) (hcloses.trans closes)

theorem Stands.connect (h : Stands old a n) (c : Configuration) :
    Stands (old ++ a.inPlace) (a.connected c) (n + 1) := by
  have hconnection : (a.connected c).connection = some ⟨n, c.storeTimeout⟩ := by
    rw [connected, h.length_closes]
  cases h with
  | vacant before connection closes =>
    have hplace : a.inPlace = [] := by rw [inPlace, connection]; rfl
    rw [hplace, List.append_nil]
    refine .occupied before hconnection ?_
    rw [connected, closes]
  | @occupied n deadline before connection closes =>
    have hplace : a.inPlace = [n] := by rw [inPlace, connection]; rfl
    rw [hplace]
    refine .occupied (fun i hi => ?_) hconnection ?_
    · rcases List.mem_append.mp hi with hi | hi
      · exact Nat.lt_succ_of_lt (before i hi)
      · rw [List.mem_singleton.mp hi]
        exact Nat.lt_succ_self n
    · have hn : n ∈ old ++ [n] := List.mem_append_right _ List.mem_cons_self
      rw [connected, closes, closedExcept_succ, closedExcept_append_self, if_pos hn]

theorem Stands.stop (h : Stands old a n) :
    Stands old a.stop.app n ∧ a.stop.app.closes = closedExcept old n := by
  cases h with
  | vacant before connection closes =>
    have hstop : a.stop.app = a := by rw [App.stop, connection]
    rw [hstop]
    exact ⟨.vacant before connection closes, closes⟩
  | @occupied n deadline before connection closes =>
    have hnew : n ∉ old := fun hn => Nat.lt_irrefl n (before n hn)
    have hcloses : a.stop.app.closes = closedExcept old (n + 1) := by
      rw [App.stop, connection, closedExcept_succ, if_neg hnew]
      show a.closes.modify n (· + 1) = closedExcept old n ++ [1]
      have hlength := length_closedExcept old n
      rw [closes, List.modify_eq_take_drop, List.take_left' hlength, List.drop_left' hlength]
      rfl
    refine ⟨.vacant (fun i hi => Nat.lt_succ_of_lt (before i hi)) ?_ hcloses, hcloses⟩
    rw [App.stop, connection]

/-- **What one request does.** -/
theorem Stands.turn (h : Stands old a n) (r : Request) :
    Stands (old ++ if a.connects r then a.inPlace else []) (a.turn r).app
      (n + (a.connects r).toNat) := by
  cases r with
  | start w =>
    show Stands (old ++ if (a.start w).answer.isOk then a.inPlace else []) (a.start w).app
      (n + (a.start w).answer.isOk.toNat)
    obtain ⟨hanswer, hconnection, hcloses⟩ | ⟨c, hanswer, happ⟩ := start_cases a w
    · rw [hanswer, if_neg Bool.false_ne_true, List.append_nil]
      exact h.congr hconnection hcloses
    · rw [hanswer, if_pos rfl, happ]
      exact h.connect c
  | stop =>
    rw [connects, if_neg Bool.false_ne_true, List.append_nil]
    exact h.stop.1

theorem Stands.run (h : Stands old a n) (rs : List Request) :
    Stands (old ++ a.replaced rs) (a.run rs) (n + a.made rs) := by
  induction rs generalizing old a n with
  | nil =>
    rw [replaced, List.append_nil]
    exact h
  | cons r rest ih =>
    have hrest := ih (h.turn r)
    rw [List.append_assoc, Nat.add_assoc] at hrest
    exact hrest

end Stands

/-! ## Whole runs -/

theorem run_snoc (a : App) (rs : List Request) (r : Request) :
    a.run (rs ++ [r]) = ((a.run rs).turn r).app := by
  rw [run, List.foldl_append]
  rfl

theorem stands_run (configuration : Option Configuration) (rs : List Request) :
    Stands ((idle configuration).replaced rs) ((idle configuration).run rs)
      ((idle configuration).made rs) := by
  have h := (stands_idle configuration).run rs
  rwa [List.nil_append, Nat.zero_add] at h

/-- **Which connections are closed.**  Whatever a program was asked for before it is stopped at
last, each connection it has made was closed exactly once, apart from those that were replaced
while they were in place; those were never closed. -/
theorem closes_run_stop (configuration : Option Configuration) (rs : List Request) :
    ((idle configuration).run (rs ++ [.stop])).closes =
      closedExcept ((idle configuration).replaced rs) ((idle configuration).made rs) := by
  rw [run_snoc]
  exact (stands_run configuration rs).stop.2

def welcoming : Surroundings := ⟨[], .granted, .missing⟩

/-- Of two connections made one after the other, the first is never closed. -/
theorem first_of_two_never_closed :
    ((idle (some Settings.standard.configuration)).run
      [.start welcoming, .start welcoming, .stop]).closes = [0, 1] := by
  decide +kernel

/-- A run after which every connection is closed exactly once is one that replaced none. -/
theorem closed_once_iff (configuration : Option Configuration) (rs : List Request) :
    (∀ k ∈ ((idle configuration).run (rs ++ [.stop])).closes, k = 1) ↔
      (idle configuration).replaced rs = [] := by
  have h := stands_run configuration rs
  rw [run_snoc]
  show (∀ k ∈ ((idle configuration).run rs).stop.app.closes, k = 1) ↔ _
  rw [h.stop.2]
  exact closedExcept_all_one_iff h.lt

end RolloutLedger.App
