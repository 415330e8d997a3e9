import RolloutLedger.Sorting
import RolloutLedger.Value.Basic
/-! # The order of members

Members are sorted by their keys: texts by code points, numbers by value, byte strings byte by
byte, clock readings by time.  Keys of different ranks have no order, and null has none with
anything, so an object that mixes them cannot be sorted.  What is not a number has no place among
numbers, and they are arranged around it.
-/

namespace RolloutLedger

def textLe (a b : String) : Bool := decide (a ≤ b)

namespace Key

/-- Keys that have an order among themselves. -/
inductive Rank where
  | text
  | number
  | bytes
  | localTime
  | universalTime
  deriving DecidableEq

/-- The keys among which a key has its place, if there are any. -/
def rank? : Key → Option Rank
  | text _ => some .text
  | bool _ | int _ | float _ => some .number
  | bytes _ => some .bytes
  | instant _ offset => some (if offset.isSome then .universalTime else .localTime)
  | null | options _ | sealed => none

def bytesLe : Bytes → Bytes → Bool
  | [], _ => true
  | _ :: _, [] => false
  | a :: as, b :: bs => a < b || (a == b && bytesLe as bs)

/-- Whether a key may stand before another of its rank; what is not a number may stand before
and after every number. -/
def le : Key → Key → Bool
  | text a, text b => textLe a b
  | bytes a, bytes b => bytesLe a b
  | instant a x, instant b y => Time.timeLine a x ≤ Time.timeLine b y
  | a, b => match a.scalar?, b.scalar? with
    | some x, some y => !y.lt x
    | _, _ => false

/-- Whether a key counts among numbers and is none. -/
def isUnplaced (k : Key) : Bool := k == .float .nan

def areComparable (ks : List Key) : Bool :=
  ks.length ≤ 1 || ks.all (fun k => k.rank?.isSome && k.rank? == (ks.head?.bind rank?))

end Key

def sortMembers? {α : Type} (members : List (Key × α)) : Option (List (Key × α)) :=
  if !Key.areComparable (members.map (·.1)) then none
  else if members.any (·.1.isUnplaced) then some (arrangeBy (fun p q => p.1.le q.1) members)
  else some (sortBy (fun p q => p.1.le q.1) members)

end RolloutLedger
