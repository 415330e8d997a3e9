import RolloutLedger.Patch.Snapshot
/-! # Digests

Content is digested as the bytes of its canonical form, by 32-bit FNV-1a.
-/

namespace RolloutLedger.Digest

/-! ## 32-bit FNV-1a digests

A digest takes bytes one at a time: it is combined with the byte by exclusive or and multiplied
by a prime, modulo 2³².  Digests are shown in a safe alphabet without vowels and confusable
characters, so that they may stand in names and labels.
-/

def initial : UInt32 := 0x811c9dc5

def prime : UInt32 := 0x01000193

def step (digest : UInt32) (b : UInt8) : UInt32 := (digest ^^^ b.toUInt32) * prime

def update (digest : UInt32) (chunk : Bytes) : UInt32 := chunk.foldl step digest

def ofBytes (bs : Bytes) : UInt32 := update initial bs

theorem update_append (digest : UInt32) (a b : Bytes) :
    update digest (a ++ b) = update (update digest a) b := by
  simp [update]

def safeAlphabet : List Char := "bcdfghjklmnpqrstvwxz2456789".toList

def safeChar (c : Char) : Char := safeAlphabet.getD (c.toNat % 27) 'b'

def safeText (s : String) : String := String.ofList (s.toList.map safeChar)

/-- How a digest is shown: its decimal numeral in the safe alphabet. -/
def shown (digest : UInt32) : String :=
  safeText (String.ofList (Decimal.digits digest.toNat))

end RolloutLedger.Digest

namespace RolloutLedger

/-! ## Digests of content

Structured content is brought into a canonical form before it is digested: equal content under
equal options always has the same digest.
-/

def HashOptions.layout (o : HashOptions) : Json.Layout := ⟨o.sortKeys, o.indent, true⟩

namespace Digest

/-- A failure to bring a value of some kind into canonical form.  What shows that the value holds
something without a text is reported as one failure; the other failures stay what they are. -/
def contentError (kind : String) : Error → Error
  | .unencodable | .unreadable => .notCanonical kind
  | e => e

def canonical (o : HashOptions) (v : Value) : Except Error Bytes :=
  (Json.encodeWith o.layout v).mapError (contentError v.kind)

/-- The digest of raw data followed by the canonical form of an object; either may be absent. -/
def ofContent (o : HashOptions) (raw : Bytes) (object : Value) : Except Error UInt32 :=
  match object.present? with
  | none => .ok (ofBytes raw)
  | some v => (canonical o v).map (update (ofBytes raw))

def contentHash (o : HashOptions) (raw : Bytes) (object : Value) : Except Error String :=
  (ofContent o raw object).map shown

def valueHash (o : HashOptions) (v : Value) : Except Error String :=
  (canonical o v).map fun bs => shown (ofBytes bs)

/-- Set the hash of a role: in its place if the name is there, at the end otherwise. -/
def putHash (name hash : String) : List (String × String) → List (String × String)
  | [] => [(name, hash)]
  | (n, h) :: rest =>
    if n = name then (n, hash) :: rest else (n, h) :: putHash name hash rest

/-- The hashes of some role documents by name, put after those already known. -/
def hashRoles (o : HashOptions) (known : List (String × String)) :
    List Entries → Except Error (List (String × String))
  | [] => .ok known
  | role :: rest => do
    let hash ← valueHash o (.object role)
    hashRoles o (putHash ((Patch.Snapshot.roleName? role).getD "") hash known) rest

/-- The shown digest of every role of stored data by name; of roles with one name the last
counts.  Empty data has no roles. -/
def roleHashes (o : HashOptions) (raw : Bytes) : Except Error (List (String × String)) :=
  if raw.isEmpty then .ok []
  else do
    let snapshot ← Patch.Snapshot.decode raw
    hashRoles o [] snapshot.roles

end Digest

end RolloutLedger
