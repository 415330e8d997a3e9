import RolloutLedger.Text.Numeral
import RolloutLedger.Value.Basic
/-! # Settings

The settings of the program, and how they are read from the environment: the length of
histories, how content is hashed, the deadline and the credentials of the store, and the log
level.  What the environment does not mention has a default.

Settings that were read are checked.  A configuration holds the same settings as somebody gave
them, unchecked.
-/

namespace RolloutLedger

structure Settings where
  historyLimit : Int
  sortKeys : Bool
  /-- The seconds a call to the store may take. -/
  storeTimeout : Scalar
  /-- The file with the credentials of the cluster; empty if none is given. -/
  kubeconfig : String
  logLevel : String

namespace Settings

def standard : Settings :=
  ⟨10, true, .float (Binary64.ofDecimal false 30 0), "", "info"⟩

instance : Inhabited Settings := ⟨standard⟩

abbrev Environment := List (String × String)

def lookup (env : Environment) (name : String) : Option String :=
  (env.find? fun v => v.1 == name).map (·.2)

def lower (s : String) : String := String.ofList (s.toList.map Text.lowerAscii)

/-- An integer brought between two bounds. -/
def clamp (low high n : Int) : Int := min (max n low) high

/-- The length of histories: an integer, brought between 1 and 1000. -/
def readHistoryLimit : Option String → Except Error Int
  | none => .ok standard.historyLimit
  | some s => match Text.integer? s with
    | some n => .ok (clamp 1 1000 n)
    | none => .error .unreadable

/-- A switch: on for a few words, off for all others. -/
def readSwitch (default : Bool) : Option String → Bool
  | none => default
  | some s => ["true", "1", "yes"].contains (lower s)

/-- A deadline: a number of seconds that is not zero or less. -/
def readTimeout : Option String → Except Error Scalar
  | none => .ok standard.storeTimeout
  | some s => match Text.binary64? s with
    | none => .error .unreadable
    | some x =>
      if (Scalar.float x).le (.int 0) then .error (.timeoutNotPositive x) else .ok (.float x)

def readLogLevel : Option String → Except Error String
  | none => .ok standard.logLevel
  | some s =>
    if ["debug", "info", "warning", "error"].contains (lower s) then .ok (lower s)
    else .error (.unknownLogLevel s)

def ofEnvironment (env : Environment) : Except Error Settings := do
  let historyLimit ← readHistoryLimit (lookup env "RBGS_REVISION_HISTORY_LIMIT")
  let sortKeys := readSwitch standard.sortKeys (lookup env "RBGS_HASH_SORT_KEYS")
  let storeTimeout ← readTimeout (lookup env "RBGS_STORE_TIMEOUT_SECONDS")
  let kubeconfig := (lookup env "RBGS_KUBECONFIG").getD standard.kubeconfig
  let logLevel ← readLogLevel (lookup env "RBGS_LOG_LEVEL")
  return ⟨historyLimit, sortKeys, storeTimeout, kubeconfig, logLevel⟩

end Settings

structure Configuration where
  historyLimit : Value
  sortKeys : Value
  storeTimeout : Value
  kubeconfig : Value
  logLevel : Value

def Settings.configuration (s : Settings) : Configuration :=
  ⟨.int s.historyLimit, .bool s.sortKeys, .ofScalar s.storeTimeout, .text s.kubeconfig,
    .text s.logLevel⟩

end RolloutLedger
