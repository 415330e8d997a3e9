import RolloutLedger.Sync
/-! # Starting and stopping

The program owns a connection to the cluster and a manager of histories.  Starting it reads the
settings if none were given, connects to the cluster and sets up the manager; stopping it closes
the connection.  Stopping what was never started, or is stopped already, does nothing.

A file with credentials wins if the settings name one.  Otherwise the account of the pod is
tried, and the usual file if there is no such account.
-/

namespace RolloutLedger

open Entries (field)

inductive Access where
  | granted
  /-- There are no such credentials. -/
  | missing
  | broken (message : String)
  deriving DecidableEq

structure Surroundings where
  environment : Settings.Environment
  /-- The account of the pod the program runs in. -/
  account : Access
  /-- The file with credentials. -/
  file : Access

inductive Attempt where
  | account
  /-- The file at a path, or the usual one if the path is null. -/
  | file (path : Value)

/-- A connection to the cluster: which of those made so far it is, and the deadline of calls. -/
structure Connection where
  index : Nat
  deadline : Value

structure App where
  configuration : Option Configuration
  connection : Option Connection
  /-- The configuration of the manager of histories, while there is one. -/
  manager : Option Configuration
  /-- How often each connection made so far was closed. -/
  closes : List Nat

namespace App

def idle (configuration : Option Configuration) : App := ⟨configuration, none, none, []⟩

def version : String := "0.1.0"

/-- The component without which the program does not start. -/
def storeComponent : String := "revision_store"

/-- What obtaining credentials comes to: how it was tried, and the record about it or the reason
why there are none. -/
structure Obtained where
  attempts : List Attempt
  outcome : Except String LogRecord

def fileRecord (fields : Entries) : LogRecord :=
  (Logger.ofComponent "revision.store").record .info "k8s client configured from kubeconfig" fields

def accountRecord : LogRecord :=
  (Logger.ofComponent "revision.store").record .info
    "k8s client configured from in-cluster service account" []

def readFile (access : Access) (fields : Entries) : Except String LogRecord :=
  match access with
  | .granted => .ok (fileRecord fields)
  | .missing => .error "no config"
  | .broken message => .error message

def obtain (c : Configuration) (w : Surroundings) : Obtained :=
  if !c.kubeconfig.isBlank then
    ⟨[.file c.kubeconfig], readFile w.file [field "path" c.kubeconfig]⟩
  else match w.account with
    | .granted => ⟨[.account], .ok accountRecord⟩
    | .missing => ⟨[.account, .file .null], readFile w.file []⟩
    | .broken message => ⟨[.account], .error message⟩

def logger : Logger := .ofComponent "app"

/-- What starting or stopping leaves: whether it worked, the program, what was tried, what was
logged. -/
structure Turn where
  answer : Except Error Unit
  app : App
  attempts : List Attempt
  records : List LogRecord

/-- The configuration to start with. -/
def configurationFor (a : App) (w : Surroundings) : Except Error Configuration :=
  match a.configuration with
  | some c => .ok c
  | none => (Settings.ofEnvironment w.environment).map (·.configuration)

def startingRecord : LogRecord :=
  logger.record .info "rbgs revision core starting" [field "version" (.text version)]

def startedRecord (c : Configuration) : LogRecord :=
  logger.record .info "rbgs revision core started"
    [field "history_limit" c.historyLimit, field "store_timeout_seconds" c.storeTimeout]

def connected (a : App) (c : Configuration) : App :=
  ⟨some c, some ⟨a.closes.length, c.storeTimeout⟩, some c, a.closes ++ [0]⟩

def startWith (a : App) (c : Configuration) (w : Surroundings) : Turn :=
  match Level.thresholdOf c.logLevel with
  | .error e => ⟨.error e, { a with configuration := some c }, [], []⟩
  | .ok _ =>
    let obtained := obtain c w
    match obtained.outcome with
    | .error cause =>
      ⟨.error (.notStarted storeComponent cause), { a with configuration := some c },
        obtained.attempts, [startingRecord]⟩
    | .ok record =>
      ⟨.ok (), a.connected c, obtained.attempts, [startingRecord, record, startedRecord c]⟩

def start (a : App) (w : Surroundings) : Turn :=
  match a.configurationFor w with
  | .error e => ⟨.error e, a, [], []⟩
  | .ok c => a.startWith c w

def stop (a : App) : Turn :=
  match a.connection with
  | none => ⟨.ok (), a, [], []⟩
  | some c =>
    ⟨.ok (),
      { a with connection := none, manager := none, closes := a.closes.modify c.index (· + 1) }, [],
      [logger.record .info "rbgs revision core stopped" []]⟩

def threshold (a : App) : Nat :=
  match a.configuration.map (Level.thresholdOf ·.logLevel) with
  | some (.ok n) => n
  | _ => Level.info.severity

end App

end RolloutLedger
