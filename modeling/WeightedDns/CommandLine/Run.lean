import WeightedDns.CommandLine.Arguments
import WeightedDns.CommandLine.Folder
import WeightedDns.Json.Printer
import WeightedDns.Json.Reader
import WeightedDns.Lifecycle.Write
import WeightedDns.Toml.RecordSet
import WeightedDns.Wire.Client

/-!
# Running commands

A command is a dialogue that ends with the value to be printed. Files are given by a function from
paths to texts, and who answers the calls is left open, so that what a command asks for can be
stated for every behaviour of the service. `Invocation.execute` holds the dialogue with the
service behind a transport. All commands but `validate` need an access key before anything else.
-/

namespace WeightedDns.CommandLine

/-- Where the text of a file comes from. -/
abbrev Files : Type := String → Except FileError String

/-- Why a command fails. -/
inductive Failure where
  /-- One half of the access key is given nowhere. -/
  | keyMissing (half : Wire.Credentials.Half)
  /-- There is no client for the access key. -/
  | noClient (error : ServiceError)
  | unreadable (path : String) (error : FileError)
  /-- A file does not define a record set. -/
  | badRecordSet (path : String) (detail : String)
  /-- A file does not hold a tracked set. -/
  | badState (path : String) (detail : String)
  /-- No record of a set is left. -/
  | gone (id : ResourceId)
  | lifecycle (error : LifecycleError)
  deriving DecidableEq, Repr

namespace Failure

/-- Where one half of the access key can be given. -/
def sources : Wire.Credentials.Half → String
  | .keyId => "--access-key-id or ALIYUN_ACCESS_KEY_ID"
  | .keySecret => "--access-key-secret or ALIYUN_ACCESS_KEY_SECRET"

/-- The wording of a failure and of what has led to it, the failure first. -/
def chain : Failure → List String
  | .keyMissing half => [s!"{sources half} is required"]
  | .noClient e => [e.message]
  | .unreadable path e => [s!"failed to read {path}", e.message]
  | .badRecordSet path detail => [s!"invalid record set in {path}", detail]
  | .badState path detail => [s!"invalid state in {path}", detail]
  | .gone id => [s!"no record of {id.text} exists any more; create the record set again"]
  | .lifecycle (.remote attempt source) =>
    [(LifecycleError.remote attempt source).message, source.message]
  | .lifecycle e => [e.message]

/-- Whether a user has to expect the failure. -/
def isExpected : Failure → Bool
  | .lifecycle e => e.isExpected
  | _ => false

end Failure

/-- A command that is under way. -/
abbrev Execution (α : Type) : Type := Dialogue Failure α

namespace Files

/-- The text of a file. -/
def text (files : Files) (path : String) : Except Failure String :=
  (files path).mapError (.unreadable path)

/-- The record set that a file defines. -/
def recordSet (files : Files) (path : String) : Except Failure RecordSet := do
  match RecordSet.ofToml? (← files.text path) with
  | some s => pure s
  | none => throw (.badRecordSet path "not the definition of a record set")

/-- The tracked set that a file holds. -/
def trackedSet (files : Files) (path : String) : Except Failure TrackedSet := do
  match (Json.parse? (← files.text path)).bind TrackedSet.ofJson? with
  | some t => pure t
  | none => throw (.badState path "not the state of a record set")

end Files

/-- The resource ID that an argument holds. -/
def resourceId (text : String) : Except Failure ResourceId :=
  match ResourceId.parse? text with
  | some id => .ok id
  | none => .error (.lifecycle (.invalidResourceId text))

/-- An operation on a record set as part of a command. -/
def operate (o : Lifecycle.Operation α) : Execution α := o.mapError .lifecycle

/-- The state of a set before a change, from a file or as it exists. -/
def priorState (files : Files) (prior : Prior) (domain : String) : Execution TrackedSet :=
  match prior with
  | .state path => .ofExcept (files.trackedSet path)
  | .id text => do
    let id ← .ofExcept (resourceId text)
    match ← operate (Lifecycle.read? id domain) with
    | some state => pure state
    | none => .fail (.gone id)

/-- The record set that a file defines, if it keeps all rules. -/
def validated (files : Files) (config : String) : Except Failure RecordSet := do
  let s ← files.recordSet config
  match s.fault? with
  | some fault => throw (.lifecycle (.refused (.fault fault)))
  | none => pure s

/-- Run a command up to the value that it prints. -/
def Command.run (files : Files) : Command → Execution Json
  | .validate config => .ofExcept ((validated files config).map RecordSet.toJson)
  | .create config => do
    let s ← .ofExcept (files.recordSet config)
    let state ← operate (Lifecycle.create true s)
    pure state.toJson
  | .read config id => do
    let s ← .ofExcept (files.recordSet config)
    let id ← .ofExcept (resourceId id)
    let state ← operate (Lifecycle.read? id s.domain)
    pure (Json.ofOption TrackedSet.toJson state)
  | .update config prior => do
    let s ← .ofExcept (files.recordSet config)
    let prior ← priorState files prior s.domain
    let state ← operate (Lifecycle.update prior s)
    pure state.toJson
  | .delete id => do
    let id ← .ofExcept (resourceId id)
    operate (Lifecycle.delete id)
    pure (.object [("deleted", id.toJson)])
  | .takeOver importId => do
    let state ← operate (Lifecycle.takeOver importId)
    pure state.toJson
  | .plan config prior => do
    let s ← .ofExcept (files.recordSet config)
    let prior ← priorState files prior s.domain
    let plan ← operate (Lifecycle.plan prior s)
    pure plan.toJson

/-- The client that the settings ask for. -/
def Settings.client (s : Settings) : Except Failure Wire.Client := do
  let some keyId := s.keyId | throw (.keyMissing .keyId)
  let some keySecret := s.keySecret | throw (.keyMissing .keySecret)
  (Wire.Client.new ⟨keyId, keySecret⟩ s.endpoint s.maxRetries).mapError .noClient

variable {τ : Type}

/-- Carry out what a command line asks for, from one state of the transport to another. -/
def Invocation.execute (i : Invocation) (files : Files) (transport : Wire.Transport τ) (t : τ) :
    Except Failure Json × τ :=
  match i.command with
  | .validate config => ((validated files config).map RecordSet.toJson, t)
  | command =>
    match i.settings.client with
    | .error failure => (.error failure, t)
    | .ok client => (command.run files).run (client.remote transport) t

/-- The text that is printed for a value: members in the order of their keys. -/
def printed (j : Json) : String := j.settled.pretty

/-- The files that a command reads. -/
def Command.paths : Command → List String
  | .create config | .read config _ | .validate config => [config]
  | .update config (.state path) | .plan config (.state path) => [config, path]
  | .update config (.id _) | .plan config (.id _) => [config]
  | .delete _ | .takeOver _ => []

end WeightedDns.CommandLine
