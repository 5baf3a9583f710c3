import WeightedDns.Json.Record
import WeightedDns.Text.Blank

/-!
# Credentials

An access key is a pair of an ID and a secret, neither of them blank.
-/

namespace WeightedDns.Wire

/-- An access key. -/
structure Credentials where
  keyId : String
  keySecret : String
  deriving DecidableEq, Repr

namespace Credentials

/-- One half of an access key. -/
inductive Half where
  | keyId | keySecret
  deriving DecidableEq, Repr

/-- The name of a half in structured data. -/
def Half.name : Half → String
  | .keyId => "accessKeyId"
  | .keySecret => "accessKeySecret"

/-- The name of a half in messages. -/
def Half.label : Half → String
  | .keyId => "Access Key ID"
  | .keySecret => "Access Key Secret"

/-- What is wrong with an access key. -/
inductive Fault where
  | missing (half : Half)
  | blank (half : Half)
  deriving DecidableEq, Repr

/-- The wording of a fault. -/
def Fault.message : Fault → String
  | .missing half => s!"{half.label} is required"
  | .blank half => s!"{half.label} must not be empty"

/-- The word that stands for the kind of fault in JSON. -/
def Fault.code : Fault → String
  | .missing _ => "missingField"
  | .blank _ => "emptyField"

/-- The half that is at fault. -/
def Fault.half : Fault → Half
  | .missing half | .blank half => half

/-- A fault as JSON. -/
def Fault.toJson (f : Fault) : Json :=
  .object [("type", .text f.code), ("field", .text f.half.name), ("label", .text f.half.label)]

/-- The first half that is blank. -/
def fault? (c : Credentials) : Option Fault :=
  if Text.isBlank c.keyId then some (.blank .keyId)
  else if Text.isBlank c.keySecret then some (.blank .keySecret)
  else none

/-- An access key from named texts. -/
def ofNamed (texts : List (String × String)) : Except Fault Credentials := do
  let some keyId := texts.lookup Half.keyId.name | throw (.missing .keyId)
  let some keySecret := texts.lookup Half.keySecret.name | throw (.missing .keySecret)
  let c : Credentials := ⟨keyId, keySecret⟩
  match c.fault? with
  | some fault => throw fault
  | none => pure c

/-- An access key as JSON. -/
def toJson (c : Credentials) : Json :=
  .object [("accessKeyId", .text c.keyId), ("accessKeySecret", .text c.keySecret)]

/-- Read an access key. -/
def ofJson? (j : Json) : Option Credentials := do
  let m ← j.members? ["accessKeyId", "accessKeySecret"] false
  some {
    keyId := ← m.required "accessKeyId" Json.asText?
    keySecret := ← m.required "accessKeySecret" Json.asText? }

end Credentials

end WeightedDns.Wire
