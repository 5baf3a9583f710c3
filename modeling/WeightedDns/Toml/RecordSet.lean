import WeightedDns.Record.Codec
import WeightedDns.Toml.Reader

/-!
# Record sets in TOML

The definition of a record set is a TOML document with the members that the set has in JSON. Three
things differ. There is no `null`. A name written as a key has an empty table or array behind it.
And an entry given as an array may go on after its last member.
-/

namespace WeightedDns

namespace Toml

/-- The payload of a name that is written as a key: an empty table or array. -/
def isVacant : Json → Bool
  | .object [] => true
  | .array [] => true
  | _ => false

/-- An entry without the items that follow its last member, if it is given as an array. -/
def cutEntry : Json → Json
  | .array items => .array (items.take Entry.memberNames.length)
  | j => j

/-- A document whose entries are cut. -/
def cutEntries : Json → Json
  | .object members => .object <| members.map fun
    | ("records", .array entries) => ("records", .array (entries.map cutEntry))
    | m => m
  | j => j

end Toml

/-- Read a record set from the text of its definition. -/
def RecordSet.ofToml? (text : String) : Option RecordSet := do
  RecordSet.ofJson? Toml.isVacant (Toml.cutEntries (← Toml.Document.parse? text).toJson)

end WeightedDns
