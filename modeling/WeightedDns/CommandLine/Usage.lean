/-!
# The words of the command line

The commands, the options that they take, and the ways in which a command line can be at fault.
-/

namespace WeightedDns.CommandLine

/-- A command. -/
inductive Verb where
  | create | read | update | delete | takeOver | plan | validate
  deriving DecidableEq, Repr

/-- All commands. -/
def Verb.all : List Verb := [.create, .read, .update, .delete, .takeOver, .plan, .validate]

/-- The word for a command. -/
def Verb.word : Verb → String
  | .create => "create"
  | .read => "read"
  | .update => "update"
  | .delete => "delete"
  | .takeOver => "import"
  | .plan => "plan"
  | .validate => "validate"

/-- The command for a word. -/
def Verb.ofWord? (w : String) : Option Verb := Verb.all.find? (·.word == w)

/-- The word that asks for help instead of a command. -/
def helpWord : String := "help"

/-- An option. Each takes a value. -/
inductive Setting where
  | keyId | keySecret | endpoint | maxRetries | logLevel
  | config | id | state
  deriving DecidableEq, Repr

namespace Setting

/-- The name of an option, without the leading hyphens. -/
def name : Setting → String
  | .keyId => "access-key-id"
  | .keySecret => "access-key-secret"
  | .endpoint => "endpoint"
  | .maxRetries => "max-retries"
  | .logLevel => "log-level"
  | .config => "config"
  | .id => "id"
  | .state => "state"

/-- The options that may stand before and after the command. -/
def shared : List Setting := [.keyId, .keySecret, .endpoint, .maxRetries, .logLevel]

/-- The options of a command. -/
def ofVerb : Verb → List Setting
  | .create | .validate => [.config]
  | .read => [.config, .id]
  | .update | .plan => [.config, .id, .state]
  | .delete => [.id]
  | .takeOver => []

/-- The options that may stand before the command, or after it. -/
def known (verb : Option Verb) : List Setting := shared ++ verb.elim [] ofVerb

end Setting

/-- Why a command line asks for no command, or for none that can be run. -/
inductive UsageError where
  /-- Help is asked for. -/
  | help
  /-- The version is asked for. -/
  | version
  /-- Nothing at all is given. -/
  | nothingGiven
  | noCommand
  | unknownCommand
  | unknownArgument
  /-- An option stands without its value, or a path is empty. -/
  | valueMissing
  /-- A value is not of the kind that the option takes. -/
  | valueInvalid
  /-- A value is attached to a word that takes none. -/
  | valueUnexpected
  /-- An option stands twice, or together with one that rules it out. -/
  | conflict
  | argumentMissing
  deriving DecidableEq, Repr

/-- The status with which the program ends. -/
def UsageError.exitCode : UsageError → UInt8
  | .help | .version => 0
  | _ => 2

/-- The wording of a fault. -/
def UsageError.message : UsageError → String
  | .help => "help is asked for"
  | .version => "the version is asked for"
  | .nothingGiven => "a command is needed"
  | .noCommand => "a command is needed beside the options"
  | .unknownCommand => "there is no such command"
  | .unknownArgument => "there is no such argument here"
  | .valueMissing => "an option needs a value"
  | .valueInvalid => "the value of an option is not valid"
  | .valueUnexpected => "a value is given to an option that takes none"
  | .conflict => "an option is given twice, or together with one that rules it out"
  | .argumentMissing => "a required argument is missing"

end WeightedDns.CommandLine
