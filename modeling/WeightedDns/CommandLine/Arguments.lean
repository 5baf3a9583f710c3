import WeightedDns.CommandLine.Usage
import WeightedDns.Text.Scan

/-!
# Reading the command line

A command line has two levels: what stands before the command, and what stands after it. The
shared options may stand on both, and count once each per level. An option waits for its value; a
value is checked only when the next option begins or the level ends. Of two faults the one that is
met first in this order counts, but a word that is unknown always goes before a value that waits
to be checked.

`parse` reads the arguments after the name of the program.
-/

namespace WeightedDns.CommandLine

/-! ## What is asked for -/

/-- Where the state of a set before a change comes from. -/
inductive Prior where
  /-- It is read at the service by the IDs of its records. -/
  | id (text : String)
  /-- It is read from a file. -/
  | state (path : String)
  deriving DecidableEq, Repr

/-- A command with its arguments. -/
inductive Command where
  | create (config : String)
  | read (config id : String)
  | update (config : String) (prior : Prior)
  | delete (id : String)
  | takeOver (importId : String)
  | plan (config : String) (prior : Prior)
  | validate (config : String)
  deriving DecidableEq, Repr

/-- The word for a command. -/
def Command.verb : Command → Verb
  | .create _ => .create
  | .read _ _ => .read
  | .update _ _ => .update
  | .delete _ => .delete
  | .takeOver _ => .takeOver
  | .plan _ _ => .plan
  | .validate _ => .validate

/-- Whether a command talks to the service. -/
def Command.needsClient : Command → Bool
  | .validate _ => false
  | _ => true

/-- What the environment says where the command line is silent. -/
structure Environment where
  keyId : Option String := none
  keySecret : Option String := none
  endpoint : Option String := none
  deriving Repr

namespace Environment

/-- Whether the environment says nothing. -/
def isSilent (env : Environment) : Bool :=
  env.keyId.isNone && env.keySecret.isNone && env.endpoint.isNone

/-- The variables that are looked at. -/
def variableNames : List String :=
  ["ALIYUN_ACCESS_KEY_ID", "ALIYUN_ACCESS_KEY_SECRET", "ALIDNS_ENDPOINT"]

/-- The environment with the given variables. -/
def ofVariables (values : List (String × String)) : Environment where
  keyId := values.lookup "ALIYUN_ACCESS_KEY_ID"
  keySecret := values.lookup "ALIYUN_ACCESS_KEY_SECRET"
  endpoint := values.lookup "ALIDNS_ENDPOINT"

end Environment

/-- What the shared options say. -/
structure Settings where
  keyId : Option String
  keySecret : Option String
  endpoint : Option String
  maxRetries : Option UInt32
  logLevel : String
  deriving DecidableEq, Repr

/-- The log level that is not asked for. -/
def defaultLogLevel : String := "info"

/-- A command and how it is to be run. -/
structure Invocation where
  settings : Settings
  command : Command
  deriving DecidableEq, Repr

/-! ## Words -/

/-- An argument by its form. -/
inductive Word where
  /-- Two hyphens: no option follows. -/
  | escape
  /-- A name after two hyphens, and the value attached to it by an equals sign. -/
  | long (name : String) (value : Option String)
  /-- The first letter after one hyphen. -/
  | short (letter : Char)
  | plain
  deriving DecidableEq, Repr

/-- The form of an argument. A single hyphen is a plain word. -/
def Word.ofArgument (arg : String) : Word :=
  match arg.toList with
  | ['-', '-'] => .escape
  | '-' :: '-' :: cs =>
    match cs.dropWhile (· != '=') with
    | [] => .long (String.ofList cs) none
    | _ :: value => .long (String.ofList (cs.takeWhile (· != '='))) (some (String.ofList value))
  | '-' :: c :: _ => .short c
  | _ => .plain

/-- The whole number of 32 bits that a value stands for; it may have a sign. -/
def retries? (value : String) : Option UInt32 :=
  let (negative, digits) :=
    match value.toList with
    | '-' :: cs => (true, cs)
    | '+' :: cs => (false, cs)
    | cs => (false, cs)
  match Text.digitRun digits with
  | (d :: ds, []) =>
    let n := Text.digitsValue (d :: ds)
    if n < UInt32.size && !(negative && n != 0) then some (UInt32.ofNat n) else none
  | _ => none

/-- What is wrong with the value of an option. -/
def Setting.fault? (s : Setting) (value : String) : Option UsageError :=
  match s with
  | .config | .state => if value.isEmpty then some .valueMissing else none
  | .maxRetries => if (retries? value).isNone then some .valueInvalid else none
  | _ => none

/-! ## One level -/

/-- What one level of the command line has given so far. -/
structure Level where
  /-- The options with their values, all of them checked. -/
  values : List (Setting × String) := []
  /-- The latest option, and its value if that has come. -/
  waiting : Option (Setting × Option String) := none
  /-- The argument that is no option. -/
  subject : Option String := none
  deriving Repr

namespace Level

/-- The value of an option. -/
def get? (l : Level) (s : Setting) : Option String := l.values.lookup s

/-- Whether an option still has no value. -/
def awaitsValue (l : Level) : Bool := l.waiting matches some (_, none)

/-- Take an option with its value. -/
def put (l : Level) (s : Setting) (value : String) : Except UsageError Level :=
  if (l.get? s).isSome then .error .conflict
  else
    match s.fault? value with
    | some fault => .error fault
    | none => .ok { l with values := l.values ++ [(s, value)] }

/-- Take the option that waits. -/
def settle (l : Level) : Except UsageError Level :=
  match l.waiting with
  | none => .ok l
  | some (_, none) => .error .valueMissing
  | some (s, some value) => { l with waiting := none }.put s value

end Level

/-- What follows the word that asks for help: nothing or one command. -/
def helpOn : List String → UsageError
  | [] => .help
  | [w] => if w == helpWord || (Verb.ofWord? w).isSome then .help else .unknownCommand
  | _ => .unknownCommand

/-- Take a plain word that is neither a command nor the value of an option. Only one command takes
such a word, and only once. -/
def Level.putSubject (verb : Option Verb) (escaped : Bool) (arg : String) (l : Level) :
    Except UsageError Level :=
  match verb with
  | none =>
    if escaped && (arg == helpWord || (Verb.ofWord? arg).isSome) then .error .unknownArgument
    else .error .unknownCommand
  | some .takeOver =>
    if l.subject.isSome then .error .unknownArgument
    else do
      let l ← l.settle
      .ok { l with subject := some arg }
  | some _ => .error .unknownArgument

/-- Take an argument with hyphens in front. -/
def Level.putOption (verb : Option Verb) (name : String) (value : Option String) (l : Level) :
    Except UsageError Level :=
  if name == helpWord || (name == "version" && verb.isNone) then
    if value.isSome then .error .valueUnexpected
    else do
      let _ ← l.settle
      .error (if name == helpWord then .help else .version)
  else
    match (Setting.known verb).find? (·.name == name) with
    | none => .error .unknownArgument
    | some s => do
      let l ← l.settle
      match value with
      | some value => l.put s value
      | none => .ok { l with waiting := some (s, none) }

/-- The name of the option that a letter stands for. -/
def longName? (letter : Char) : Option String :=
  if letter == 'h' then some helpWord else if letter == 'V' then some "version" else none

/-- Read the arguments of a level: those of a command, or those up to the command, which is then
given with the arguments behind it. `escaped` says that no option follows. -/
def readLevel (verb : Option Verb) (escaped : Bool) (l : Level) :
    List String → Except UsageError (Level × Option (Verb × List String))
  | [] => .ok (l, none)
  | arg :: rest =>
    if escaped then do readLevel verb true (← l.putSubject verb true arg) rest
    else if verb.isNone && !l.awaitsValue && arg == helpWord then .error (helpOn rest)
    else
      match if verb.isNone && !l.awaitsValue then Verb.ofWord? arg else none with
      | some command => .ok (l, some (command, rest))
      | none =>
        match Word.ofArgument arg with
        | .escape => readLevel verb true l rest
        | .long name value => do readLevel verb false (← l.putOption verb name value) rest
        | .short letter =>
          match longName? letter with
          | none => .error .unknownArgument
          | some name => do readLevel verb false (← l.putOption verb name none) rest
        | .plain =>
          match l.waiting with
          | some (s, none) => readLevel verb false { l with waiting := some (s, some arg) } rest
          | _ => do readLevel verb false (← l.putSubject verb false arg) rest

/-! ## The whole line -/

namespace Level

/-- A value that must be there. -/
def need (l : Level) (s : Setting) : Except UsageError String :=
  match l.get? s with
  | some value => .ok value
  | none => .error .argumentMissing

/-- The state before a change: one of two options, and not both. -/
def prior (l : Level) : Except UsageError Prior :=
  match l.get? .id, l.get? .state with
  | some _, some _ => .error .conflict
  | some id, none => .ok (.id id)
  | none, some path => .ok (.state path)
  | none, none => .error .argumentMissing

/-- The command that a level gives. -/
def command (l : Level) : Verb → Except UsageError Command
  | .create => do return .create (← l.need .config)
  | .read => do return .read (← l.need .config) (← l.need .id)
  | .update => do
    let prior ← l.prior
    return .update (← l.need .config) prior
  | .delete => do return .delete (← l.need .id)
  | .takeOver =>
    match l.subject with
    | some text => .ok (.takeOver text)
    | none => .error .argumentMissing
  | .plan => do
    let prior ← l.prior
    return .plan (← l.need .config) prior
  | .validate => do return .validate (← l.need .config)

/-- The shared options: those after the command go before those in front of it, and these before
the environment. -/
def settings (inner outer : Level) (env : Environment) : Settings :=
  let value (s : Setting) : Option String := (inner.get? s).or (outer.get? s)
  { keyId := (value .keyId).or env.keyId
    keySecret := (value .keySecret).or env.keySecret
    endpoint := (value .endpoint).or env.endpoint
    maxRetries := (value .maxRetries).bind retries?
    logLevel := (value .logLevel).getD defaultLogLevel }

end Level

/-- Read the arguments after the name of the program. -/
def parse (env : Environment) (args : List String) : Except UsageError Invocation := do
  let (outer, command) ← readLevel none false {} args
  match command with
  | some (verb, rest) =>
    let (inner, _) ← readLevel (some verb) false {} rest
    let inner ← inner.settle
    let command ← inner.command verb
    let outer ← outer.settle
    return ⟨inner.settings outer env, command⟩
  | none =>
    let outer ← outer.settle
    throw (if outer.values.isEmpty && env.isSilent then .nothingGiven else .noCommand)

end WeightedDns.CommandLine
