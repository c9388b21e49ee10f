/-
# Usage of the command line

Arguments are read from left to right. At the top level options may stand in front of
the name of a command; behind the name the command's own options and operands follow.
The option for a settings file is understood at both levels, and the inner one counts.

Options with a value take it from the same argument, behind an equals sign or directly
behind a short name, or else from the next argument, which then must not look like an
option. No option may be repeated within a level. Behind a double dash there are only
operands. A request for help or for the version is answered where it stands, so only
a mistake in front of it is noticed.
-/

namespace Offside.Cli

/-- How the report of a run is printed. -/
inductive Format
  /-- Only the entries of its log. -/
  | text
  /-- As a JSON document. -/
  | json
  /-- As a YAML document. -/
  | yaml
  deriving DecidableEq, Repr

/-- What can be done. -/
inductive Command
  /-- Print the generated code of a document. -/
  | transpile (path : List Char)
  /-- Print the compiled unit of a document. -/
  | compile (path : List Char)
  /-- Run a document and print its report. -/
  | run (path : List Char) (format : Format)
  /-- Print a document as a fragment, or as an address with this base. -/
  | share (path : List Char) (base : Option (List Char))
  /-- Print the document in a fragment. -/
  | restore (fragment : List Char)
  /-- Open the playground on a file or on the document in a fragment. -/
  | play (path fragment : Option (List Char))
  deriving DecidableEq, Repr

/-- What is asked for. -/
inductive Request
  /-- The usage. -/
  | help
  /-- The version. -/
  | version
  /-- Nothing that can be made sense of. -/
  | misuse
  /-- A command, with a settings file if one is named. -/
  | invoke (config : Option (List Char)) (command : Command)
  deriving DecidableEq, Repr

/-- An option that takes a value. -/
inductive Flag
  | config
  | format
  | base
  | fragment
  deriving DecidableEq, Repr

/-- The long name of an option. -/
def Flag.long : Flag → String
  | config => "config"
  | format => "format"
  | base => "base"
  | fragment => "fragment"

/-- The short name of an option. -/
def Flag.short? : Flag → Option Char
  | config => some 'c'
  | format => some 'f'
  | base | fragment => none

/-- The formats by name. -/
def Format.ofName? (name : List Char) : Option Format :=
  match String.ofList name with
  | "text" => some .text
  | "json" => some .json
  | "yaml" => some .yaml
  | _ => none

/-- An option takes this value. -/
def Flag.accepts (flag : Flag) (value : List Char) : Bool :=
  match flag with
  | format => (Format.ofName? value).isSome
  | config | base | fragment => true

/-- What arguments of a level can be. -/
structure Level where
  /-- The options. -/
  flags : List Flag
  /-- The greatest number of operands. -/
  operands : Nat := 0
  /-- The names of commands. -/
  commands : List (List Char) := []
  /-- The version can be asked for. -/
  version : Bool := false
  deriving DecidableEq, Repr

/-- What has been read of a level. -/
structure Taken where
  /-- The options with their values. -/
  values : List (Flag × List Char) := []
  /-- The operands. -/
  operands : List (List Char) := []
  deriving DecidableEq, Repr

/-- How reading a level ends. -/
inductive Reading
  /-- With the answer to everything. -/
  | answered (request : Request)
  /-- With the name of a command and the arguments behind it. -/
  | entered (command : List Char) (taken : Taken) (rest : List (List Char))
  /-- With the last argument. -/
  | ended (taken : Taken)
  deriving DecidableEq, Repr

namespace Taken

/-- The value of an option. -/
def value? (taken : Taken) (flag : Flag) : Option (List Char) := taken.values.lookup flag

/-- Take an option with its value, unless the option repeats or refuses the value. -/
def put? (taken : Taken) (flag : Flag) (value : List Char) : Option Taken :=
  if (taken.value? flag).isSome || !flag.accepts value then none
  else some { taken with values := (flag, value) :: taken.values }

/-- Take an operand, if the level has room for it. -/
def operand? (taken : Taken) (level : Level) (operand : List Char) : Option Taken :=
  if taken.operands.length < level.operands then
    some { taken with operands := taken.operands ++ [operand] }
  else none

end Taken

/-- An argument that is read as an option or as the double dash. -/
def looksLikeOption (argument : List Char) : Bool :=
  match argument with
  | '-' :: _ :: _ => true
  | _ => false

/-- An argument, taken apart. -/
inductive Argument
  /-- The double dash. -/
  | separator
  /-- A request for help. -/
  | help
  /-- A request for the version. -/
  | version
  /-- An option, with its value if that stands in the same argument. -/
  | option (flag : Flag) (value : Option (List Char))
  /-- An option that the level does not have. -/
  | unknown
  /-- Anything else. -/
  | word
  deriving DecidableEq, Repr

/-- Take a long option apart, the dashes already taken off. -/
def longArgument (level : Level) (text : List Char) : Argument :=
  let name := text.takeWhile (· ≠ '=')
  let value := (text.drop name.length).tail?
  match value, String.ofList name with
  | none, "help" => .help
  | none, "version" => if level.version then .version else .unknown
  | _, name =>
    match level.flags.find? (·.long = name) with
    | some flag => .option flag value
    | none => .unknown

/-- Take a short option apart, the dash already taken off. -/
def shortArgument (level : Level) (name : Char) (behind : List Char) : Argument :=
  if name = 'h' then .help
  else if name = 'V' && level.version then .version
  else
    match level.flags.find? (·.short? = some name) with
    | some flag =>
      match behind with
      | [] => .option flag none
      | '=' :: value => .option flag (some value)
      | value => .option flag (some value)
    | none => .unknown

/-- Take an argument apart. -/
def argument (level : Level) (text : List Char) : Argument :=
  match text with
  | ['-', '-'] => .separator
  | '-' :: '-' :: long => longArgument level long
  | '-' :: name :: behind => shortArgument level name behind
  | _ => .word

/-- Read operands only. -/
def readOperands (level : Level) (taken : Taken) (operands : List (List Char)) : Reading :=
  match operands.foldlM (fun taken operand => taken.operand? level operand) taken with
  | some taken => .ended taken
  | none => .answered .misuse

/-- Read the arguments of a level. -/
def readLevel (level : Level) (taken : Taken) : List (List Char) → Reading
  | [] => .ended taken
  | text :: rest =>
    if level.commands.contains text then .entered text taken rest
    else
      match argument level text with
      | .separator => readOperands level taken rest
      | .help => .answered .help
      | .version => .answered .version
      | .unknown => .answered .misuse
      | .word =>
        match taken.operand? level text with
        | some taken => readLevel level taken rest
        | none => .answered .misuse
      | .option flag (some value) =>
        match taken.put? flag value with
        | some taken => readLevel level taken rest
        | none => .answered .misuse
      | .option flag none =>
        match rest with
        | [] => .answered .misuse
        | value :: rest =>
          if looksLikeOption value then .answered .misuse
          else
            match taken.put? flag value with
            | some taken => readLevel level taken rest
            | none => .answered .misuse

/-- The names of commands. -/
def commandNames : List (List Char) :=
  ["transpile", "compile", "run", "share", "open", "play"].map String.toList

/-- The level in front of the name of a command. -/
def topLevel : Level :=
  { flags := [.config], commands := "help".toList :: commandNames, version := true }

/-- The level behind the name of a command. -/
def levelOf (command : String) : Level :=
  match command with
  | "run" => { flags := [.config, .format], operands := 1 }
  | "share" => { flags := [.config, .base], operands := 1 }
  | "play" => { flags := [.config, .fragment], operands := 1 }
  | _ => { flags := [.config], operands := 1 }

/-- The command of a name with what has been read of its level. -/
def commandOf? (command : String) (taken : Taken) : Option Command :=
  match command, taken.operands with
  | "transpile", [path] => some (.transpile path)
  | "compile", [path] => some (.compile path)
  | "run", [path] =>
    some (.run path (((taken.value? .format).bind Format.ofName?).getD .text))
  | "share", [path] => some (.share path (taken.value? .base))
  | "open", [fragment] => some (.restore fragment)
  | "play", [] => some (.play none (taken.value? .fragment))
  | "play", [path] =>
    if (taken.value? .fragment).isSome then none else some (.play (some path) none)
  | _, _ => none

/-- The answer to a request for help on commands: there is help on every command and
on help itself, but on nothing further. -/
def helpOn (names : List (List Char)) : Request :=
  match names with
  | [] => .help
  | [name] => if topLevel.commands.contains name then .help else .misuse
  | _ => .misuse

/-- What a list of arguments asks for. -/
def Request.ofArguments (arguments : List (List Char)) : Request :=
  match readLevel topLevel {} arguments with
  | .answered request => request
  | .ended _ => .misuse
  | .entered name outer rest =>
    let name := String.ofList name
    if name = "help" then helpOn rest
    else
      match readLevel (levelOf name) {} rest with
      | .answered request => request
      | .entered _ _ _ => .misuse
      | .ended inner =>
        match commandOf? name inner with
        | some command => .invoke ((inner.value? .config).or (outer.value? .config)) command
        | none => .misuse

end Offside.Cli
