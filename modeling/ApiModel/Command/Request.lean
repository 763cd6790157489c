import ApiModel.Document
/-!
# The command line

The arguments of the program as a request.  An option is written in full with its value
after an equals sign or as the next argument, or by its letter with the value attached or
next.  No option is given twice, and a next argument that starts with a dash is no value,
unless it is a dash alone.
-/

namespace ApiModel.Command

/-- An option of a command. -/
structure Switch where
  name : String
  letter : Option Char := none
  /-- Whether it comes with a value. -/
  hasValue : Bool := true

/-- The options of a command line by name; those without a value have an empty one. -/
abbrev Switches := Entries String

namespace Switches

/-- Notes an option; fails when it is given already. -/
def add? (given : Switches) (switch : Switch) (value : String) : Option Switches :=
  if Entries.contains given switch.name then none else some (given ++ [(switch.name, value)])

/-- Whether an argument can be the value of the option before it. -/
def isValue (arg : String) : Bool :=
  arg == "-" || !Text.startsWith arg "-"

/-- The option that an argument names, and the value that is attached to it. -/
def named? (switches : List Switch) (arg : String) : Option (Switch × Option String) :=
  match arg.toList with
  | '-' :: '-' :: long => do
    let name := String.ofList (long.takeWhile (· != '='))
    let switch ← switches.find? (·.name == name)
    return (switch, match long.dropWhile (· != '=') with
      | [] => none
      | _ :: value => some (String.ofList value))
  | '-' :: letter :: attached => do
    let switch ← switches.find? (·.letter == some letter)
    return (switch, match attached with
      | [] => none
      | '=' :: value => some (String.ofList value)
      | value => some (String.ofList value))
  | _ => none

/-- Reads the options of a command; two dashes may end them. -/
def read? (switches : List Switch) : Switches → List String → Option Switches
  | given, [] => some given
  | given, ["--"] => some given
  | given, arg :: rest =>
    match named? switches arg, rest with
    | some (switch, some value), rest =>
      if switch.hasValue then (given.add? switch value).bind (read? switches · rest) else none
    | some (switch, none), [] =>
      if switch.hasValue then none else given.add? switch ""
    | some (switch, none), next :: rest =>
      if !switch.hasValue then (given.add? switch "").bind (read? switches · (next :: rest))
      else if isValue next then (given.add? switch next).bind (read? switches · rest)
      else none
    | none, _ => none

end Switches

/-- What the program is asked to do. -/
inductive Request where
  /-- Builds the code model of a document and prints its summary. -/
  | model (input : Option String) (format : Format) (namespaceName : Option String)
      (generateEmptyClasses : Bool)
  /-- Tells whether a document has a code model. -/
  | validate (input : String)
  /-- Writes the settings of a new project. -/
  | setUp (force : Bool)
  | version
deriving DecidableEq, Repr

namespace Request

/-- The option that names the document. -/
def inputSwitch : Switch := { name := "input", letter := some 'i' }

/-- The formats of a summary by name. -/
def formats : List (String × Format) :=
  [("yaml", .yaml), ("json", .json)]

/-- The path of the document, which must not be empty. -/
def path? (given : Switches) : Option (Option String) :=
  match given.get? "input" with
  | some "" => none
  | path => some path

/-- The request of a command with its options. -/
def ofCommand? (command : String) (args : List String) : Option Request :=
  match command with
  | "model" => do
    let given ← Switches.read? [inputSwitch, { name := "format" }, { name := "namespace" },
      { name := "generate-empty-classes", hasValue := false }] [] args
    return .model (← path? given) (← formats.lookup ((given.get? "format").getD "yaml"))
      (given.get? "namespace") (Entries.contains given "generate-empty-classes")
  | "validate" => do
    let given ← Switches.read? [inputSwitch] [] args
    return .validate (← (← path? given))
  | "init" => do
    let given ← Switches.read? [{ name := "force", hasValue := false }] [] args
    return .setUp (Entries.contains given "force")
  | _ => none

/-- The request of a command line. -/
def ofArgs? : List String → Option Request
  | [] => none
  | arg :: args =>
    if arg == "--version" || Text.startsWith arg "-V" then some .version
    else ofCommand? arg args

end Request

end ApiModel.Command
