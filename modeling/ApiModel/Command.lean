import ApiModel.Build.Service
import ApiModel.Command.Request
import ApiModel.Config
import ApiModel.Summary
import ApiModel.Yaml.Printer
/-!
# Running commands

What the program answers to a request: an exit code and the texts of its two output streams.
A command reads files by a function it is given, so that the same definition runs on the
files of a system and on a list of texts.
-/

namespace ApiModel

/-- Why a file cannot be read. -/
inductive FileError where
  | system (code : Nat) (reason : String)
  /-- The file is no UTF-8 text. -/
  | notText
deriving DecidableEq, Repr

namespace FileError

/-- There is no such file. -/
def missing : FileError := .system 2 "No such file or directory"

/-- There is a directory in place of a file. -/
def isDirectory : FileError := .system 21 "Is a directory"

/-- There is a file in place of a directory. -/
def notDirectory : FileError := .system 20 "Not a directory"

/-- The message of an error. -/
def message : FileError → String
  | .system code reason => reason ++ " (os error " ++ toString code ++ ")"
  | .notText => "stream did not contain valid UTF-8"

end FileError

/-- What a command leaves behind. -/
structure Outcome where
  code : Nat := 0
  output : String := ""
  errors : String := ""
  /-- The settings that are written to their file. -/
  settings : Option String := none
deriving DecidableEq, Repr

/-- A failure with the failures that led to it, the nearest first. -/
structure Failure where
  message : String
  causes : List String := []

namespace Failure

/-- A cause in its place: every line is indented, and the first one has the number of the
cause, if there are several. -/
def causeText (number : Option Nat) (cause : String) : String :=
  match number with
  | none => "    " ++ String.ofList (cause.toList.flatMap fun c =>
      if c = '\n' then c :: "    ".toList else [c])
  | some n =>
    let digits := (toString n).toList
    String.ofList (List.replicate (5 - digits.length) ' ' ++ digits) ++ ": " ++
      String.ofList (cause.toList.flatMap fun c =>
        if c = '\n' then c :: "       ".toList else [c])

/-- The report of a failure. -/
def text (f : Failure) : String :=
  let causes := match f.causes with
    | [] => ""
    | [cause] => "\n\nCaused by:\n" ++ causeText none cause
    | several => "\n\nCaused by:" ++ String.join
        (several.zipIdx.map fun (cause, n) => "\n" ++ causeText (some n) cause)
  "Error: " ++ f.message ++ causes ++ "\n"

/-- A file that cannot be read. -/
def ofFile (path : String) (error : FileError) : Failure :=
  { message := "failed to read " ++ path, causes := [error.message] }

/-- A document that cannot be read. -/
def ofParse (error : ParseError) : Failure :=
  { message := error.message }

/-- A code model that cannot be built. -/
def ofBuild (error : BuildError) : Failure :=
  { message := error.message, causes := error.cause?.toList }

/-- A failure inside a larger step. -/
def within (f : Failure) (step : String) : Failure :=
  { message := step, causes := f.message :: f.causes }

/-- What a command leaves behind that fails after it has written some lines. -/
def outcome (f : Failure) (lines : String) : Outcome :=
  { code := 1, errors := lines ++ f.text }

end Failure

namespace Format

/-- The format of a file by its name: JSON for the ending `json`, else YAML. -/
def ofPath (path : String) : Format :=
  let segments := (path.splitOn "/").filter fun s => s != "" && s != "."
  let name := (segments.getLast?.getD "").toList
  let ending := Text.afterLast '.' name
  if ending == "json".toList && ending.length + 1 < name.length then .json else .yaml

end Format

namespace Command

/-- What the program tells about itself. -/
def versionText : String := "oam 0.10.0\n"

/-- What the program tells when it cannot make sense of its arguments. -/
def usageText : String :=
  String.intercalate "\n" [
    "Usage: oam model [--input FILE] [--format yaml|json] [--namespace NAME] " ++
      "[--generate-empty-classes]",
    "       oam validate --input FILE",
    "       oam init [--force]",
    "       oam --version",
    ""]

variable {m : Type → Type} [Monad m]

/-- A way to read files by their paths. -/
abbrev Reader (m : Type → Type) := String → m (Except FileError String)

/-- Reads the settings of the project, or takes the defaults where there is no file. -/
def loadConfig (read : Reader m) : m (Except Failure Config) := do
  match ← read Config.fileName with
  | .ok text =>
    match Config.parse? text with
    | some config => return .ok config
    | none => return .error { message := "failed to parse config " ++ Config.fileName }
  | .error error =>
    if error == .missing then return .ok {}
    else
      let message := "failed to read config " ++ Config.fileName ++ ": " ++ error.message
      return .error { message := message }

/-- Reads a document. -/
def loadDocument (read : Reader m) (path : String) : m (Except Failure Document) := do
  match ← read path with
  | .error error => return .error (.ofFile path error)
  | .ok text => return (Document.parse (.ofPath path) text).mapError .ofParse

/-- A summary as a text. -/
def summaryText (format : Format) (summary : Json) : String :=
  match format with
  | .yaml => Yaml.Printer.text summary
  | .json => summary.pretty ++ "\n"

/-- Prints the summary of the code model of a document. -/
def runModel (read : Reader m) (input : Option String) (format : Format)
    (namespaceName : Option String) (generateEmptyClasses : Bool) : m Outcome := do
  match ← loadConfig read with
  | .error failure => return failure.outcome ""
  | .ok config =>
    let path := input.getD config.input
    match ← loadDocument read path with
    | .error failure => return failure.outcome ""
    | .ok document =>
      match document.build { config.toOptions with
          namespaceName := namespaceName.getD config.namespaceName
          generateEmptyClasses := config.generateEmptyClasses || generateEmptyClasses } with
      | .error error =>
        return ((Failure.ofBuild error).within
          ("failed to build the code model of " ++ path)).outcome ""
      | .ok model => return { output := summaryText format model.summary }

/-- A line of a report: a heading and a number. -/
def countLine (heading : String) (count : Nat) : String :=
  "  " ++ heading ++ ": " ++ toString count ++ "\n"

/-- The report on a document that can be read. -/
def documentReport (d : Document) : String :=
  "Valid OpenAPI " ++ d.openapi ++ " document: " ++
    ((d.info.bind Info.title).getD "<untitled>") ++ "\n" ++
  countLine "Paths" (d.paths.length + d.customPaths.length) ++
  countLine "Schemas" d.components.schemas.length

/-- The report on a code model. -/
def modelReport (model : CodeModel) : String :=
  countLine "Methods" model.methods.length ++
  countLine "Model types" model.modelTypes.length ++
  countLine "Enum types" model.enumTypes.length

/-- Reports whether a document has a code model. -/
def runValidate (read : Reader m) (input : String) : m Outcome := do
  match ← loadDocument read input with
  | .error failure => return failure.outcome ""
  | .ok document =>
    let lines := documentReport document
    match ← loadConfig read with
    | .error failure => return failure.outcome lines
    | .ok config =>
      match document.build config.toOptions with
      | .error error => return (Failure.ofBuild error).outcome lines
      | .ok model =>
        return { errors := lines ++ modelReport model ++ "Validation successful.\n" }

/-- Writes the settings of a new project; those of an old one only when forced to. -/
def runSetUp (read : Reader m) (force : Bool) : m Outcome := do
  let isNew := match ← read Config.fileName with
    | .ok _ => false
    | .error error => error == .missing
  if isNew || force then
    return {
      errors := "Created " ++ Config.fileName ++ "\n"
      settings := some Config.template }
  else
    return Failure.outcome
      { message := Config.fileName ++ " already exists. Use --force to overwrite." } ""

/-- Answers a command line. -/
def run (read : Reader m) (args : List String) : m Outcome :=
  match Request.ofArgs? args with
  | none => return { code := 2, errors := usageText }
  | some .version => return { output := versionText }
  | some (.model input format namespaceName generateEmptyClasses) =>
    runModel read input format namespaceName generateEmptyClasses
  | some (.validate input) => runValidate read input
  | some (.setUp force) => runSetUp read force

end Command

end ApiModel
