import ApiModel.Build.State
/-!
# Project settings

The settings of a project stand in a YAML file beside its document.  A setting that the file
does not mention has its default, an unknown one is passed over, and a repeated one is an
error.
-/

namespace ApiModel

/-- The settings of a project: the options of a build and the document that it is for. -/
structure Config extends Options where
  input : String := "openapi.yaml"
deriving DecidableEq, Repr

namespace Config

/-- The name of the file with the settings. -/
def fileName : String := ".oam.yaml"

/-- The settings of a new project, as a file. -/
def template : String :=
  String.intercalate "\n" [
    "# oam configuration",
    "input: openapi.yaml",
    "namespace: \"\"",
    "# models_name: Models",
    "# client_name: MyClient            # used when info.title is missing",
    "",
    "generate_empty_classes: false      # allow types whose ancestors declare no properties",
    "legacy_collection_format: true     " ++
      "# unset style/explode on a parameter means no collection format",
    ""]

/-- The names of the settings. -/
def fieldNames : List String :=
  ["input", "namespace", "models_name", "client_name", "generate_empty_classes",
    "legacy_collection_format"]

/-- Reads settings. -/
def ofTree? (r : Reading) (tree : Tree) : Option Config := do
  let record ← Record.ofClosed? r fieldNames tree
  let settings : Config := {}
  return {
    input := ← record.orElse? "input" settings.input (Tree.string? r)
    namespaceName := ← record.orElse? "namespace" settings.namespaceName (Tree.string? r)
    modelsName := ← record.optional? "models_name" (Tree.string? r)
    clientName := ← record.optional? "client_name" (Tree.string? r)
    generateEmptyClasses := ← record.orElse? "generate_empty_classes"
      settings.generateEmptyClasses (Tree.bool? r)
    legacyCollectionFormat := ← record.orElse? "legacy_collection_format"
      settings.legacyCollectionFormat (Tree.bool? r) }

/-- Reads the settings of a file. -/
def parse? (text : String) : Option Config :=
  Format.yaml.read? ofTree? text

end Config

end ApiModel
