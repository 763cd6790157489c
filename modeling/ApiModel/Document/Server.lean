import ApiModel.Tree.Record
/-!
# Servers

The address of a service, which may hold variables in braces.
-/

namespace ApiModel

/-- A variable of a server address. -/
structure ServerVariable where
  defaultValue : String := ""
  description : Option String := none
  enumValues : List String := []
  extensions : Extensions := []

namespace ServerVariable

/-- Reads a server variable. -/
def ofTree? (r : Reading) (tree : Tree) : Option ServerVariable := do
  let record ← Record.ofOpen? r ["default", "description", "enum"] tree
  return {
    defaultValue := ← record.orElse? "default" "" (Tree.string? r)
    description := ← record.optional? "description" (Tree.string? r)
    enumValues := ← record.orElse? "enum" [] (Tree.listOf? r (Tree.string? r))
    extensions := ← record.extensions? }

/-- The written form of a server variable. -/
def toTree (v : ServerVariable) : Tree :=
  Tree.ofFields ([("default", .string v.defaultValue)] ++
    Tree.optionalField "description" .string v.description ++
    Tree.listField "enum" .string v.enumValues ++
    Tree.extensionFields v.extensions)

end ServerVariable

/-- The address of a service. -/
structure Server where
  url : String
  description : Option String := none
  templateVariables : Entries ServerVariable := []
  extensions : Extensions := []

namespace Server

/-- Reads a server. -/
def ofTree? (r : Reading) (tree : Tree) : Option Server := do
  let record ← Record.ofOpen? r ["url", "description", "variables"] tree
  return {
    url := ← record.required? "url" (Tree.string? r)
    description := ← record.optional? "description" (Tree.string? r)
    templateVariables := ← record.orElse? "variables" []
      (Tree.entriesOf? r (ServerVariable.ofTree? r))
    extensions := ← record.extensions? }

/-- The written form of a server. -/
def toTree (s : Server) : Tree :=
  Tree.ofFields ([("url", .string s.url)] ++
    Tree.optionalField "description" .string s.description ++
    Tree.entriesField "variables" ServerVariable.toTree s.templateVariables ++
    Tree.extensionFields s.extensions)

end Server

end ApiModel
