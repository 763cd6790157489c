import ApiModel.Document.Schema.Form
/-!
# Media types

The entries of the content of a request body or response, and the two families of media
types that a model can be read from.
-/

namespace ApiModel

/-- An entry of a content map. -/
structure MediaType where
  schema : Option Schema := none
  extensions : Extensions := []

/-- Content by media type. -/
abbrev Content := Entries MediaType

namespace MediaType

/-- Reads a media type entry. -/
def ofTree? (r : Reading) (tree : Tree) : Option MediaType := do
  let record ← Record.ofOpen? r ["schema"] tree
  return {
    schema := ← record.optional? "schema" (Schema.ofTree? r)
    extensions := ← record.extensions? }

/-- The written form of a media type entry. -/
def toTree (m : MediaType) : Tree :=
  Tree.ofFields (Tree.optionalField "schema" Schema.toTree m.schema ++
    Tree.extensionFields m.extensions)

/-- The media type of JSON. -/
def json : String := "application/json"

/-- The media type of XML. -/
def xml : String := "application/xml"

/-- Whether a media type is JSON, parameters aside. -/
def isJson (name : String) : Bool :=
  Text.startsWithLetters name json

/-- Whether a media type is XML, parameters aside. -/
def isXml (name : String) : Bool :=
  Text.startsWithLetters name xml

/-- The media type that a request is sent with: the first JSON, else the first XML, else the
first there is, else JSON.  JSON and XML get a character set unless they name one. -/
def negotiate (consumed : List String) : String :=
  let chosen := ((consumed.find? isJson).or (consumed.find? isXml)).or consumed.head?
  let chosen := chosen.getD json
  if (isJson chosen || isXml chosen) && !Text.containsWord (Text.lowerCase chosen) "charset=" then
    chosen ++ "; charset=utf-8"
  else chosen

end MediaType

end ApiModel
