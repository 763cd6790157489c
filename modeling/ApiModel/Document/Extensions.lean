import ApiModel.Tree.Record
/-!
# Vendor extensions

The extensions that the code model understands, by name, and the two ways of reading one:
as a flag and as a text.
-/

namespace ApiModel.Extensions

/-- Names an enum and describes its literals. -/
def enumKey : String := "x-ms-enum"

/-- Gives a response one schema for all its headers. -/
def headersKey : String := "x-ms-headers"

/-- Makes a header stand for a family of headers with a common start. -/
def headerCollectionKey : String := "x-ms-header-collection-prefix"

/-- Marks a response as an error. -/
def errorResponseKey : String := "x-ms-error-response"

/-- Keeps a property or an operation off the wire. -/
def noWireKey : String := "x-ms-no-wire"

/-- Makes a property or an operation an alias of another one. -/
def forwardToKey : String := "x-ms-forward-to"

/-- The value of the discriminator that stands for a type. -/
def discriminatorValueKey : String := "x-ms-discriminator-value"

/-- Describes the parameters of the host name. -/
def parameterizedHostKey : String := "x-ms-parameterized-host"

/-- Names the parameter of a request body. -/
def requestBodyNameKey : String := "x-ms-requestBody-name"

/-- Places the parameter of a request body. -/
def requestBodyIndexKey : String := "x-ms-requestBody-index"

/-- Tells that a value may be null. -/
def nullableKey : String := "x-nullable"

/-- Tells that an operation is deprecated, and what replaces it. -/
def deprecatedKey : String := "x-deprecated"

/-- A flag: `true`, or the word "true" in any letter case. -/
def flag (extensions : Extensions) (key : String) : Bool :=
  (Entries.get? extensions key).any Json.isTrue

/-- A text. -/
def text? (extensions : Extensions) (key : String) : Option String :=
  (Entries.get? extensions key).bind Json.string?

/-- Reads a bag of extensions on its own. -/
def ofTree? (r : Reading) (tree : Tree) : Option Extensions := do
  let values ← tree.entriesOf? r (Tree.json? r)
  return values.filter fun (name, _) => Record.isExtension name

end ApiModel.Extensions
