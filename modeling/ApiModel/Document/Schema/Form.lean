import ApiModel.Document.Schema
/-!
# The written form of schemas

Reading a schema from a tree and writing it back.  A few keywords are looked at as a whole
before their kind is known, and everything below them is read typed: `type`,
`discriminator`, `additionalProperties` and the exclusive bounds.
-/

namespace ApiModel

namespace DataType

/-- Reads a type. -/
def ofTree? (r : Reading) (tree : Tree) : Option DataType :=
  (tree.string? r).map ofName

/-- The written form of a type. -/
def toTree (type : DataType) : Tree :=
  .string type.name

end DataType

namespace TypeSet

/-- Reads the `type` keyword. -/
def ofTree? (tree : Tree) : Option TypeSet := do
  let tree ← tree.whole?
  match DataType.ofTree? .typed tree with
  | some type => return .single type
  | none => return .several (← tree.listOf? .typed (DataType.ofTree? .typed))

/-- The written form of the `type` keyword. -/
def toTree : TypeSet → Tree
  | .single type => type.toTree
  | .several types => Tree.ofList DataType.toTree types

end TypeSet

namespace Discriminator

/-- Reads a discriminator: the name of the property or a record. -/
def ofTree? (tree : Tree) : Option Discriminator := do
  let tree ← tree.whole?
  match tree.string? .typed with
  | some name => return { propertyName := name }
  | none =>
    let record ← Record.ofClosed? .typed ["propertyName", "mapping"] tree
    return {
      propertyName := ← record.required? "propertyName" (Tree.string? .typed)
      mapping := ← record.orElse? "mapping" []
        (Tree.entriesOf? .typed (Tree.string? .typed)) }

/-- The written form of a discriminator, which is always a record. -/
def toTree (d : Discriminator) : Tree :=
  Tree.ofFields ([("propertyName", .string d.propertyName)] ++
    Tree.entriesField "mapping" .string d.mapping)

end Discriminator

namespace ExclusiveBound

/-- Reads an exclusive bound. -/
def ofTree? (tree : Tree) : Option ExclusiveBound := do
  let tree ← tree.whole?
  match tree.bool? .typed with
  | some exclusive => return .flag exclusive
  | none => return .value (← tree.number?)

/-- The written form of an exclusive bound. -/
def toTree : ExclusiveBound → Tree
  | .flag exclusive => .bool exclusive
  | .value limit => .number limit

end ExclusiveBound

namespace SchemaKeywords

/-- Reads the keywords that hold no schemas. -/
def ofRecord? (record : Record) : Option SchemaKeywords := do
  let r := record.reading
  return {
    reference := ← record.optional? "$ref" (Tree.string? r)
    types := ← record.optional? "type" TypeSet.ofTree?
    format := ← record.optional? "format" (Tree.string? r)
    title := ← record.optional? "title" (Tree.string? r)
    description := ← record.optional? "description" (Tree.string? r)
    defaultValue := ← record.optional? "default" (Tree.json? r)
    nullable := ← record.optional? "nullable" (Tree.bool? r)
    readOnly := ← record.optional? "readOnly" (Tree.bool? r)
    deprecated := ← record.optional? "deprecated" (Tree.bool? r)
    externalDocs := ← record.optional? "externalDocs" (ExternalDocs.ofTree? r)
    required := ← record.orElse? "required" [] (Tree.listOf? r (Tree.string? r))
    discriminator := ← record.optional? "discriminator" Discriminator.ofTree?
    enumValues := ← record.optional? "enum" (Tree.listOf? r (Tree.json? r))
    minimum := ← record.optional? "minimum" Tree.number?
    maximum := ← record.optional? "maximum" Tree.number?
    exclusiveMinimum := ← record.optional? "exclusiveMinimum" ExclusiveBound.ofTree?
    exclusiveMaximum := ← record.optional? "exclusiveMaximum" ExclusiveBound.ofTree?
    multipleOf := ← record.optional? "multipleOf" Tree.number?
    minLength := ← record.optional? "minLength" (Tree.count? r)
    maxLength := ← record.optional? "maxLength" (Tree.count? r)
    pattern := ← record.optional? "pattern" (Tree.string? r)
    minItems := ← record.optional? "minItems" (Tree.count? r)
    maxItems := ← record.optional? "maxItems" (Tree.count? r)
    uniqueItems := ← record.optional? "uniqueItems" (Tree.bool? r)
    extensions := ← record.extensions? }

/-- The written fields that come before the ones that hold schemas. -/
def headFields (k : SchemaKeywords) : List (String × Tree) :=
  Tree.optionalField "$ref" .string k.reference ++
  Tree.optionalField "type" TypeSet.toTree k.types ++
  Tree.optionalField "format" .string k.format ++
  Tree.optionalField "title" .string k.title ++
  Tree.optionalField "description" .string k.description ++
  Tree.optionalField "default" Tree.ofJson k.defaultValue ++
  Tree.optionalField "nullable" .bool k.nullable ++
  Tree.optionalField "readOnly" .bool k.readOnly ++
  Tree.optionalField "deprecated" .bool k.deprecated ++
  Tree.optionalField "externalDocs" ExternalDocs.toTree k.externalDocs

/-- The written fields that come after the ones that hold schemas, extensions last. -/
def tailFields (k : SchemaKeywords) : List (String × Tree) :=
  Tree.listField "required" .string k.required ++
  Tree.optionalField "discriminator" Discriminator.toTree k.discriminator ++
  Tree.optionalField "enum" (Tree.ofList Tree.ofJson) k.enumValues ++
  Tree.optionalField "minimum" .number k.minimum ++
  Tree.optionalField "maximum" .number k.maximum ++
  Tree.optionalField "exclusiveMinimum" ExclusiveBound.toTree k.exclusiveMinimum ++
  Tree.optionalField "exclusiveMaximum" ExclusiveBound.toTree k.exclusiveMaximum ++
  Tree.optionalField "multipleOf" .number k.multipleOf ++
  Tree.optionalField "minLength" Tree.ofCount k.minLength ++
  Tree.optionalField "maxLength" Tree.ofCount k.maxLength ++
  Tree.optionalField "pattern" .string k.pattern ++
  Tree.optionalField "minItems" Tree.ofCount k.minItems ++
  Tree.optionalField "maxItems" Tree.ofCount k.maxItems ++
  Tree.optionalField "uniqueItems" .bool k.uniqueItems ++
  Tree.extensionFields k.extensions

end SchemaKeywords

namespace Schema

/-- The names of the fields of a schema. -/
def fieldNames : List String :=
  ["$ref", "type", "format", "title", "description", "default", "nullable", "readOnly",
    "deprecated", "externalDocs", "properties", "required", "additionalProperties",
    "discriminator", "allOf", "items", "enum", "minimum", "maximum", "exclusiveMinimum",
    "exclusiveMaximum", "multipleOf", "minLength", "maxLength", "pattern", "minItems",
    "maxItems", "uniqueItems"]

/-- Reads the `additionalProperties` keyword, given how to read a schema as typed. -/
def additionalOfTree? (read : Tree → Option Schema) (tree : Tree) :
    Option (AdditionalProperties Schema) := do
  let tree ← tree.whole?
  match tree.bool? .typed with
  | some allowed => return .flag allowed
  | none => return .schema (← read tree)

/-- Reads a schema whose tree has a depth within the fuel. -/
def ofTreeWithin? : Nat → Reading → Tree → Option Schema
  | 0, _, _ => none
  | depth + 1, r, tree => do
    let record ← Record.ofOpen? r fieldNames tree
    let keywords ← SchemaKeywords.ofRecord? record
    let read := ofTreeWithin? depth r
    return {
      toSchemaKeywords := keywords
      properties := ← record.orElse? "properties" [] (Tree.entriesOf? r read)
      additionalProperties := ← record.optional? "additionalProperties"
        (additionalOfTree? (ofTreeWithin? depth .typed))
      allOf := ← record.orElse? "allOf" [] (Tree.listOf? r read)
      items := ← record.optional? "items" read }

/-- Reads a schema. -/
def ofTree? (r : Reading) (tree : Tree) : Option Schema :=
  ofTreeWithin? tree.depth r tree

mutual

/-- The written form of a schema. -/
def toTree : Schema → Tree
  | ⟨keywords, properties, additional, allOf, items⟩ =>
    Tree.ofFields (keywords.headFields ++ propertiesFields properties ++
      additionalFields additional ++ allOfFields allOf ++ itemsFields items ++
      keywords.tailFields)

/-- The written form of properties. -/
def propertyTrees : List (String × Schema) → List (String × Tree)
  | [] => []
  | (name, s) :: rest => (name, s.toTree) :: propertyTrees rest

/-- The field of the properties, if there are any. -/
def propertiesFields : List (String × Schema) → List (String × Tree)
  | [] => []
  | (name, s) :: rest =>
    [("properties", Tree.ofFields ((name, s.toTree) :: propertyTrees rest))]

/-- The field of the additional properties, if it is written. -/
def additionalFields : Option (AdditionalProperties Schema) → List (String × Tree)
  | none => []
  | some (.flag allowed) => [("additionalProperties", .bool allowed)]
  | some (.schema s) => [("additionalProperties", s.toTree)]

/-- The written form of members. -/
def memberTrees : List Schema → List Tree
  | [] => []
  | s :: rest => s.toTree :: memberTrees rest

/-- The field of the members, if there are any. -/
def allOfFields : List Schema → List (String × Tree)
  | [] => []
  | s :: rest => [("allOf", .sequence (s.toTree :: memberTrees rest))]

/-- The field of the items, if it is written. -/
def itemsFields : Option Schema → List (String × Tree)
  | none => []
  | some s => [("items", s.toTree)]

end

end Schema

end ApiModel
