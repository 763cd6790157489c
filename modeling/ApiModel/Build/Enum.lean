import ApiModel.Build.Facets
/-!
# Building enums

An enum takes its literals from the schema.  The extension for enums names it and may
describe the literals, which must be the same set; enums of one name are one enum and must
agree on everything but their documentation.
-/

namespace ApiModel.Build

/-- Gives a schema the extension for enums of the declaration around it, unless it has one of
its own. -/
def withEnumExtension (s : Schema) (declared : Extensions) : Schema :=
  match Entries.get? declared Extensions.enumKey with
  | some extension =>
    if Entries.contains s.extensions Extensions.enumKey then s
    else { s with extensions := Entries.insert s.extensions Extensions.enumKey extension }
  | none => s

/-- A literal as the extension for enums describes it. -/
def describedLiteral (entry : Json) : EnumValue :=
  let literal := ((entry.member? "value").map Json.literal).getD ""
  { name := ((entry.member? "name").bind Json.string?).getD literal
    serializedName := literal
    description := (entry.member? "description").bind Json.string?
    allowedValues :=
      (((entry.member? "allowedValues").bind Json.array?).getD []).map Json.literal }

/-- Whether two lists have the same members. -/
def sameMembers (as bs : List String) : Bool :=
  as.all bs.contains && bs.all as.contains

/-- The enum that a schema declares, before it is compared with the others of its name. -/
def declaredEnum (s : Schema) (name : String) : Except BuildError EnumType := do
  let literals := (s.enumValues.getD []).map Json.literal
  let declared : EnumType := {
    underlying := (← s.primitive name).kind
    values := literals.map EnumValue.ofLiteral
    documentation := s.description }
  match Entries.get? s.extensions Extensions.enumKey with
  | none => return declared
  | some extension =>
    match ((extension.member? "name").bind Json.string?).filter (!Text.isBlankText ·) with
    | none => throw (.missingEnumName name)
    | some enumName =>
      let named := { declared with
        name := enumName
        modelAsString := (extension.member? "modelAsString").any Json.isTrue
        oldModelAsString := (extension.member? "oldModelAsString").any Json.isTrue }
      match (extension.member? "values").bind Json.array? with
      | none => return named
      | some entries =>
        let described := { named with values := entries.map describedLiteral }
        if sameMembers literals described.serializedValues then return described
        else throw (.enumValueMismatch enumName literals described.serializedValues)

/-- Builds the enum of a schema and registers it under its name, if it has one. -/
def buildEnum (s : Schema) (name : String) : Build EnumType := do
  let declared ← match declaredEnum s name with
    | .ok declared => pure declared
    | .error e => throw e
  if declared.isAnonymous then return declared
  match (← get).model.enumType? declared.name with
  | some existing =>
    if existing.sameShape declared then
      return { existing with documentation := declared.documentation }
    else
      throw (.duplicateEnumName declared.name existing.serializedValues
        declared.serializedValues)
  | none =>
    modifyModel fun m => { m with enumTypes := m.enumTypes ++ [declared] }
    return declared

end ApiModel.Build
