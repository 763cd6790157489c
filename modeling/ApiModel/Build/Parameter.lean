import ApiModel.Build.Type
/-!
# Building parameters

The parameters of an operation are those of its path, then its own, then what its request
body is taken apart into.  An own parameter replaces the one of the path with its name and
location.  A body of form data becomes one parameter per property, any other body a single
parameter.
-/

namespace ApiModel

/-- A parameter as declared, with the pointer of its schema. -/
structure SourceParameter where
  parameter : Parameter
  /-- Whether it was reached by a reference. -/
  fromReference : Bool := false
  schemaId : Pointer

namespace SourceParameter

/-- Name and location, which identify a parameter. -/
def identity (s : SourceParameter) : String × ParameterLocation :=
  (s.parameter.name, s.parameter.location)

/-- Puts a parameter in the place of the first one with its identity, or at the end. -/
def merge : List SourceParameter → SourceParameter → List SourceParameter
  | [], own => [own]
  | s :: rest, own => if s.identity == own.identity then own :: rest else s :: merge rest own

/-- Appends "Body" to a name until no name of the list equals it, in any letter case. -/
def distinctBodyName (taken : List String) : Nat → String → String
  | 0, name => name
  | attempts + 1, name =>
    if taken.any (Text.sameLetters · name) then distinctBodyName taken attempts (name ++ "Body")
    else name

/-- A body parameter gets a name that no other parameter has; a query parameter with the name
of a path parameter is required. -/
def deduplicate (sources : List SourceParameter) : List SourceParameter :=
  let names (p : ParameterLocation → Bool) : List String :=
    (sources.filter fun s => p s.parameter.location).map fun s => s.parameter.name
  let others := names (· != .body)
  let inPath := names (· == .path)
  sources.map fun s =>
    let p := s.parameter
    match p.location with
    | .body =>
      { s with parameter :=
          { p with name := distinctBodyName others (others.length + 1) p.name } }
    | .query =>
      { s with parameter :=
          { p with required := p.required || inPath.any (Text.sameLetters · p.name) } }
    | _ => s

end SourceParameter

namespace RequestBody

/-- The pointer of the schema of a request body. -/
def schemaPointer (b : RequestBody) (pointer : Pointer) : Pointer :=
  match b.content.head? with
  | some (mediaType, _) => ((pointer.child "content").child mediaType).child "schema"
  | none => pointer.child "content"

/-- The parameter that stands for a body as a whole. -/
def asParameter (b : RequestBody) (pointer : Pointer) : SourceParameter :=
  { parameter := {
      name := b.parameterName
      location := .body
      description := b.description
      required := b.required
      schema := b.schema?
      extensions := b.extensions }
    schemaId := b.schemaPointer pointer }

/-- The parameters that stand for the properties of a body of form data. -/
def asFields (b : RequestBody) (view : Expanded) : List SourceParameter :=
  view.properties.map fun (name, property) =>
    { parameter := {
        name := name
        location := .formData
        description := property.schema.description
        required := view.isRequired name
        schema := some property.schema
        extensions := b.extensions }
      schemaId := property.id }

end RequestBody

namespace Components

/-- The pointer that a reference into a section stands for. -/
def sectionPointer (target : ComponentSection) (name : String) : Pointer :=
  ⟨"#/components/" ++ target.name ++ "/" ++ name⟩

/-- The pointer of the component that a reference names. -/
def referencePointer (target : ComponentSection) (reference : String) : Pointer :=
  sectionPointer target (Reference.componentName reference target.name)

/-- Takes a request body apart into parameters. -/
def recast (c : Components) (b : RequestBody) (pointer : Pointer) :
    Except ResolveError (List SourceParameter) :=
  if b.isFormData then
    match b.schema? with
    | none => .ok []
    | some schema => do
      let node ← c.unwrap schema (b.schemaPointer pointer)
      return b.asFields (← c.expand node)
  else .ok [b.asParameter pointer]

/-- The parameters that one declaration stands for. -/
def sourceParameter (c : Components) (declared : RefOr Parameter) (pointer : Pointer) :
    Except ResolveError (List SourceParameter) :=
  match declared with
  | .node parameter => .ok [{ parameter := parameter, schemaId := pointer.child "schema" }]
  | .reference path => do
    match ← c.resolveParameter declared with
    | .parameter parameter =>
      return [{
        parameter := parameter
        fromReference := true
        schemaId := (referencePointer .parameters path).child "schema" }]
    | .requestBody body => c.recast body (referencePointer .requestBodies path)

/-- The parameters that a list of declarations stands for. -/
def sourceParameters (c : Components) (declared : List (RefOr Parameter)) (pointer : Pointer) :
    Except ResolveError (List SourceParameter) := do
  return (← declared.zipIdx.mapM fun (declared, index) =>
    c.sourceParameter declared (pointer.item index)).flatten

/-- The pointer of a request body. -/
def bodyPointer (body : RefOr RequestBody) (operationPointer : Pointer) : Pointer :=
  match body with
  | .reference path => referencePointer .requestBodies path
  | .node _ => operationPointer.child "requestBody"

/-- The parameters of an operation, the request body among them. -/
def collectParameters (c : Components) (item : PathItem) (operation : Operation)
    (pathPointer operationPointer : Pointer) : Except ResolveError (List SourceParameter) := do
  let shared ← c.sourceParameters item.parameters (pathPointer.child "parameters")
  let own ← c.sourceParameters operation.parameters (operationPointer.child "parameters")
  let merged := own.foldl SourceParameter.merge shared
  match operation.requestBody with
  | none => return merged
  | some declared =>
    let body ← c.resolveRequestBody declared
    let block ← c.recast body (bodyPointer declared operationPointer)
    match body.parameterIndex? with
    | some index =>
      if index ≤ merged.length then return merged.take index ++ block ++ merged.drop index
      else return merged ++ block
    | none => return merged ++ block

end Components

namespace Build

/-- Builds the type of a parameter, with what the parameter takes over from its schema. -/
def buildParameterType (input : BuildInput) (source : SourceParameter) :
    Build (ModelType × Facets) := do
  let declared := source.parameter
  let required := declared.isRequired
  match declared.schema.map (withEnumExtension · declared.extensions) with
  | some schema =>
    let type ← buildType input schema source.schemaId (schema.typeNameOr declared.name) required
    let target ← resolving (input.components.unwrap schema source.schemaId)
    return (type, Facets.ofSchema target.schema required)
  | none =>
    if declared.location == .body then throw (.missingBodySchema declared.name)
    else return (ModelType.object, {})

/-- Builds a parameter. -/
def buildParameter (input : BuildInput) (source : SourceParameter) : Build MethodParameter := do
  let declared := source.parameter
  let required := declared.isRequired
  let (type, facets) ← buildParameterType input source
  let format := if declared.location == .body then CollectionFormat.none
    else CollectionFormat.ofParameter declared.location declared.style declared.explode
      input.options.legacyCollectionFormat
  let isSequence := match type with
    | .sequence _ => true
    | _ => false
  let properties := (← get).model.properties
  return {
    name := declared.name
    serializedName := declared.name
    location := declared.location
    type := type
    documentation := declared.description.or facets.documentation
    defaultValue := facets.defaultValue
    isRequired := required
    isConstant := facets.isConstant
    deprecated := declared.isDeprecated
    collectionFormat := if format == .none && isSequence then .csv else format
    constraints := facets.constraints
    extensions := declared.extensions
    clientProperty :=
      if source.fromReference then
        properties.findIdx? fun p => p.serializedName == some declared.name
      else none }

/-- A `Content-Type` header without literals of its own chooses between the consumed media
types, if there are several. -/
def chooseContentType (source : SourceParameter) (consumed : List String) :
    Build SourceParameter := do
  let p := source.parameter
  if (p.schema.bind (·.enumValues)).isSome || consumed.length ≤ 1 then return source
  else
    let schema := p.schema.getD (.ofType .string)
    if !Entries.contains p.extensions Extensions.enumKey then
      modify fun s => { s with contentTypes := consumed.foldl addNew s.contentTypes }
    return { source with parameter := { p with
      schema := some { schema with enumValues := some (consumed.map .string) }
      required := true } }

/-- Builds a parameter of a method.  The headers that every client sets by itself are left
out. -/
def buildMethodParameter (input : BuildInput) (consumed : List String)
    (source : SourceParameter) : Build (Option MethodParameter) := do
  let p := source.parameter
  if p.location == .header && (p.name == "Accept" || p.name == "Authorization") then
    return none
  else if p.location == .header && p.name == "Content-Type" then
    let source ← chooseContentType source consumed
    return some (← buildParameter input source)
  else return some (← buildParameter input source)

/-- Builds the parameters of a method. -/
def buildMethodParameters (input : BuildInput) (sources : List SourceParameter)
    (consumed : List String) : Build (List MethodParameter) := do
  let built ← (SourceParameter.deduplicate sources).mapM (buildMethodParameter input consumed)
  return built.reduceOption

/-- The client property of a parameter that operations share. -/
def clientProperty (p : MethodParameter) : Property :=
  { name := p.name
    serializedName := some p.serializedName
    type := p.type
    documentation := p.documentation
    defaultValue := p.defaultValue
    isRequired := p.isRequired
    isConstant := p.isConstant
    deprecated := p.deprecated
    constraints := p.constraints
    extensions := p.extensions }

/-- Builds the client property of a component parameter. -/
def buildClientProperty (input : BuildInput) (name : String) (declared : RefOr Parameter) :
    Build Unit := do
  match ← resolving (input.components.resolveParameter declared) with
  | .requestBody _ => return
  | .parameter parameter =>
    let built ← buildParameter input {
      parameter := parameter
      schemaId := (Components.sectionPointer .parameters name).child "schema" }
    modifyModel fun m => { m with properties := m.properties ++ [clientProperty built] }

/-- Builds a client property for every component parameter. -/
def buildClientProperties (input : BuildInput) : Build Unit :=
  input.components.parameters.forM fun (name, declared) => buildClientProperty input name declared

end Build

end ApiModel
