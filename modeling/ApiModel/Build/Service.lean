import ApiModel.Build.Method
/-!
# Building the model of a service

The phases of a build: the facts about the service, the component schemas, the client
properties, the methods, and then what only the finished parts allow: aliases, base types,
errors, the enum of content types and the parameters of the host name.
-/

namespace ApiModel

namespace Build

/-- The address of a service that names none. -/
def defaultBaseUrl : String := "http://localhost"

/-- The name of the model: the title without spaces, else the configured name. -/
def modelName (info : Info) (options : Options) : Except BuildError String :=
  match info.title, options.clientName with
  | some title, _ => .ok (Text.erase ' ' title)
  | none, some clientName =>
    if Text.isBlankText clientName then .error .titleMissing else .ok clientName
  | none, none => .error .titleMissing

/-- The model before anything is built. -/
def initialModel (input : BuildInput) : Except BuildError CodeModel := do
  let d := input.document
  match d.info with
  | none => throw .infoSectionMissing
  | some info =>
    let name ← modelName info input.options
    let baseUrl := (d.servers.head?.map fun s => Text.trimEnd (· == '/') s.url).filter
      (!·.isEmpty)
    return {
      name := name
      namespaceName := input.options.namespaceName
      modelsName := input.options.modelsName
      apiVersion := if info.version.isEmpty then none else some info.version
      documentation := info.description
      baseUrl := baseUrl.getD defaultBaseUrl
      extensions := d.extensions
      settings := info.settings }

/-- Builds a component schema.  Unless the options admit it, no chain of ancestors may be
without properties. -/
def buildComponentType (input : BuildInput) (name : String) (schema : Schema) : Build Unit := do
  let c := input.components
  let _ ← resolving (c.ancestors name)
  let _ ← buildType input schema (.component name) name false
  match ← resolving (c.parentOf name) with
  | none => return
  | some parent =>
    if input.options.generateEmptyClasses then return
    else if ← resolving (c.ancestorsHaveProperties parent) then return
    else throw (.invalidAncestors name)

/-- Builds all component schemas. -/
def buildComponentTypes (input : BuildInput) : Build Unit :=
  input.components.schemas.forM fun (name, schema) => buildComponentType input name schema

/-- Settles what an alias leads to: the first candidate of its name. -/
def settleTarget (candidates : List (Option String)) (unknown : String → BuildError) :
    Option ForwardTarget → Except BuildError (Option ForwardTarget)
  | some (.pending target) =>
    match candidates.findIdx? (· == some target) with
    | some index => .ok (some (.resolved index))
    | none => .error (unknown target)
  | settled => .ok settled

/-- Settles the aliases among methods. -/
def settleMethods (methods : List Method) : Except BuildError (List Method) :=
  methods.mapM fun m => do
    let target ← settleTarget (methods.map fun m => some m.serializedName)
      .unknownMethodTarget m.forwardTo
    return { m with forwardTo := target }

/-- Settles the aliases among the properties of a composite. -/
def settleProperties (c : Composite) : Except BuildError Composite := do
  let properties ← c.properties.mapM fun p => do
    let target ← settleTarget (c.properties.map (·.serializedName)) .unknownPropertyTarget
      p.forwardTo
    return { p with forwardTo := target }
  return { c with properties := properties }

/-- Settles all aliases, those of the discarded composites included. -/
def settleForwardTargets (m : CodeModel) : Except BuildError CodeModel := do
  let methods ← settleMethods m.methods
  let types ← m.types.toList.mapM settleProperties
  return { m with methods := methods, types := ⟨types.toArray⟩ }

/-- Gives a named composite its base type, if it has a parent. -/
def wireBaseType (tables : BuildState) (name : String) (id : CompositeId) : Build Unit := do
  match tables.parents.get? name with
  | none => return
  | some parent =>
    match tables.namedTypes.get? parent with
    | none => throw (.invalidAncestors name)
    | some base =>
      touch [id]
      modifyModel fun m =>
        { m with types := m.types.set id { m.types.get id with baseType := some base } }

/-- Gives every named composite with a parent its base type. -/
def wireBaseTypes : Build Unit := do
  let s ← get
  s.namedTypes.forM fun (name, id) => wireBaseType s name id

/-- Counts a composite among the errors if it inherits from one by name. -/
def countInheritedError (id : CompositeId) : Build Unit := do
  let s ← get
  touch (s.model.baseChain id)
  let bases := (s.model.baseChain id).tail
  if bases.any fun base => s.errorNames.contains (s.model.composite base).name then
    addErrorType id

/-- Registers the named composites, and counts the errors among them. -/
def registerModelTypes : Build Unit := do
  let ids := (← get).namedTypes.values.foldl addNew []
  modifyModel fun m => { m with modelTypes := ids }
  ids.forM countInheritedError

/-- Adds the enum of the media types that parameters choose from. -/
def buildContentTypes : Build Unit := do
  let choices := (← get).contentTypes
  if choices.isEmpty then return
  else
    let values := choices.map EnumValue.ofLiteral
    let choice : EnumType := { name := "ContentTypes", values := values }
    modifyModel fun m => { m with enumTypes := m.enumTypes ++ [choice] }

/-- The parameter of a variable in the address of the service. -/
def hostSource (name : String) (v : ServerVariable) : SourceParameter :=
  let schema : Schema := { Schema.ofType .string with
    defaultValue := if v.defaultValue.isEmpty then none else some (.string v.defaultValue)
    enumValues := if v.enumValues.isEmpty then none else some (v.enumValues.map .string) }
  { parameter := {
      name := name
      location := .path
      description := v.description
      required := true
      schema := some schema
      extensions := v.extensions }
    schemaId := (Pointer.mk "#/servers/0/variables").descend [name, "schema"] }

/-- Builds the parameter of a variable in the address of the service. -/
def buildHostParameter (input : BuildInput) (name : String) (v : ServerVariable) :
    Build MethodParameter := do
  let built ← buildParameter input (hostSource name v)
  let properties := (← get).model.properties
  return { built with
    clientProperty := properties.findIdx? fun p =>
      p.serializedName.any (Text.sameLetters · built.serializedName)
    isHostParameter := true }

/-- Builds the parameters of the host name; they come before the parameters of every method,
in reverse, or after them. -/
def buildHostParameters (input : BuildInput) : Build Unit := do
  match input.document.servers.head? with
  | none => return
  | some server =>
    if server.templateVariables.isEmpty then return
    else
      let key := Extensions.parameterizedHostKey
      modifyModel fun m => { m with extensions := Entries.insert m.extensions key (.bool true) }
      let position := (((Entries.get? server.extensions key).bind
        (·.member? "positionInOperation")).bind Json.string?).getD "first"
      let built ← server.templateVariables.mapM fun (name, v) => buildHostParameter input name v
      if Text.sameLetters position "first" then
        modifyModel fun m => { m with hostParametersFront := built.reverse }
      else if Text.sameLetters position "last" then
        modifyModel fun m => { m with hostParametersBack := built }
      else throw (.invalidHostPosition position)

/-- Settles the aliases of the model. -/
def settleModel : Build Unit := do
  match settleForwardTargets (← get).model with
  | .ok model => modifyModel fun _ => model
  | .error e => throw e

/-- All phases after the first. -/
def buildService (input : BuildInput) : Build Unit := do
  buildComponentTypes input
  buildClientProperties input
  buildMethods input
  settleModel
  wireBaseTypes
  registerModelTypes
  buildContentTypes
  buildHostParameters input

end Build

/-- The outcome of a build: the model or the error, and what was noticed on the way. -/
structure BuildOutcome where
  result : Except BuildError CodeModel
  notices : List Notice

namespace Document

/-- Runs a build to its end: how it ends, and the state that it leaves behind. -/
def run (d : Document) (options : Options) : Except BuildError Unit × BuildState :=
  let input : BuildInput := ⟨d, options⟩
  match Build.initialModel input with
  | .error e => (.error e, { model := { name := "", namespaceName := "" } })
  | .ok model => (Build.buildService input).run { model := model }

/-- Builds the code model of a document and tells what was noticed on the way. -/
def buildWithNotices (d : Document) (options : Options) : BuildOutcome :=
  let (result, s) := d.run options
  ⟨result.map fun _ => s.model, s.notices⟩

/-- Builds the code model of a document. -/
def build (d : Document) (options : Options) : Except BuildError CodeModel :=
  (d.buildWithNotices options).result

end Document

end ApiModel
