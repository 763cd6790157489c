import ApiModel.Build.Parameter
import ApiModel.Build.Response
/-!
# Building methods

An operation becomes a method.  Its name is what follows the first underscore of the
operation id, its group what comes before; the pair must be new.
-/

namespace ApiModel

/-- Where an operation stands in the document. -/
structure OperationSite where
  verb : Verb
  path : String
  item : PathItem
  operation : Operation
  pathPointer : Pointer

namespace OperationSite

/-- The pointer of the operation. -/
def pointer (site : OperationSite) : Pointer :=
  site.pathPointer.child site.verb.field

end OperationSite

namespace Operation

/-- The sentence that marks a deprecated operation. -/
def deprecationText : String :=
  "This operation is deprecated. Please do not use it any longer."

/-- Why and how the operation is deprecated, if it is. -/
def deprecationMessage? (o : Operation) : Option String :=
  match Entries.get? o.extensions Extensions.deprecatedKey with
  | some details =>
    match (details.member? "description").bind Json.string?,
        (details.member? "replaced-by").bind Json.string? with
    | some description, _ => some description
    | none, some target =>
      some ("This operation is deprecated. Please use " ++ target ++ " instead.")
    | none, none => some deprecationText
  | none => if o.isDeprecated then some deprecationText else none

/-- Group and name of the method of an operation id. -/
def methodName (operationId : String) : Option String × String :=
  match Text.splitFirst? '_' operationId with
  | some (group, name) => (if group.isEmpty then none else some group, name)
  | none => (none, operationId)

end Operation

namespace Components

/-- The media types that an operation takes: the declared ones, else those of its body. -/
def consumedTypes (c : Components) (o : Operation) : Except ResolveError (List String) :=
  match o.consumes, o.requestBody with
  | some consumes, _ => .ok consumes
  | none, some body => (c.resolveRequestBody body).map fun body => Entries.keys body.content
  | none, none => .ok []

/-- The media types that an operation gives: the declared ones, else those of its responses.
A lone wildcard stands for JSON. -/
def producedTypes (c : Components) (o : Operation) : Except ResolveError (List String) := do
  let produced ← match o.produces with
    | some produces => .ok produces
    | none => do
      let responses ← o.responses.mapM fun (_, declared) => c.resolveResponse declared
      .ok (responses.foldl (fun types response =>
        (Entries.keys response.content).foldl addNew types) [])
  return if produced == ["*/*"] then [MediaType.json] else produced

end Components

namespace Build

/-- Builds the method of an operation. -/
def buildMethod (input : BuildInput) (site : OperationSite) (operationId : String)
    (group : Option String) (name : String) : Build Method := do
  let c := input.components
  let o := site.operation
  let consumed ← resolving (c.consumedTypes o)
  let produced ← resolving (c.producedTypes o)
  let sources ← resolving (c.collectParameters site.item o site.pathPointer site.pointer)
  let parameters ← buildMethodParameters input sources consumed
  let responseSite : MethodSite := {
    name := name, group := group, serializedName := operationId, operation := o,
    pointer := site.pointer }
  let headers ← buildResponseHeaders input responseSite
  let built ← buildResponses input responseSite produced headers
  let state ← get
  touch ((built.candidates.flatMap state.inheritanceChain).filterMap ModelType.composite?)
  let returnType : MethodResponse :=
    if built.responses.isEmpty then built.defaultResponse
    else { body := unify state built.candidates, headers := headers }
  returnType.headers.toList.forM addHeaderType
  let forwardTo := Extensions.text? o.extensions Extensions.forwardToKey
  let offWire := Extensions.flag o.extensions Extensions.noWireKey || forwardTo.isSome
  return {
    name := name
    group := group
    serializedName := operationId
    verb := site.verb
    url := if offWire then none
      else some (((Text.splitFirst? '?' site.path).map Prod.fst).getD site.path)
    forwardTo := forwardTo.map .pending
    summary := o.summary
    description := o.description
    externalDocsUrl := o.externalDocs.map ExternalDocs.url
    deprecationMessage := o.deprecationMessage?
    tags := o.tags
    security := (o.security.or input.document.security).getD []
    requestContentType := MediaType.negotiate consumed
    responseContentTypes := produced
    parameters := parameters
    responses := built.responses
    defaultResponse := built.defaultResponse
    returnType := returnType
    extensions := o.extensions }

/-- Builds the method of an operation and adds it to the model.  The verb OPTIONS has no
methods. -/
def addMethod (input : BuildInput) (site : OperationSite) : Build Unit := do
  if site.verb == .options then report (.optionsSkipped site.path)
  else
    match site.operation.operationId.filter (!Text.isBlankText ·) with
    | none => throw (.operationIdMissing site.verb site.path)
    | some operationId =>
      let (group, name) := Operation.methodName operationId
      if (← get).model.methods.any fun m => m.group == group && m.name == name then
        throw (.duplicateOperationId operationId)
      else
        let method ← buildMethod input site operationId group name
        modifyModel fun m => { m with methods := m.methods ++ [method] }

/-- The operations of a path, in the order of their verbs. -/
def operationSites (root : Pointer) (path : String) (item : PathItem) : List OperationSite :=
  Verb.all.filterMap fun verb => (item.operation? verb).map fun operation =>
    { verb := verb, path := path, item := item, operation := operation,
      pathPointer := root.child path }

/-- The operations of a document: those of the plain paths before those of the others. -/
def documentSites (d : Document) : List OperationSite :=
  d.paths.flatMap (fun (path, item) => operationSites ⟨"#/paths"⟩ path item) ++
    d.customPaths.flatMap fun (path, item) => operationSites ⟨"#/x-ms-paths"⟩ path item

/-- Builds the methods of all operations. -/
def buildMethods (input : BuildInput) : Build Unit :=
  (documentSites input.document).forM (addMethod input)

end Build

end ApiModel
