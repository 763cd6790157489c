import ApiModel.Build.Type
/-!
# Building responses

The headers of an operation form one composite for all its responses.  The bodies of the
regular responses are unified into the return type: the narrowest type that all of them
inherit from.
-/

namespace ApiModel.Build

/-- What identifies a method in names and messages while its responses are built. -/
structure MethodSite where
  name : String
  group : Option String
  serializedName : String
  operation : Operation
  pointer : Pointer

/-- Whether one of the media types can be read into a model. -/
def isDeserializable (produced : List String) : Bool :=
  produced.any fun p => MediaType.isJson p || MediaType.isXml p

/-- The name of the header type of a method. -/
def headerTypeName (site : MethodSite) : String :=
  Text.trim (· == '-') (site.group.getD "" ++ "-" ++ site.name ++ "-Headers")

/-- Builds the property of a classical header. -/
def buildHeaderProperty (input : BuildInput) (site : MethodSite) (name : String)
    (header : Header) : Build Property := do
  let schema := withEnumExtension (header.schema.getD (.ofType .string)) header.extensions
  let value ← buildType input schema ((site.pointer.child "headers").child name) name false
  let property :=
    if Entries.contains header.extensions Extensions.headerCollectionKey then
      Property.ofType name (.dictionary value false)
    else { Property.ofType name value with documentation := header.description }
  return { property with extensions := header.extensions }

/-- Builds the composite of classical headers. -/
def buildClassicalHeaders (input : BuildInput) (site : MethodSite) (headers : Entries Header) :
    Build CompositeId := do
  let properties ← headers.mapM fun (name, header) => buildHeaderProperty input site name header
  allocate { Composite.named (headerTypeName site) with
    documentation := some ("Defines headers for " ++ site.name ++ " operation.")
    properties := properties }

/-- The headers of the responses so far: the types of whole header schemas, and classical
headers by name. -/
structure ResponseHeaders where
  schemas : List ModelType := []
  classical : Entries Header := []

/-- Takes in the headers of a response. -/
def addResponseHeaders (input : BuildInput) (site : MethodSite) (headers : ResponseHeaders)
    (status : String) (response : Response) : Build ResponseHeaders := do
  match Entries.get? response.extensions Extensions.headersKey with
  | some extension =>
    match Schema.ofTree? .typed (.ofJson extension) with
    | none => throw (.parse (.malformed .json))
    | some schema =>
      let id := site.pointer.descend ["responses", status, Extensions.headersKey]
      let type ← buildType input schema id (headerTypeName site) false
      return { headers with schemas := addNew headers.schemas type }
  | none =>
    let resolved ← response.headers.mapM fun (name, header) => do
      return (name, ← resolving (input.components.resolveHeader header))
    return { headers with
      classical := resolved.foldl (fun m (name, header) => m.insert name header)
        headers.classical }

/-- The composite of the headers of a method: the one type of all header schemas, or a composite
of the classical headers. -/
def headerComposite (input : BuildInput) (site : MethodSite) (headers : ResponseHeaders) :
    Build CompositeId := do
  match headers.schemas, headers.classical with
  | [], classical => buildClassicalHeaders input site classical
  | [.composite id], [] => return id
  | _, _ =>
    report (.mixedResponseHeaders site.serializedName)
    throw (.invalidResponseHeaders site.serializedName)

/-- Builds the header type of an operation.  A type without properties counts as none. -/
def buildResponseHeaders (input : BuildInput) (site : MethodSite) : Build (Option CompositeId) := do
  let headers ← site.operation.responses.foldlM (fun headers (status, declared) => do
    let response ← resolving (input.components.resolveResponse declared)
    addResponseHeaders input site headers status response) {}
  let id ← headerComposite input site headers
  if (← composite id).properties.isEmpty then return none else return some id

/-- Builds the body of a response.  What can be read into a model is built as it is; other
content needs a byte array where it is a composite; and a response without any content may
not declare properties. -/
def buildResponseBody (input : BuildInput) (site : MethodSite) (status : String)
    (body : Option Schema) (id : Pointer) (produced : List String) :
    Build (Option ModelType) := do
  match body with
  | none => return none
  | some schema =>
    let name := schema.typeNameOr (site.name ++ status ++ "Response")
    if isDeserializable produced then
      return some (← buildType input schema id name false)
    else if !produced.isEmpty then
      let type ← buildType input schema id name false
      match type with
      | .composite type' =>
        let c ← composite type'
        if c.properties.any (·.type.isKind .byteArray) then return some type
        else throw (.missingByteArrayProperty site.serializedName c.name)
      | _ => return some type
    else
      let node ← resolving (input.components.unwrap schema id)
      let view ← resolving (input.components.expand node)
      if view.properties.isEmpty then return none
      else
        report (.unreadableResponse site.serializedName status)
        throw (.unsupportedResponse site.serializedName status)

/-- The responses of a method so far. -/
structure BuiltResponses where
  responses : Entries MethodResponse := []
  defaultResponse : MethodResponse := {}
  /-- The bodies that take part in the return type. -/
  candidates : List ModelType := []

/-- Builds one response. -/
def buildResponse (input : BuildInput) (site : MethodSite) (produced : List String)
    (headers : Option CompositeId) (built : BuiltResponses) (status : String)
    (response : Response) : Build BuiltResponses := do
  let base := site.pointer.descend ["responses", status, "content"]
  let id := match response.body? with
    | some (mediaType, _) => base.descend [mediaType, "schema"]
    | none => base
  if Text.sameLetters status "default" then
    match isDeserializable produced, response.schema? with
    | true, some schema =>
      let type ← buildType input schema id (schema.typeNameOr (site.name ++ "ErrorModel")) false
      addErrorBodies type.composite?.toList
      return { built with
        defaultResponse :=
          { body := some type, headers := headers, extensions := response.extensions } }
    | _, _ => return built
  else
    let body ← buildResponseBody input site status response.schema? id produced
    let isError := Extensions.flag response.extensions Extensions.errorResponseKey
    if isError then addErrorBodies (body.bind ModelType.composite?).toList
    return { built with
      candidates := if isError then built.candidates else built.candidates ++ body.toList
      responses := built.responses.insert status
        { body := body, headers := headers, extensions := response.extensions } }

/-- Builds all responses of an operation. -/
def buildResponses (input : BuildInput) (site : MethodSite) (produced : List String)
    (headers : Option CompositeId) : Build BuiltResponses :=
  site.operation.responses.foldlM (fun built (status, declared) => do
    let response ← resolving (input.components.resolveResponse declared)
    buildResponse input site produced headers built status response) {}

/-- The last type that a chain shares with all others, level by level from the root; `shared`
is the last one so far. -/
def lastShared (arena : Arena) (shared : ModelType) :
    List ModelType → List (List ModelType) → ModelType
  | [], _ => shared
  | type :: chain, others =>
    if others.all fun other => other.head?.any fun t => t.sameIn arena type then
      lastShared arena type chain (others.map List.tail)
    else shared

/-- The narrowest type that all candidates inherit from. -/
def unify (s : BuildState) (candidates : List ModelType) : Option ModelType :=
  match candidates with
  | [] => none
  | [single] => some single
  | first :: others =>
    some (lastShared s.model.types .object (s.inheritanceChain first)
      (others.map s.inheritanceChain))

end ApiModel.Build
