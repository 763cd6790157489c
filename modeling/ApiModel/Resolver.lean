import ApiModel.Document.Components
import ApiModel.Pointer
/-!
# Following references

How references lead to the nodes they name.  `unwrap` follows bare references and mere
wrappers to the node that has content of its own, and gives the pointer of that node.
`expand` flattens the members of an `allOf` into one view: the first bare reference among
them is the parent, and every other member lends its properties.  `ancestors` follows the
parents.  Parameters, request bodies, responses and headers have chains of references of
their own.

Each of these walks ends because it notes the names it has come through, of which a
document has finitely many; the walk carries a count that suffices for all of them.
-/

namespace ApiModel

/-- Why a reference leads nowhere. -/
inductive ResolveError where
  | unresolved (reference : String)
  | circular (trail : String)
deriving DecidableEq, Repr

namespace ResolveError

/-- The message of an error. -/
def message : ResolveError → String
  | .unresolved reference => "unresolved reference: " ++ reference
  | .circular trail => "circular reference detected: " ++ trail

end ResolveError

/-- A schema node with its pointer. -/
structure Located where
  id : Pointer
  schema : Schema

/-- A schema with the members of its `allOf` flattened into it. -/
structure Expanded where
  /-- The name of the component that the schema extends. -/
  parent : Option String := none
  properties : Entries Located := []
  required : List String := []

namespace Expanded

/-- Whether a property is required. -/
def isRequired (e : Expanded) (name : String) : Bool :=
  e.required.contains name

end Expanded

namespace Schema

/-- The node inside all mere wrappers, with its pointer. -/
def peel : Schema → Pointer → Located
  | ⟨keywords, properties, additional, [member], items⟩, id =>
    if (Schema.mk keywords properties additional [member] items).wrapped?.isSome then
      member.peel ((id.child "allOf").item 0)
    else ⟨id, ⟨keywords, properties, additional, [member], items⟩⟩
  | schema, id => ⟨id, schema⟩

end Schema

namespace Components

/-- Looks a component up by a reference or by its name. -/
def lookup {α : Type} (entries : Entries α) (target : ComponentSection) (reference : String) :
    Except ResolveError α :=
  match entries.get? (Reference.componentName reference target.name) with
  | some value => .ok value
  | none => .error (.unresolved reference)

/-- The component schema that a reference or a name leads to. -/
def dereference (c : Components) (reference : String) : Except ResolveError Schema :=
  lookup c.schemas .schemas reference

/-- Follows bare references, each name at most once. -/
def unwrapFrom (c : Components) (seen : List String) :
    Nat → Located → Except ResolveError Located
  | steps, node =>
    let node := node.schema.peel node.id
    match node.schema.bareReference? with
    | none => .ok node
    | some reference =>
      let name := Reference.componentName reference ComponentSection.schemas.name
      if seen.contains name then .error (.circular reference)
      else
        match c.dereference reference, steps with
        | .error e, _ => .error e
        | .ok _, 0 => .error (.circular reference)
        | .ok target, steps + 1 =>
          unwrapFrom c (name :: seen) steps ⟨Pointer.component name, target⟩

/-- Follows bare references and mere wrappers to a node with content of its own. -/
def unwrap (c : Components) (schema : Schema) (id : Pointer) : Except ResolveError Located :=
  c.unwrapFrom [] c.schemas.length ⟨id, schema⟩

/-- Lends the members of a node, then what it declares itself, to the view.  `visiting` holds
the nodes around this one, and `takeParent` is set for the outermost alone. -/
def collect (c : Components) (visiting : List Pointer) (takeParent : Bool) :
    Nat → Located → Expanded → Except ResolveError Expanded
  | 0, node, _ => .error (.circular node.id.text)
  | depth + 1, node, view =>
    if visiting.contains node.id then .error (.circular node.id.text)
    else do
      let view ← node.schema.allOf.zipIdx.foldlM (fun view (member, index) =>
        match takeParent && view.parent.isNone, member.bareReference? with
        | true, some reference => .ok { view with
            parent := some (Reference.componentName reference ComponentSection.schemas.name) }
        | _, _ => do
          let target ← c.unwrap member ((node.id.child "allOf").item index)
          collect c (node.id :: visiting) false depth target view) view
      return { view with
        properties := node.schema.properties.foldl (fun properties (name, property) =>
          properties.insert name
            ⟨(node.id.child "properties").child name, property⟩) view.properties
        required := node.schema.required.foldl addNew view.required }

/-- The number of schema nodes among the component schemas. -/
def schemaCount (c : Components) : Nat :=
  Schema.sizeOfEntries c.schemas

/-- Flattens the members of `allOf` into one view of a node. -/
def expand (c : Components) (node : Located) : Except ResolveError Expanded :=
  c.collect [] true (c.schemaCount + node.schema.size + 1) node {}

/-- The view of a component schema. -/
def expandComponent (c : Components) (name : String) : Except ResolveError Expanded := do
  let schema ← c.dereference name
  c.expand (← c.unwrap schema (Pointer.component name))

/-- The component that a component schema extends. -/
def parentOf (c : Components) (name : String) : Except ResolveError (Option String) := do
  return (← c.expandComponent name).parent

/-- A chain of parents that comes back to one of its names; the last name comes first. -/
def inheritanceCycle (chain : List String) : ResolveError :=
  .circular ("inheritance chain " ++ String.intercalate " -> " chain.reverse)

/-- Follows parents; `chain` holds the names so far, the last one first. -/
def ancestorsFrom (c : Components) :
    Nat → List String → String → Except ResolveError (List String)
  | steps, chain, name =>
    match c.parentOf name with
    | .error e => .error e
    | .ok none => .ok []
    | .ok (some parent) =>
      if chain.contains parent then .error (inheritanceCycle (parent :: chain))
      else
        match steps with
        | 0 => .error (inheritanceCycle (parent :: chain))
        | steps + 1 => (ancestorsFrom c steps (parent :: chain) parent).map (parent :: ·)

/-- The components that a component schema extends, nearest first. -/
def ancestors (c : Components) (name : String) : Except ResolveError (List String) :=
  c.ancestorsFrom (c.schemas.length + 1) [name] name

/-- Whether one of the components declares a property, own or flattened. -/
def anyHasProperties (c : Components) : List String → Except ResolveError Bool
  | [] => .ok false
  | name :: names => do
    if (← c.expandComponent name).properties.isEmpty then c.anyHasProperties names
    else return true

/-- Whether a component schema or one of its ancestors declares a property. -/
def ancestorsHaveProperties (c : Components) (name : String) : Except ResolveError Bool := do
  c.anyHasProperties (name :: (← c.ancestors name))

/-- Follows references through one section until a node stands in place. -/
def follow {α : Type} (entries : Entries (RefOr α)) (target : ComponentSection)
    (seen : List String) : Nat → RefOr α → Except ResolveError α
  | _, .node value => .ok value
  | 0, .reference path => .error (.circular path)
  | steps + 1, .reference path =>
    if seen.contains path then .error (.circular path)
    else
      match lookup entries target path with
      | .ok next => follow entries target (path :: seen) steps next
      | .error e => .error e

/-- The request body that a node stands for. -/
def resolveRequestBody (c : Components) (body : RefOr RequestBody) :
    Except ResolveError RequestBody :=
  follow c.requestBodies .requestBodies [] (c.requestBodies.length + 2) body

/-- The response that a node stands for. -/
def resolveResponse (c : Components) (response : RefOr Response) :
    Except ResolveError Response :=
  follow c.responses .responses [] (c.responses.length + 2) response

/-- The header that a node stands for. -/
def resolveHeader (c : Components) (header : RefOr Header) : Except ResolveError Header :=
  follow c.headers .headers [] (c.headers.length + 2) header

/-- What a parameter of an operation turns out to be. -/
inductive ParameterTarget where
  | parameter (value : Parameter)
  | requestBody (value : RequestBody)

/-- Follows references to parameters; a reference into the request bodies is followed
there. -/
def followParameter (c : Components) (seen : List String) :
    Nat → RefOr Parameter → Except ResolveError ParameterTarget
  | _, .node value => .ok (.parameter value)
  | steps, .reference path =>
    if Reference.leadsInto path .requestBodies then
      match c.resolveRequestBody (.reference path) with
      | .ok body => .ok (.requestBody body)
      | .error e => .error e
    else if seen.contains path then .error (.circular path)
    else
      match lookup c.parameters .parameters path, steps with
      | .error e, _ => .error e
      | .ok _, 0 => .error (.circular path)
      | .ok next, steps + 1 => followParameter c (path :: seen) steps next

/-- The parameter or request body that a parameter stands for. -/
def resolveParameter (c : Components) (parameter : RefOr Parameter) :
    Except ResolveError ParameterTarget :=
  c.followParameter [] (c.parameters.length + 2) parameter

end Components

end ApiModel
