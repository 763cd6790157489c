import ApiModel.Text
/-!
# Pointers and references

A JSON pointer is the identity of a schema node: the path from the root of the document
to the place that defines the node.  References are the texts by which documents name
their components; the part after `components/<section>/` is the name of the component.
-/

namespace ApiModel

/-- A JSON pointer to a node of the document, from the root mark `#`. -/
structure Pointer where
  text : String
deriving DecidableEq, Repr

namespace Pointer

/-- The escaped form of one character of a segment: the tilde and the slash are special. -/
def escapeChar (c : Char) : List Char :=
  if c = '~' then ['~', '0'] else if c = '/' then ['~', '1'] else [c]

/-- The escaped form of a segment. -/
def escape (segment : String) : String :=
  String.ofList (segment.toList.flatMap escapeChar)

/-- The pointer to a child of the node. -/
def child (p : Pointer) (segment : String) : Pointer :=
  ⟨p.text ++ "/" ++ escape segment⟩

/-- The pointer to an item of a list in the node. -/
def item (p : Pointer) (index : Nat) : Pointer :=
  p.child (toString index)

/-- The pointer to a descendant of the node. -/
def descend (p : Pointer) (segments : List String) : Pointer :=
  segments.foldl child p

/-- The pointer to a component schema. -/
def component (name : String) : Pointer :=
  ⟨"#/components/schemas/" ++ escape name⟩

end Pointer

/-- The sections of components that references lead to. -/
inductive ComponentSection where
  | schemas
  | parameters
  | requestBodies
  | responses
  | headers
deriving DecidableEq, Repr

namespace ComponentSection

/-- The name of a section. -/
def name : ComponentSection → String
  | .schemas => "schemas"
  | .parameters => "parameters"
  | .requestBodies => "requestBodies"
  | .responses => "responses"
  | .headers => "headers"

/-- What stands before the name of a component in a reference to it. -/
def marker (sectionName : String) : String :=
  "components/" ++ sectionName ++ "/"

end ComponentSection

namespace Reference

/-- The name of the component that a reference into a section names: what follows the marker
of the section, or the whole text when there is none. -/
def componentName (reference sectionName : String) : String :=
  match Text.afterFirst? (ComponentSection.marker sectionName).toList reference.toList with
  | some name => String.ofList name
  | none => reference

/-- The last segment of a reference, which serves as the name of a type. -/
def lastSegment (reference : String) : String :=
  String.ofList (Text.afterLast '/' reference.toList)

/-- Whether a reference leads into a section. -/
def leadsInto (reference : String) (target : ComponentSection) : Bool :=
  Text.containsWord reference (ComponentSection.marker target.name)

end Reference

end ApiModel
