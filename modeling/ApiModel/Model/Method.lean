import ApiModel.Document.Operation
import ApiModel.Model.Composite
/-!
# Methods

An operation of the service as a method with parameters, responses and a return type.
-/

namespace ApiModel

/-- How a parameter with several values is written. -/
inductive CollectionFormat where
  | none
  | csv
  | ssv
  | tsv
  | pipes
  | multi
deriving DecidableEq, Repr

namespace CollectionFormat

/-- The name of a format. -/
def name : CollectionFormat → String
  | .none => "None"
  | .csv => "Csv"
  | .ssv => "Ssv"
  | .tsv => "Tsv"
  | .pipes => "Pipes"
  | .multi => "Multi"

/-- The format of several values under a style, one after the other. -/
def ofStyle : ParameterStyle → CollectionFormat
  | .spaceDelimited => .ssv
  | .pipeDelimited => .pipes
  | .tabDelimited => .tsv
  | _ => .csv

/-- The style of a location that names none. -/
def defaultStyle : ParameterLocation → ParameterStyle
  | .query => .form
  | .cookie => .form
  | _ => .simple

/-- The format of a parameter by its style and its `explode` flag.  In legacy mode a
parameter that sets neither has no format, and the flag is off unless it is set. -/
def ofParameter (location : ParameterLocation) (style : Option ParameterStyle)
    (explode : Option Bool) (legacy : Bool) : CollectionFormat :=
  if legacy && style.isNone && explode.isNone then .none
  else
    let style := style.getD (defaultStyle location)
    if explode.getD (!legacy && style == .form) then .multi else ofStyle style

end CollectionFormat

/-- A parameter of a method. -/
structure MethodParameter where
  name : String
  serializedName : String
  location : ParameterLocation
  type : ModelType
  documentation : Option String := none
  defaultValue : Option String := none
  isRequired : Bool := false
  isConstant : Bool := false
  deprecated : Bool := false
  collectionFormat : CollectionFormat := .none
  constraints : Constraints := []
  extensions : Extensions := []
  /-- The property of the client that holds the value. -/
  clientProperty : Option Nat := none
  /-- Whether the parameter belongs to the host name and not to the operation. -/
  isHostParameter : Bool := false

/-- Body and headers of a response. -/
structure MethodResponse where
  body : Option ModelType := none
  headers : Option CompositeId := none
  extensions : Extensions := []

/-- A method. -/
structure Method where
  name : String
  group : Option String
  /-- The operation id as the document writes it. -/
  serializedName : String
  verb : Verb
  /-- The path template; none for an operation that stays off the wire. -/
  url : Option String
  forwardTo : Option ForwardTarget := none
  summary : Option String := none
  description : Option String := none
  externalDocsUrl : Option String := none
  deprecationMessage : Option String := none
  tags : List String := []
  security : List SecurityRequirement := []
  requestContentType : String := ""
  responseContentTypes : List String := []
  parameters : List MethodParameter := []
  responses : Entries MethodResponse := []
  defaultResponse : MethodResponse := {}
  returnType : MethodResponse := {}
  extensions : Extensions := []

namespace Method

/-- The parameter of a name. -/
def parameter? (m : Method) (name : String) : Option MethodParameter :=
  m.parameters.find? (·.name == name)

/-- Whether the method is deprecated. -/
def isDeprecated (m : Method) : Bool :=
  m.deprecationMessage.isSome

end Method

end ApiModel
