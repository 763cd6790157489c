import ApiModel.Proofs.Calls
import ApiModel.Proofs.Extension
import ApiModel.Proofs.Stages
/-!
# The types in use

A type is built in one state and put to use in a later one: for a parameter, for a property of the
client, for the body of a response, for a header.  So whatever is known of a type when it is built
says something about the model only if later steps do not take it away.  Suppose that building a
type establishes a property of it, that no step ends the property of a type that has it, and that
named composites and the type that every type can be taken for have it anyway.  Then every type in
use has it, for those are the only types that the phases of a build take from elsewhere.
-/

namespace ApiModel

namespace Composite

/-- The types of the properties. -/
def propertyTypes (c : Composite) : List ModelType :=
  c.properties.map Property.type

/-- Aliases and base types do not change the types of the properties. -/
theorem propertyTypes_of_unlinked {c c' : Composite} (h : c'.unlinked = c.unlinked) :
    c'.propertyTypes = c.propertyTypes :=
  map_properties_of_unlinked (fun _ => rfl) h

end Composite

namespace Method

/-- The types of the parameters and of the bodies. -/
def types (m : Method) : List ModelType :=
  m.parameters.map MethodParameter.type ++
    (Entries.values m.responses).flatMap (·.body.toList) ++ m.defaultResponse.body.toList ++
    m.returnType.body.toList

end Method

namespace CodeModel

/-- The types of the properties of the client, of the parameters of methods and of the host name,
and of the bodies. -/
def interfaceTypes (m : CodeModel) : List ModelType :=
  m.properties.map Property.type ++ m.methods.flatMap Method.types ++
    (m.hostParametersFront ++ m.hostParametersBack).map MethodParameter.type

/-- The interface does not depend on what methods are aliases of. -/
theorem interfaceTypes_of_unlinked {m m' : CodeModel} (hproperties : m'.properties = m.properties)
    (hmethods : m'.methods.map Build.unlinkedMethod = m.methods.map Build.unlinkedMethod)
    (hfront : m'.hostParametersFront = m.hostParametersFront)
    (hback : m'.hostParametersBack = m.hostParametersBack) :
    m'.interfaceTypes = m.interfaceTypes := by
  have hunlinked (ms : List Method) :
      ms.flatMap Method.types = (ms.map Build.unlinkedMethod).flatMap Method.types := by
    rw [List.flatMap_map]
    rfl
  unfold interfaceTypes
  rw [hunlinked, hmethods, ← hunlinked, hproperties, hfront, hback]

end CodeModel

namespace BuildState

/-- Both states tell the same of the types that were built, but for base types and for what
properties are aliases of; only enums may have been added. -/
structure SameTypes (s t : BuildState) : Prop where
  size : t.size = s.size
  unlinked : ∀ h : Nat, h < s.size →
    (t.model.composite h).unlinked = (s.model.composite h).unlinked
  namedTypes : t.namedTypes = s.namedTypes
  builtNodes : t.builtNodes = s.builtNodes
  begun : t.begun = s.begun
  enumTypes : s.model.enumTypes <+: t.model.enumTypes

/-- States with the same types have the same types of properties. -/
theorem SameTypes.propertyTypes {s t : BuildState} (hst : s.SameTypes t) (h : Nat)
    (hh : h < s.size) :
    (t.model.composite h).propertyTypes = (s.model.composite h).propertyTypes :=
  Composite.propertyTypes_of_unlinked (hst.unlinked h hh)

/-- The arena, and the tables that tell which composites were built. -/
def typeTables (s : BuildState) :
    Arena × Entries CompositeId × List (Pointer × CompositeId) × List Begun :=
  (s.model.types, s.namedTypes, s.builtNodes, s.begun)

/-- A write outside the arena and the tables of composites. -/
theorem SameTypes.aside {s t : BuildState} (htables : t.typeTables = s.typeTables)
    (henums : s.model.enumTypes <+: t.model.enumTypes) : s.SameTypes t := by
  simp only [typeTables, Prod.mk.injEq] at htables
  obtain ⟨htypes, hnamed, hbuilt, hbegun⟩ := htables
  constructor
  case size => exact congrArg Arena.size htypes
  case unlinked =>
    intro h _
    rw [CodeModel.composite, htypes, CodeModel.composite]
  case namedTypes => exact hnamed
  case builtNodes => exact hbuilt
  case begun => exact hbegun
  case enumTypes => exact henums

/-- Settling aliases changes no types. -/
theorem SameTypes.settled {s : BuildState} {m : CodeModel}
    (h : Build.settleForwardTargets s.model = .ok m) : s.SameTypes { s with model := m } := by
  obtain ⟨hsize, hunlinked, -⟩ := Build.settleForwardTargets_unlinked h
  obtain ⟨methods, types, -, -, rfl⟩ := Build.settleForwardTargets_ok h
  exact {
    size := hsize
    unlinked := hunlinked
    namedTypes := rfl
    builtNodes := rfl
    begun := rfl
    enumTypes := List.prefix_rfl }

/-- Neither does a base type. -/
theorem SameTypes.based (s : BuildState) (id : CompositeId) (base : Option CompositeId) :
    s.SameTypes { s with model := { s.model with
      types := s.model.types.set id { s.model.types.get id with baseType := base } } } where
  size := Arena.size_set
  unlinked h hh := by
    by_cases hself : h = id
    · subst hself
      change (Arena.get (s.model.types.set h _) h).unlinked = _
      rw [Arena.get_set_self hh]
      rfl
    · exact congrArg Composite.unlinked (Arena.get_set_of_ne hself)
  namedTypes := rfl
  builtNodes := rfl
  begun := rfl
  enumTypes := List.prefix_rfl

/-- A composite that has no name among the types. -/
def allocated (s : BuildState) (c : Composite) : BuildState :=
  { s with model := { s.model with types := s.model.types.push c } }

theorem size_allocated (s : BuildState) (c : Composite) : (s.allocated c).size = s.size + 1 :=
  Arena.size_push

/-- The new handle leads to the composite that was allocated. -/
theorem composite_allocated (s : BuildState) (c : Composite) :
    (s.allocated c).model.composite s.size = c :=
  Arena.get_push_size

end BuildState

namespace Build

open BuildState

/-- The property `T` of types goes through a build, where the states satisfy `I`: building a type
establishes it, no step takes it away, and the types that the phases take from elsewhere have it. -/
structure Vouches (input : BuildInput) (I : BuildState → Prop)
    (T : BuildState → ModelType → Prop) : Prop where
  same : ∀ {s t}, I s → s.SameTypes t → I t
  type_same : ∀ {s t type}, T s type → s.SameTypes t → T t type
  allocated : ∀ {s c}, I s → (∀ type ∈ c.propertyTypes, T s type) → I (s.allocated c)
  type_allocated : ∀ {s type} c, T s type → T (s.allocated c) type
  built : ∀ {s} schema id name required, I s →
    Ensures (buildType input schema id name required) s
      (fun type t => I t ∧ T t type ∧ ∀ type', T s type' → T t type') fun _ _ => True
  object : ∀ {s}, T s .object
  dictionary : ∀ {s value} additional, T s value → T s (.dictionary value additional)
  named : ∀ {s name h}, I s → s.namedTypes.get? name = some h → T s (.composite h)

/-- A composite for headers: one that was built as a type, or one of which the types of the
properties were built. -/
def HeaderVouched (T : BuildState → ModelType → Prop) (h : CompositeId) (s : BuildState) : Prop :=
  T s (.composite h) ∨
    h < s.size ∧ ∀ type ∈ (s.model.composite h).propertyTypes, T s type

/-- Every type in use has the property. -/
structure Uses (T : BuildState → ModelType → Prop) (s : BuildState) : Prop where
  interface : ∀ type ∈ s.model.interfaceTypes, T s type
  headers : ∀ h ∈ s.model.headerTypes, HeaderVouched T h s

/-- No type loses the property from one state to the other. -/
structure Keeps (T : BuildState → ModelType → Prop) (s t : BuildState) : Prop where
  types : ∀ type, T s type → T t type
  size_le : s.size ≤ t.size
  propertyTypes : ∀ h : Nat, h < s.size →
    (t.model.composite h).propertyTypes = (s.model.composite h).propertyTypes

/-- All that the responses so far hold may be put to use. -/
structure ResponsesVouched (T : BuildState → ModelType → Prop) (built : BuiltResponses)
    (s : BuildState) : Prop where
  bodies : ∀ entry ∈ built.responses, ∀ type ∈ entry.2.body, T s type
  defaultBody : ∀ type ∈ built.defaultResponse.body, T s type
  defaultHeaders : ∀ h ∈ built.defaultResponse.headers, HeaderVouched T h s
  candidates : ∀ type ∈ built.candidates, T s type

section Kit

variable {I : BuildState → Prop} {T : BuildState → ModelType → Prop} {s t : BuildState}

theorem Keeps.refl (s : BuildState) : Keeps T s s :=
  ⟨fun _ h => h, le_rfl, fun _ _ => rfl⟩

theorem Keeps.trans {u : BuildState} (hst : Keeps T s t) (htu : Keeps T t u) : Keeps T s u where
  types type h := htu.types type (hst.types type h)
  size_le := hst.size_le.trans htu.size_le
  propertyTypes h hh :=
    (htu.propertyTypes h (Nat.lt_of_lt_of_le hh hst.size_le)).trans (hst.propertyTypes h hh)

/-- Keeping types goes along with every invariant. -/
theorem keeps_course {J : BuildState → Prop} : Course J (Keeps T) where
  refl := .refl
  trans _ := .trans

/-- A composite of headers stays vouched for. -/
theorem HeaderVouched.keep {h : CompositeId} (hs : HeaderVouched T h s) (hst : Keeps T s t) :
    HeaderVouched T h t := by
  obtain htype | ⟨hh, htypes⟩ := hs
  · exact .inl (hst.types _ htype)
  · refine .inr ⟨Nat.lt_of_lt_of_le hh hst.size_le, ?_⟩
    rw [hst.propertyTypes h hh]
    exact fun type htype => hst.types type (htypes type htype)

/-- Responses stay vouched for. -/
theorem ResponsesVouched.keep {built : BuiltResponses} (hs : ResponsesVouched T built s)
    (hst : Keeps T s t) : ResponsesVouched T built t where
  bodies entry hentry type htype := hst.types type (hs.bodies entry hentry type htype)
  defaultBody type htype := hst.types type (hs.defaultBody type htype)
  defaultHeaders h hh := (hs.defaultHeaders h hh).keep hst
  candidates type htype := hst.types type (hs.candidates type htype)

/-- A response with a body joins the others. -/
theorem ResponsesVouched.insert {built : BuiltResponses} (hs : ResponsesVouched T built s)
    (status : String) {response : MethodResponse} (hbody : ∀ type ∈ response.body, T s type)
    {candidates : List ModelType} (hcandidates : ∀ type ∈ candidates, T s type) :
    ResponsesVouched T { built with
      responses := built.responses.insert status response
      candidates := candidates } s where
  bodies entry hentry := by
    obtain hold | ⟨-, hnew⟩ := Entries.mem_insert hentry
    · exact hs.bodies entry hold
    · rw [hnew]
      exact hbody
  defaultBody := hs.defaultBody
  defaultHeaders := hs.defaultHeaders
  candidates := hcandidates

/-- What comes into use must have the property in the state before. -/
theorem Uses.keep (hs : Uses T s) (hst : Keeps T s t)
    (hinterface : ∀ type ∈ t.model.interfaceTypes, type ∈ s.model.interfaceTypes ∨ T s type)
    (hheaders : ∀ h ∈ t.model.headerTypes, h ∈ s.model.headerTypes ∨ HeaderVouched T h s) :
    Uses T t where
  interface type htype := by
    obtain hold | hnew := hinterface type htype
    · exact hst.types type (hs.interface type hold)
    · exact hst.types type hnew
  headers h hh := by
    obtain hold | hnew := hheaders h hh
    · exact (hs.headers h hold).keep hst
    · exact hnew.keep hst

/-- A step of a build that lets only types with the property into use. -/
abbrev Vouching (I : BuildState → Prop) (T : BuildState → ModelType → Prop) {α : Type}
    (m : Build α) (s : BuildState) (R : α → BuildState → Prop) : Prop :=
  Carries (fun s => I s ∧ Uses T s) (Keeps T) (fun _ _ => True) m s R

namespace Vouches

variable {input : BuildInput} (hV : Vouches input I T) {α : Type}
include hV

/-- States with the same types keep them. -/
theorem keeps (hst : s.SameTypes t) : Keeps T s t where
  types _ h := hV.type_same h hst
  size_le := hst.size.ge
  propertyTypes := hst.propertyTypes

/-- A write that tells nothing new of types, and lets only types with the property into use. -/
theorem write {f : BuildState → BuildState} (hs : I s ∧ Uses T s) (hst : s.SameTypes (f s))
    (hinterface : ∀ type ∈ (f s).model.interfaceTypes,
      type ∈ s.model.interfaceTypes ∨ T s type)
    (hheaders : ∀ h ∈ (f s).model.headerTypes,
      h ∈ s.model.headerTypes ∨ HeaderVouched T h s) :
    Vouching I T (modify f) s fun _ _ => True := by
  have hkeeps := hV.keeps hst
  exact ⟨⟨hV.same hs.1 hst, hs.2.keep hkeeps hinterface hheaders⟩, hkeeps, trivial⟩

/-- A write that lets no type into use. -/
theorem quiet {f : BuildState → BuildState} (hs : I s ∧ Uses T s) (hst : s.SameTypes (f s))
    (hinterface : (f s).model.interfaceTypes = s.model.interfaceTypes)
    (hheaders : (f s).model.headerTypes = s.model.headerTypes) :
    Vouching I T (modify f) s fun _ _ => True :=
  hV.write hs hst (fun _ htype => .inl (hinterface ▸ htype)) fun _ hh => .inl (hheaders ▸ hh)

theorem touch (ids : List CompositeId) (hs : I s ∧ Uses T s) :
    Vouching I T (Build.touch ids) s fun _ _ => True :=
  hV.quiet hs (.aside rfl List.prefix_rfl) rfl rfl

theorem report (notice : Notice) (hs : I s ∧ Uses T s) :
    Vouching I T (Build.report notice) s fun _ _ => True :=
  hV.quiet hs (.aside rfl List.prefix_rfl) rfl rfl

/-- Reading a composite changes no type. -/
theorem composite (id : CompositeId) (hs : I s ∧ Uses T s) :
    Vouching I T (Build.composite id) s fun _ _ => True :=
  Carries.bind keeps_course (hV.touch [id] hs) fun _ _ ht _ _ =>
    Carries.get_bind (Carries.pure keeps_course ht trivial)

/-- A composite of types with the property may serve for headers. -/
theorem allocate (c : Composite) (hs : I s ∧ Uses T s) (hc : ∀ type ∈ c.propertyTypes, T s type) :
    Vouching I T (Build.allocate c) s (HeaderVouched T) := by
  have hlt : s.size < (s.allocated c).size := by
    rw [size_allocated]
    exact Nat.lt_succ_self _
  have hkeeps : Keeps T s (s.allocated c) := {
    types := fun type htype => hV.type_allocated c htype
    size_le := hlt.le
    propertyTypes := fun h hh => congrArg Composite.propertyTypes (Arena.get_push_of_lt hh) }
  have huses : Uses T (s.allocated c) :=
    hs.2.keep hkeeps (fun _ htype => .inl htype) fun _ hh => .inl hh
  refine ⟨⟨hV.allocated hs.1 hc, huses⟩, hkeeps, .inr ⟨hlt, ?_⟩⟩
  intro type htype
  change type ∈ ((s.allocated c).model.composite s.size).propertyTypes at htype
  rw [composite_allocated] at htype
  exact hkeeps.types type (hc type htype)

/-- Building a type establishes the property and puts no type to use. -/
theorem buildType (schema : Schema) (id : Pointer) (name : String) (required : Bool)
    (hs : I s ∧ Uses T s) :
    Vouching I T (Build.buildType input schema id name required) s fun type t => T t type := by
  have hspans : BuilderSpans AnyCall Extends (Build.buildType input) :=
    buildType_spans (extends_typing input AnyCall) (callsClosed_anyCall input)
  have hextends : Ensures (Build.buildType input schema id name required) s
      (fun _ t => s.Extends t) fun _ t => s.Extends t := hspans required trivial s
  refine ((hV.built schema id name required hs.1).and hextends).mono ?_ fun _ _ _ => trivial
  intro type t ht
  obtain ⟨⟨hI, htype, htypes⟩, hst⟩ := ht
  have hkeeps : Keeps T s t := {
    types := htypes
    size_le := hst.size_le
    propertyTypes := fun h hh => congrArg Composite.propertyTypes (hst.composite hh) }
  have hinterface : t.model.interfaceTypes = s.model.interfaceTypes :=
    congrArg (fun u => u.model.interfaceTypes) hst.rest
  have hheaders : t.model.headerTypes = s.model.headerTypes :=
    congrArg (fun u => u.model.headerTypes) hst.rest
  refine ⟨⟨hI, hs.2.keep hkeeps ?_ ?_⟩, hkeeps, htype⟩
  · exact fun type' htype' => .inl (hinterface ▸ htype')
  · exact fun h hh => .inl (hheaders ▸ hh)

end Vouches

end Kit

end Build

end ApiModel
