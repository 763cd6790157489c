import ApiModel.Proofs.Equality
import ApiModel.Proofs.Feasibility
import ApiModel.Proofs.ReachedNodes
/-!
# Objects without members

Whether empty classes are admitted makes a difference to one kind of node: an object that says
nothing of its members.  It is taken for a type that is not told further, or it becomes a composite
without properties; every other node has one plan under both decisions.  So what a call comes to
when empty classes are admitted is known from what it comes to when they are not.
-/

namespace ApiModel

namespace Schema

/-- The node is an object, and says nothing of its members. -/
structure IsHollow (s : Schema) : Prop where
  type : s.dataType? = some .object
  format : s.format ≠ some "file"
  properties : s.properties = []
  allOf : s.allOf = []
  values : s.valueSchema? = none
  enumValues : s.enumValues = none

variable {s : Schema}

/-- A hollow node is an opaque object without empty classes, and a composite with them. -/
theorem IsHollow.shape (h : s.IsHollow) :
    s.shape false = .opaqueKind .object ∧ s.shape true = .composite := by
  have hformat : ¬ (s.format == some "file") = true := by simpa using h.format
  unfold Schema.shape
  simp [h.type, h.properties, h.allOf, h.values, h.enumValues, hformat]

/-- Only where a node is hollow does its shape depend on the decision. -/
theorem isHollow_or_shape_eq (s : Schema) : s.IsHollow ∨ s.shape true = s.shape false := by
  by_cases hother : (s.dataType?.isSome && !(s.dataType? == some .object)) = true
  · exact .inr (by simp [Schema.shape, hother])
  by_cases hprimitive : (s.properties.isEmpty && s.allOf.isEmpty &&
      (s.valueSchema?.isSome || s.enumValues.isSome)) = true
  · exact .inr (by simp [Schema.shape, hother, hprimitive])
  by_cases hfile : (s.dataType? == some .object && s.format == some "file") = true
  · exact .inr (by simp [Schema.shape, hother, hprimitive, hfile])
  by_cases hmemberless : (s.properties.isEmpty && s.allOf.isEmpty) = true
  · by_cases hobject : s.dataType? = some .object
    · obtain ⟨hproperties, hallOf⟩ := Bool.and_eq_true_iff.mp hmemberless
      simp only [hmemberless, Bool.true_and, Bool.or_eq_true, not_or, Bool.not_eq_true,
        Option.isSome_eq_false_iff, Option.isNone_iff_eq_none] at hprimitive
      refine .inl ⟨hobject, ?_, List.isEmpty_iff.mp hproperties, List.isEmpty_iff.mp hallOf,
        hprimitive.1, hprimitive.2⟩
      simpa [hobject] using hfile
    · exact .inr (by simp [Schema.shape, hother, hprimitive, hobject])
  · exact .inr (by simp [Schema.shape, hother, hfile, hmemberless])

/-- What is a composite although empty classes are not admitted has members. -/
theorem members_of_shape (h : s.shape false = .composite) :
    s.properties ≠ [] ∨ s.allOf ≠ [] := by
  by_contra hnone
  simp only [not_or, not_not] at hnone
  unfold Schema.shape at h
  simp only [hnone.1, hnone.2, List.isEmpty_nil, Bool.and_self, Bool.true_and, Bool.false_and,
    Bool.not_false] at h
  split_ifs at h

/-- A hollow node extends nothing. -/
theorem IsHollow.parentName (h : s.IsHollow) : s.parentName? = none := by
  unfold parentName?
  rw [h.allOf]
  rfl

/-- A hollow node has no literals to be told of by the reference to it. -/
theorem isHollow_of_documentedBy {t : Schema} (h : (Build.documentedBy s t).IsHollow) :
    Build.documentedBy s t = t := by
  have hliterals := h.enumValues
  unfold Build.documentedBy at hliterals ⊢
  split_ifs with hdocumented
  · rw [if_pos hdocumented] at hliterals
    simp [show t.enumValues = none from hliterals] at hdocumented
  · rfl

end Schema

namespace Document

open Build

/-- A schema that the document hands over to a build, or one below, under its pointer. -/
inductive Handed (d : Document) : Located → Prop
  | component {name : String} {s : Schema} (hs : (name, s) ∈ d.components.schemas) :
    Handed d ⟨.component name, s⟩
  | clientProperty {entry : String × RefOr Parameter} {p : Parameter}
    (hentry : entry ∈ d.components.parameters)
    (hp : d.components.resolveParameter entry.2 = .ok (.parameter p)) :
    Handed d ⟨(Components.sectionPointer .parameters entry.1).child "schema", p.valueSchema⟩
  | parameter {site : OperationSite} {sources : List SourceParameter} {source : SourceParameter}
    (hsite : site ∈ documentSites d)
    (hsources : d.components.collectParameters site.item site.operation site.pathPointer
      site.pointer = .ok sources) (hsource : source ∈ sources) :
    Handed d ⟨source.schemaId, source.parameter.valueSchema⟩
  | headersSchema {site : OperationSite} {entry : String × RefOr Response} {response : Response}
    {extension : Json} {schema : Schema} (hsite : site ∈ documentSites d)
    (hentry : entry ∈ site.operation.responses)
    (hresponse : d.components.resolveResponse entry.2 = .ok response)
    (hextension : Entries.get? response.extensions Extensions.headersKey = some extension)
    (hschema : Schema.ofTree? .typed (.ofJson extension) = some schema) :
    Handed d ⟨site.pointer.descend ["responses", entry.1, Extensions.headersKey], schema⟩
  | header {site : OperationSite} {headers : Entries Header} {entry : String × Header}
    (hsite : site ∈ documentSites d)
    (hheaders : d.components.classicalHeaders site.operation.responses = .ok headers)
    (hentry : entry ∈ headers) :
    Handed d ⟨(site.pointer.child "headers").child entry.1, entry.2.valueSchema⟩
  | body {site : OperationSite} {entry : String × RefOr Response} {response : Response}
    {schema : Schema} (hsite : site ∈ documentSites d)
    (hentry : entry ∈ site.operation.responses)
    (hresponse : d.components.resolveResponse entry.2 = .ok response)
    (hschema : response.schema? = some schema) :
    Handed d ⟨response.bodyPointer site.pointer entry.1, schema⟩
  | hostVariable {server : Server} {entry : String × ServerVariable}
    (hserver : d.servers.head? = some server) (hentry : entry ∈ server.templateVariables) :
    Handed d ⟨(hostSource entry.1 entry.2).schemaId,
      (hostSource entry.1 entry.2).parameter.valueSchema⟩
  | child {x y : Located} (hx : Handed d x) (hy : y ∈ x.children) : Handed d y

/-- A build may come to the node: it is handed over, as it stands or dressed up. -/
def Visited (d : Document) (x : Located) : Prop :=
  ∃ base, d.Handed ⟨x.id, base⟩ ∧ x.schema.Restates base

/-- The calls for nodes that a build may come to. -/
abbrev VisitedCall (d : Document) : Located → String → Prop :=
  fun x _ => d.Visited x

/-- No pointer stands for an object without members and for one with members. -/
def ApartNodes (d : Document) : Prop :=
  ∀ {x y : Located}, d.Visited x → x.schema.IsHollow → d.Visited y →
    y.schema.shape false = .composite → x.id ≠ y.id

variable {d : Document}

/-- The nodes that are visited are closed under going down. -/
theorem visited_hereditary : Hereditary d.components d.Visited where
  component {name s} hs := ⟨s, Handed.component hs, Schema.Restates.refl s⟩
  child {x y} hx hy := by
    obtain ⟨base, hhanded, hrestates⟩ := hx
    have hy' : y ∈ Located.children ⟨x.id, base⟩ := by
      rw [← hrestates.children]
      exact hy
    exact ⟨y.schema, Handed.child hhanded hy', Schema.Restates.refl _⟩

theorem calledAt_of_handed {id : Pointer} {base : Schema} (h : d.Handed ⟨id, base⟩) :
    CalledAt d.VisitedCall id base :=
  fun _ _ hs => ⟨base, h, hs.restates⟩

/-- All calls of a build are for nodes that it may come to. -/
theorem documentCalls_visited {options : Options} :
    DocumentCalls ⟨d, options⟩ d.VisitedCall where
  closed hx hy := below_of_hereditary visited_hereditary hx hy
  components _ hentry := ⟨_, .component hentry, .refl _⟩
  clientProperties _ hentry _ hp := calledAt_of_handed (.clientProperty hentry hp)
  parameters _ hsite _ hsources _ hsource :=
    calledAt_of_handed (.parameter hsite hsources hsource)
  headerSchemas _ hsite _ hentry _ hresponse _ hextension _ hschema :=
    calledAt_of_handed (.headersSchema hsite hentry hresponse hextension hschema)
  headers _ hsite _ hheaders _ hentry := calledAt_of_handed (.header hsite hheaders hentry)
  bodies _ hsite _ hentry _ hresponse _ hschema :=
    calledAt_of_handed (.body hsite hentry hresponse hschema)
  hostVariables _ hserver _ hentry := calledAt_of_handed (.hostVariable hserver hentry)

/-- Where names are plain, what is handed over is reached. -/
theorem Handed.reached (hd : d.DistinctNames) (hplain : d.PlainNames) {x : Located}
    (h : d.Handed x) : d.Reached x := by
  have hcalls : DocumentCalls ⟨d, {}⟩ (ReachedCall d) := documentCalls_reached hd hplain
  induction h with
  | @component name s hs => exact hcalls.components (name, s) hs
  | clientProperty hentry hp => exact hcalls.clientProperties _ hentry _ hp _ "" (.refl _)
  | parameter hsite hsources hsource =>
    exact hcalls.parameters _ hsite _ hsources _ hsource _ "" (.refl _)
  | headersSchema hsite hentry hresponse hextension hschema =>
    exact hcalls.headerSchemas _ hsite _ hentry _ hresponse _ hextension _ hschema _ "" (.refl _)
  | header hsite hheaders hentry =>
    exact hcalls.headers _ hsite _ hheaders _ hentry _ "" (.refl _)
  | body hsite hentry hresponse hschema =>
    exact hcalls.bodies _ hsite _ hentry _ hresponse _ hschema _ "" (.refl _)
  | hostVariable hserver hentry => exact hcalls.hostVariables _ hserver _ hentry _ "" (.refl _)
  | child _ hy ih => exact (reached_hereditary hd).child ih hy

/-- **Where names are plain, nodes are apart**, as different nodes have different pointers. -/
theorem apartNodes_of_plainNames (hd : d.DistinctNames) (hplain : d.PlainNames) :
    d.ApartNodes := by
  rintro x y ⟨b, hx, hrestates⟩ hhollow ⟨b', hy, hrestates'⟩ hshape hid
  obtain ⟨base, ⟨path, hpath, hwritten⟩, hbase⟩ := hx.reached hd hplain
  obtain ⟨base', ⟨path', hpath', hwritten'⟩, hbase'⟩ := hy.reached hd hplain
  obtain rfl : path = path' :=
    written_reached_inj hplain hpath hpath' (hwritten.symm.trans (hid.trans hwritten'))
  obtain rfl : base = base' := Option.some.inj (hpath.symm.trans hpath')
  obtain ⟨_, _, _, hfirst⟩ := hrestates.trans hbase
  obtain ⟨_, _, _, hsecond⟩ := hrestates'.trans hbase'
  have hproperties : y.schema.properties = x.schema.properties := by rw [hfirst, hsecond]
  have hallOf : y.schema.allOf = x.schema.allOf := by rw [hfirst, hsecond]
  rcases Schema.members_of_shape hshape with hmembers | hmembers
  · exact hmembers (hproperties.trans hhollow.properties)
  · exact hmembers (hallOf.trans hhollow.allOf)

end Document

/-- The document, to be built without empty classes. -/
abbrev Document.strict (d : Document) (options : Options) : BuildInput :=
  ⟨d, { options with generateEmptyClasses := false }⟩

/-- The document, to be built with empty classes. -/
abbrev Document.lenient (d : Document) (options : Options) : BuildInput :=
  ⟨d, { options with generateEmptyClasses := true }⟩

namespace Build

variable {d : Document} {options : Options} {x : Located} {name : String} {required : Bool}
  {plan : TypePlan}

/-- **What admitting empty classes does to a plan**: it stays, or it was for a hollow node, which
becomes a composite. -/
theorem planType_lenient (h : planType (d.strict options) x name required = .ok plan) :
    planType (d.lenient options) x name required = .ok plan ∨
      ∃ y, d.components.unwrap x.schema x.id = .ok y ∧ y.schema.IsHollow ∧
        plan = .plain { kind := .object } ∧
        planType (d.lenient options) x name required =
          .ok (.composite y (x.schema.proposedName name)) := by
  unfold planType at h ⊢
  split at h
  · cases h
  rename_i node hnode
  have hlenient : (d.lenient options).components.unwrap x.schema x.id = .ok node := hnode
  rw [hlenient]
  dsimp only at h ⊢
  split_ifs at h with hdangling
  rw [if_neg hdangling]
  rcases (documentedBy x.schema node.schema).isHollow_or_shape_eq with hhollow | hshape
  · refine .inr ⟨node, hlenient, ?_⟩
    rw [hhollow.shape.1] at h
    rw [hhollow.shape.2, Schema.isHollow_of_documentedBy hhollow]
    rw [Schema.isHollow_of_documentedBy hhollow] at hhollow
    exact ⟨hhollow, (Except.ok.inj h).symm, rfl⟩
  · refine .inl ?_
    rw [hshape]
    exact h

/-- A plan for a composite is for a node with members if empty classes are not admitted. -/
theorem shape_of_strict_plan {y : Located} {hint : String}
    (h : planType (d.strict options) x name required = .ok (.composite y hint)) :
    y.schema.shape false = .composite := by
  obtain ⟨node, -, ⟨-, -, hother⟩ | ⟨-, type, hplain⟩ | ⟨hshape, hplan⟩⟩ := node_of_plan h
  · exact absurd rfl (hother y hint)
  · cases hplain
  · cases hplan
    rw [documentedBy_shape]
    exact hshape

/-- The view of a hollow node has no parent and no properties. -/
theorem expand_hollow {y : Located} (h : y.schema.IsHollow) (c : Components) :
    c.expand y = .ok { required := y.schema.required.foldl addNew [] } := by
  have hown : Expanded.withOwn {} y = { required := y.schema.required.foldl addNew [] } := by
    unfold Expanded.withOwn
    rw [h.properties]
    rfl
  unfold Components.expand
  rw [Components.collect_succ, h.allOf, ← hown]
  rfl

/-- A hollow node has no fields. -/
theorem fields_hollow {y : Located} (h : y.schema.IsHollow) (c : Components) (hint : String)
    (required : List String) : fields c y hint { required := required } = [] := by
  unfold fields catchAllField
  rw [h.values]
  simp

end Build

end ApiModel
