import ApiModel.Build.Parameter
import ApiModel.Proofs.Flattening
/-!
# The fields of a form

A body of form data is taken apart by the view of its node: a parameter for each name in it.  The
view has what the node declares and what its members lend, but not the member that it sets aside as
the parent.  A composite comes by the properties of the parent through its base type.  A list of
parameters has no such place, and nothing is asked of the parent when the list is made.  So what the
parent brings, and what its own parents bring, is missing: fields that only they declare are not
there, and fields that only they require are optional.
-/

namespace ApiModel

namespace SourceParameter

/-- The names of some parameters. -/
def names (sources : List SourceParameter) : List String :=
  sources.map fun s => s.parameter.name

end SourceParameter

namespace RequestBody

/-- A parameter that stands for a field which some nodes declare: it is as the last one to declare
it says, and required if any of them requires it. -/
structure IsField (b : RequestBody) (nodes : List Located) (s : SourceParameter) : Prop where
  location : s.parameter.location = .formData
  extensions : s.parameter.extensions = b.extensions
  direct : s.fromReference = false
  declared : ∃ property, (nodes.flatMap Located.declared).reverse.lookup s.parameter.name =
    some property ∧ s.schemaId = property.id ∧ s.parameter.schema = some property.schema ∧
      s.parameter.description = property.schema.description
  required : s.parameter.required = true ↔ ∃ y ∈ nodes, s.parameter.name ∈ y.schema.required

/-- The parameters are the fields which some nodes declare, each once and in order. -/
structure AreFields (b : RequestBody) (nodes : List Located) (sources : List SourceParameter) :
    Prop where
  names : SourceParameter.names sources =
    (nodes.flatMap fun y => Entries.keys y.schema.properties).eraseDups
  fields : ∀ s ∈ sources, b.IsField nodes s

variable {c : Components} {b : RequestBody} {x : Located} {nodes : List Located}
  {sources : List SourceParameter} {view : Expanded}

/-- The fields of a form have the names of the view. -/
theorem names_asFields (b : RequestBody) (view : Expanded) :
    SourceParameter.names (b.asFields view) = view.properties.keys := by
  rw [SourceParameter.names, asFields, List.map_map]
  rfl

/-- The parameters that a view comes to are the fields which its nodes declare. -/
theorem areFields_of_flattened (h : c.Flattened x nodes view) :
    b.AreFields (nodes ++ [x]) (b.asFields view) where
  names := (names_asFields b view).trans h.names
  fields s hs := by
    obtain ⟨⟨name, property⟩, hentry, rfl⟩ := List.mem_map.mp hs
    refine ⟨rfl, rfl, rfl, ⟨property, ?_, rfl, rfl, rfl⟩, ?_⟩
    · rw [← h.last]
      exact (Entries.get?_eq_some_iff h.nodup_keys).mpr hentry
    · change view.required.contains name = true ↔ _
      rw [List.contains_iff_mem, h.required, List.mem_eraseDups, List.mem_flatMap]

namespace AreFields

/-- No two fields of a form have the same name. -/
theorem nodup (h : b.AreFields nodes sources) : (SourceParameter.names sources).Nodup := by
  rw [h.names]
  exact nodup_eraseDups _

/-- A form has the names that one of its nodes declares. -/
theorem mem_names_iff (h : b.AreFields nodes sources) {name : String} :
    name ∈ SourceParameter.names sources ↔
      ∃ y ∈ nodes, name ∈ Entries.keys y.schema.properties := by
  rw [h.names, List.mem_eraseDups, List.mem_flatMap]

end AreFields

end RequestBody

namespace Components

variable {c : Components} {x : Located} {nodes : List Located}

/-- A name is required by a node through `allOf`: by one of the nodes that it is made of. -/
def Requires (c : Components) (x : Located) (name : String) : Prop :=
  ∃ z, c.Comprises x z ∧ name ∈ z.schema.required

/-- The parameters are the fields of a node with all that it is made of: one for each name that it
comes by, and required if one of those nodes requires it. -/
structure AllFields (c : Components) (x : Located) (sources : List SourceParameter) : Prop where
  location : ∀ s ∈ sources, s.parameter.location = .formData
  distinct : (SourceParameter.names sources).Nodup
  names : ∀ name, name ∈ SourceParameter.names sources ↔ c.Inherits x name
  required : ∀ s ∈ sources, s.parameter.required = true ↔ c.Requires x s.parameter.name

/-- A body of form data is taken apart by the view of the node that its schema leads to. -/
theorem recast_eq {b : RequestBody} {schema : Schema} {pointer : Pointer}
    (hform : b.isFormData = true) (hschema : b.schema? = some schema)
    (hx : c.unwrap schema (b.schemaPointer pointer) = .ok x) :
    c.recast b pointer = (c.expand x).map b.asFields := by
  rw [recast, if_pos hform, hschema]
  change (c.unwrap schema (b.schemaPointer pointer) >>= _) = _
  rw [hx]
  rfl

/-- What holds of some node that lends, or of the node itself, is what holds of some node that it is
made of, exactly if the nodes behind the parent add nothing. -/
theorem Lenders.told_iff (h : c.Lenders x.mixins nodes) {told : Prop} {p : Located → Prop}
    (htold : told ↔ ∃ y ∈ nodes ++ [x], p y) :
    (told ↔ ∃ z, c.Comprises x z ∧ p z) ↔ ∀ z, c.FromParent x z → p z → told := by
  constructor
  · intro hall z hz hp
    exact hall.mpr ⟨z, hz.comprises, hp⟩
  · intro hparent
    constructor
    · intro hmentioned
      obtain ⟨y, hy, hp⟩ := htold.mp hmentioned
      exact ⟨y, h.comprises_iff.mpr (.inl hy), hp⟩
    · rintro ⟨z, hz, hp⟩
      obtain hlisted | hbehind := h.comprises_iff.mp hz
      · exact htold.mpr ⟨z, hlisted, hp⟩
      · exact hparent z hbehind hp

/-- The fields of the nodes that lend are all fields exactly if the nodes behind the parent neither
declare nor require more. -/
theorem allFields_iff {b : RequestBody} {sources : List SourceParameter}
    (h : c.Lenders x.mixins nodes) (hfields : b.AreFields (nodes ++ [x]) sources) :
    c.AllFields x sources ↔ ∀ z, c.FromParent x z →
      Entries.keys z.schema.properties ⊆ SourceParameter.names sources ∧
      ∀ s ∈ sources, s.parameter.name ∈ z.schema.required → s.parameter.required = true := by
  have hnames (name : String) : (name ∈ SourceParameter.names sources ↔ c.Inherits x name) ↔
      ∀ z, c.FromParent x z → name ∈ Entries.keys z.schema.properties →
        name ∈ SourceParameter.names sources := by
    rw [inherits_iff_comprises]
    exact h.told_iff hfields.mem_names_iff
  have hrequired {s : SourceParameter} (hs : s ∈ sources) :
      (s.parameter.required = true ↔ c.Requires x s.parameter.name) ↔
        ∀ z, c.FromParent x z → s.parameter.name ∈ z.schema.required →
          s.parameter.required = true :=
    h.told_iff (hfields.fields s hs).required
  constructor
  · intro hall z hz
    refine ⟨fun name hname => ?_, fun s hs hname => ?_⟩
    · exact (hnames name).mp (hall.names name) z hz hname
    · exact (hrequired hs).mp (hall.required s hs) z hz hname
  · intro hparent
    refine ⟨fun s hs => (hfields.fields s hs).location, hfields.nodup, fun name => ?_,
      fun s hs => ?_⟩
    · exact (hnames name).mpr fun z hz hname => (hparent z hz).1 hname
    · exact (hrequired hs).mpr fun z hz hname => (hparent z hz).2 s hs hname

end Components

namespace Document

/-- **What a form is taken apart into.**  A body of form data whose schema leads to a node is taken
apart unless flattening the node gets stuck.  There is one parameter, and it travels as form data,
for each name that the node itself or one of the nodes that lend to it declares; it is required
exactly if one of them requires it.  The node is made of these nodes and of those behind its parent.
So all its fields are there, required as they should be, exactly if those behind the parent declare
no further name and require no further field. -/
theorem form_fields (d : Document) {b : RequestBody} {schema : Schema} {pointer : Pointer}
    {x : Located} (hform : b.isFormData = true) (hschema : b.schema? = some schema)
    (hx : d.components.unwrap schema (b.schemaPointer pointer) = .ok x) :
    ((∃ sources, d.components.recast b pointer = .ok sources) ↔ ∀ e, ¬ d.components.Blocked x e) ∧
    ∀ sources, d.components.recast b pointer = .ok sources →
      ∃ nodes, d.components.Lenders x.mixins nodes ∧ b.AreFields (nodes ++ [x]) sources ∧
        (∀ z, d.components.Comprises x z ↔ z ∈ nodes ++ [x] ∨ d.components.FromParent x z) ∧
        (d.components.AllFields x sources ↔ ∀ z, d.components.FromParent x z →
          Entries.keys z.schema.properties ⊆ SourceParameter.names sources ∧
          ∀ s ∈ sources, s.parameter.name ∈ z.schema.required →
            s.parameter.required = true) := by
  rw [Components.recast_eq hform hschema hx]
  constructor
  · rw [← Components.expand_ok_iff]
    constructor
    · rintro ⟨sources, hsources⟩
      obtain ⟨view, hview, -⟩ := Except.map_eq_ok_iff.mp hsources
      exact ⟨view, hview⟩
    · rintro ⟨view, hview⟩
      exact ⟨b.asFields view, by rw [hview]; rfl⟩
  · intro sources hsources
    obtain ⟨view, hview, rfl⟩ := Except.map_eq_ok_iff.mp hsources
    obtain ⟨nodes, hflattened⟩ := Components.flattened_of_expand hview
    have hfields : b.AreFields (nodes ++ [x]) (b.asFields view) :=
      RequestBody.areFields_of_flattened hflattened
    exact ⟨nodes, hflattened.lenders, hfields, fun z => hflattened.lenders.comprises_iff,
      Components.allFields_iff hflattened.lenders hfields⟩

/-- A form that extends another one. -/
def letter : Located where
  id := .component "Letter"
  schema := {
    allOf := [{ reference := some "#/components/schemas/Mail" }]
    properties := [("text", .ofType .string)] }

/-- The form that is extended, which requires a field of each of the two. -/
def mail : Located where
  id := .component "Mail"
  schema := {
    required := ["sender", "text"]
    properties := [("sender", .ofType .string)] }

/-- A body that is sent as the form. -/
def letterBody : RequestBody where
  content := [("multipart/form-data", {
    schema := some { reference := some "#/components/schemas/Letter" } })]

/-- An operation that is sent a form. -/
def post : Document where
  openapi := "3.0.0"
  info := some { title := some "Post", version := "1" }
  paths := [("/letters", { post := some {
    operationId := some "send", requestBody := some (.node letterBody) } })]
  components := { schemas := [("Mail", mail.schema), ("Letter", letter.schema)] }

theorem post_letter (pointer : Pointer) :
    post.components.unwrap { reference := some "#/components/schemas/Letter" }
      (letterBody.schemaPointer pointer) = .ok letter := by
  have hname : Reference.schemaName "#/components/schemas/Letter" = "Letter" := by decide +kernel
  have htarget : post.components.dereference "#/components/schemas/Letter" = .ok letter.schema := by
    rw [Components.dereference_eq_ok_iff, hname]
    rfl
  have hleads : post.components.Leads ⟨letterBody.schemaPointer pointer,
      { reference := some "#/components/schemas/Letter" }⟩ letter :=
    .reference rfl htarget (by rw [hname]; exact .own rfl rfl)
  exact Components.unwrap_eq_ok_iff_leads.mpr hleads

/-- The sender comes by way of the parent. -/
theorem post_fromParent : post.components.FromParent letter mail := by
  have hparent : letter.schema.parentName? = some "Mail" := by decide +kernel
  exact ⟨"Mail", mail.schema, hparent, rfl, mail, .own rfl rfl, .self mail⟩

/-- A letter is taken apart into its text alone, and the text is optional. -/
theorem post_recast : ∃ sources,
    post.components.recast letterBody ⟨"#/paths/~1letters/post/requestBody"⟩ = .ok sources ∧
      SourceParameter.names sources = ["text"] ∧
      sources.all (fun s => !s.parameter.required) = true := by
  have hrecast : (post.components.recast letterBody ⟨"#/paths/~1letters/post/requestBody"⟩).map
      (fun sources => (SourceParameter.names sources,
        sources.all fun s => !s.parameter.required)) = .ok (["text"], true) := by
    decide +kernel
  obtain ⟨sources, hsources, hlisted⟩ := Except.map_eq_ok_iff.mp hrecast
  obtain ⟨hnames, hrequired⟩ := Prod.mk.inj hlisted
  exact ⟨sources, hsources, hnames, hrequired⟩

/-- The parent of the letter declares a further field, so the text is not all there is. -/
theorem form_fields_letter : ∃ sources,
    post.components.recast letterBody ⟨"#/paths/~1letters/post/requestBody"⟩ = .ok sources ∧
      SourceParameter.names sources = ["text"] ∧ ¬ post.components.AllFields letter sources := by
  obtain ⟨sources, hsources, hnames, -⟩ := post_recast
  obtain ⟨nodes, -, -, -, hall⟩ :=
    (form_fields post (b := letterBody) rfl rfl (post_letter _)).2 sources hsources
  refine ⟨sources, hsources, hnames, fun hfields => ?_⟩
  have hsender := (hall.mp hfields mail post_fromParent).1 List.mem_cons_self
  rw [hnames] at hsender
  exact absurd hsender (by decide)

/-- Not every form is taken apart into all its fields. -/
theorem form_fields_missing :
    ¬ ∀ (d : Document) (b : RequestBody) (schema : Schema) (pointer : Pointer) (x : Located)
      (sources : List SourceParameter), b.isFormData = true → b.schema? = some schema →
        d.components.unwrap schema (b.schemaPointer pointer) = .ok x →
        d.components.recast b pointer = .ok sources → d.components.AllFields x sources := by
  intro hall
  obtain ⟨sources, hsources, hnames, -⟩ := post_recast
  have hfields := hall post letterBody _ _ letter sources rfl rfl (post_letter _) hsources
  have hsender : post.components.Inherits letter "sender" :=
    Components.inherits_iff_comprises.mpr ⟨mail, post_fromParent.comprises, List.mem_cons_self⟩
  have hmem := (hfields.names "sender").mpr hsender
  rw [hnames] at hmem
  exact absurd hmem (by decide)

end Document

end ApiModel
