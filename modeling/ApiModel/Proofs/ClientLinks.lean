import ApiModel.Proofs.DistinctParameters
import ApiModel.Proofs.MergedParameters
import ApiModel.Proofs.Rebuilding
import ApiModel.Proofs.Sections
/-!
# The client properties of parameters

An operation that refers to a component parameter gets a parameter of its own, which is told the
index of a client property.  The index is not kept from where the reference was followed: it is
searched for among the client properties, by the name on the wire.  Component parameters in
different locations may share a name, so what is found is the first of them, whichever it is that
the operation refers to.

That first one was built from its schema when the client properties were, the parameter of the
operation after that.  If both come of one component parameter, then the second build ends with the
type of the first (`typeBuilder_replays`), so the parameter and its client property are alike.
-/

namespace ApiModel

namespace SourceParameter

/-- A parameter as the client has it, whoever refers to it. -/
def shared (s : SourceParameter) : SourceParameter :=
  { s with fromReference := false }

/-- What is told apart stands on either side of the headers that every client sets by itself. -/
theorem ToldApart.isBuilt {sources : List SourceParameter} {s t : SourceParameter}
    (h : ToldApart sources s t) : t.isBuilt = s.isBuilt := by
  by_cases hheader : s.parameter.location = .header
  · rw [h.other (by simp [hheader]) (by simp [hheader])]
  · rw [SourceParameter.isBuilt, SourceParameter.isBuilt, h.location, beq_eq_false_iff_ne.mpr hheader,
      Bool.false_and, Bool.false_and]

/-- Telling parameters apart makes no reference of a declaration. -/
theorem ToldApart.fromReference {sources : List SourceParameter} {s t : SourceParameter}
    (h : ToldApart sources s t) : t.fromReference = s.fromReference :=
  h.congr (·.fromReference) (fun _ => rfl) fun _ => rfl

theorem chosen_fromReference (consumed : List String) (s : SourceParameter) :
    (s.chosen consumed).fromReference = s.fromReference := by
  unfold chosen
  split_ifs <;> rfl

end SourceParameter

open SourceParameter

namespace Components

variable {c : Components} {source : SourceParameter}

/-- A declaration of a parameter is a reference to a component parameter, and the parameter is what
the reference comes to. -/
def RefersTo (c : Components) (declared : List (RefOr Parameter)) (source : SourceParameter) :
    Prop :=
  ∃ path, RefOr.reference path ∈ declared ∧
    c.resolveParameter (.reference path) = .ok (.parameter source.parameter) ∧
    source.schemaId = (referencePointer .parameters path).child "schema"

/-- Component parameters stand in their place: none of them comes by a reference. -/
theorem fromReference_of_mem_sharedSources (h : source ∈ c.sharedSources) :
    source.fromReference = false := by
  obtain ⟨entry, -, hentry⟩ := List.mem_filterMap.mp h
  unfold sharedSource? at hentry
  split at hentry
  · cases hentry
    rfl
  · cases hentry

/-- A parameter that is referred to is one of those that operations share. -/
theorem RefersTo.mem_sharedSources {declared : List (RefOr Parameter)}
    (h : c.RefersTo declared source) : source.shared ∈ c.sharedSources := by
  obtain ⟨path, -, hresolves, hid⟩ := h
  have hlead : ¬ Reference.leadsInto path .requestBodies = true := by
    intro hlead
    rw [resolveParameter, followParameter_body hlead] at hresolves
    obtain ⟨_, -, hbody⟩ := Except.map_eq_ok_iff.mp hresolves
    cases hbody
  obtain ⟨next, hnamed, hnext⟩ := resolveParameter_named hlead hresolves
  refine List.mem_filterMap.mpr ⟨_, Entries.mem_of_get? hnamed, ?_⟩
  rw [sharedSource?, hnext, SourceParameter.shared, hid]
  rfl

/-- What a request body is taken apart into is declared on the spot. -/
theorem fromReference_recast {b : RequestBody} {pointer : Pointer} {block : List SourceParameter}
    (h : c.recast b pointer = .ok block) (hsource : source ∈ block) :
    source.fromReference = false := by
  unfold recast at h
  split_ifs at h
  · split at h
    · cases h
      cases hsource
    · obtain ⟨node, -, h⟩ := Except.bind_eq_ok_iff.mp h
      obtain ⟨view, -, h⟩ := Except.bind_eq_ok_iff.mp h
      cases h
      obtain ⟨entry, -, rfl⟩ := List.mem_map.mp hsource
      rfl
  · cases h
    rw [List.mem_singleton.mp hsource]
    rfl

/-- Of what a declaration stands for, it refers to what is marked as referred to. -/
theorem StandsFor.refersTo {x : RefOr Parameter} {pointer : Pointer}
    {block : List SourceParameter} {declared : List (RefOr Parameter)}
    (h : c.StandsFor pointer x block) (hx : x ∈ declared) (hsource : source ∈ block)
    (href : source.fromReference = true) : c.RefersTo declared source := by
  cases h with
  | node parameter =>
    rw [List.mem_singleton.mp hsource] at href
    cases href
  | parameter htarget =>
    rw [List.mem_singleton.mp hsource]
    exact ⟨_, hx, htarget, rfl⟩
  | requestBody _ hblock =>
    rw [fromReference_recast hblock hsource] at href
    cases href

/-- **Where a parameter of an operation is marked as referred to**, its path or the operation itself
refers to it. -/
theorem refersTo_of_collectParameters {item : PathItem} {operation : Operation}
    {pathPointer pointer : Pointer} {sources : List SourceParameter}
    (h : c.collectParameters item operation pathPointer pointer = .ok sources)
    (hsource : source ∈ sources) (href : source.fromReference = true) :
    c.RefersTo (item.parameters ++ operation.parameters) source := by
  rcases mem_collectParameters h hsource with ⟨x, index, block, hx, hblock, hmem⟩ |
    ⟨x, index, block, hx, hblock, hmem⟩ | ⟨declared, body, block, -, -, hblock, hmem⟩
  · have hx := List.mem_append_left operation.parameters (List.fst_mem_of_mem_zipIdx hx)
    exact (sourceParameter_ok_iff.mp hblock).refersTo hx hmem href
  · have hx := List.mem_append_right item.parameters (List.fst_mem_of_mem_zipIdx hx)
    exact (sourceParameter_ok_iff.mp hblock).refersTo hx hmem href
  · rw [fromReference_recast hblock hmem] at href
    cases href

end Components

namespace Build

open BuildState

variable {input : BuildInput} {source : SourceParameter} {s t u v : BuildState}

/-- The type of a parameter is built again by what its build left behind. -/
theorem buildParameterType_replays (input : BuildInput) (source : SourceParameter)
    (s : BuildState) : Replays (buildParameterType input source) s := by
  unfold buildParameterType Replays
  dsimp only
  cases source.parameter.schema with
  | none =>
    dsimp only [Option.map_none]
    split_ifs
    · exact trivial
    · exact fun _ _ => rfl
  | some schema =>
    dsimp only [Option.map_some]
    rw [ensures_bind]
    have htype (schema : Schema) (name : String) :
        Replays (buildType input schema source.schemaId name source.parameter.isRequired) s :=
      typeBuilder_replays input _ ⟨source.schemaId, schema⟩ name _ s
    refine Ensures.mono (htype _ _) ?_ fun _ _ _ => trivial
    intro type t hagain
    rw [ensures_bind, ensures_resolving]
    refine ⟨fun target htarget => ?_, fun _ _ => trivial⟩
    intro u htu
    rw [run_bind, hagain u htu]
    dsimp only
    rw [htarget]
    rfl

/-- So is a parameter that no reference led to. -/
theorem buildParameter_replays (href : source.fromReference = false) (s : BuildState) :
    Replays (buildParameter input source) s := by
  unfold buildParameter Replays
  simp only [href, Bool.false_eq_true, if_false]
  rw [ensures_bind]
  refine Ensures.mono (buildParameterType_replays input source s) ?_ fun _ _ _ => trivial
  intro result t hagain
  rw [ensures_bind, ensures_get]
  intro u htu
  rw [run_bind, hagain u htu]
  rfl

/-- The index is all that a parameter has from a reference. -/
theorem buildParameter_shared {p : MethodParameter}
    (hrun : (buildParameter input source).run s = (.ok p, t)) :
    (buildParameter input source.shared).run s = (.ok { p with clientProperty := none }, t) := by
  obtain ⟨result, u, htype, hrest⟩ := run_bind_eq_ok_iff.mp hrun
  refine run_bind_eq_ok_iff.mpr ⟨result, u, htype, ?_⟩
  cases hrest
  rfl

/-- **A parameter is like its client property.**  Where the client property of a component parameter
was built, a later parameter of an operation that refers to this component takes over the same. -/
theorem clientProperty_replays {shared p : MethodParameter}
    (hshared : (buildParameter input source.shared).run s = (.ok shared, t)) (htu : t.Retains u)
    (hrun : (buildParameter input source).run u = (.ok p, v)) :
    clientProperty p = clientProperty shared := by
  have hagain := (buildParameter_replays rfl s).run_again hshared htu
  cases hagain.symm.trans (buildParameter_shared hrun)
  rfl

end Build

open Build

namespace Method

/-- The parameters of a method come of those of its operation, one for one, but for the headers that
every client sets by itself.  A parameter and what is declared of it are set beside each other, and
between them what is built, which may have another name, be required or have literals. -/
def ParametersDeclared (d : Document)
    (R : SourceParameter → SourceParameter → MethodParameter → Prop) (site : OperationSite)
    (m : Method) : Prop :=
  ∃ sources consumed,
    d.components.collectParameters site.item site.operation site.pathPointer site.pointer =
      .ok sources ∧
    d.components.consumedTypes site.operation = .ok consumed ∧
    List.Forall₂ (fun source p => ∃ settled, ToldApart sources source settled ∧
        R source (settled.chosen consumed) p)
      (sources.filter SourceParameter.isBuilt) m.parameters

end Method

/-- What a parameter of a method has to do with the client properties.  A parameter that is referred
to is told the index of the first client property with its name on the wire; there is one unless a
body was renamed.  If that is the one of its own component and nothing of the parameter was changed,
then the two are alike. -/
structure LinksFirst (c : Components) (properties : List Property)
    (declared : List (RefOr Parameter)) (source built : SourceParameter) (p : MethodParameter) :
    Prop where
  referred : source.fromReference = true →
    c.RefersTo declared source ∧ source.shared ∈ c.sharedSources
  searched : p.clientProperty =
    if source.fromReference then c.sharedSources.findIdx? (·.parameter.name == p.serializedName)
    else none
  named : source.parameter.location ≠ .body → p.serializedName = source.parameter.name
  found : source.fromReference = true → source.parameter.location ≠ .body →
    ∃ i, p.clientProperty = some i
  alike : ∀ i, p.clientProperty = some i → ∃ first q,
    c.sharedSources[i]? = some first ∧ first.parameter.name = p.serializedName ∧
    properties[i]? = some q ∧ (first = source.shared → built = source → q = clientProperty p)

namespace Build

open BuildState

/-- What stands across from a member of a list. -/
theorem getElem?_of_forall₂ {α β : Type} {R : α → β → Prop} {as : List α} {bs : List β} {i : Nat}
    {a : α} (h : List.Forall₂ R as bs) (ha : as[i]? = some a) : ∃ b, bs[i]? = some b ∧ R a b := by
  induction h generalizing i with
  | nil => simp at ha
  | cons hab _ ih =>
    cases i with
    | zero =>
      cases ha
      exact ⟨_, rfl, hab⟩
    | succ i => exact ih ha

section Clients

variable {input : BuildInput} {s t u v w : BuildState} {built : List MethodParameter}
  (hclients : List.Forall₂ (BuiltAmid input Retains s t) input.components.sharedSources built)
  (hproperties : t.model.properties = built.map clientProperty)
include hclients hproperties

/-- A search among the client properties is one among the component parameters. -/
theorem findIdx?_clients (name : String) :
    (t.model.properties.findIdx? fun q => q.serializedName == some name) =
      input.components.sharedSources.findIdx? fun shared => shared.parameter.name == name := by
  have hnames : t.model.properties.map Property.serializedName =
      input.components.sharedSources.map fun shared => some shared.parameter.name := by
    rw [hproperties, List.map_map]
    refine map_eq_of_forall₂ (fun shared q hq => ?_) hclients
    obtain ⟨-, hserialized, -⟩ := hq.of_ensures (buildParameter_identity input)
    exact congrArg some hserialized
  have hmap := congrArg (List.findIdx? (· == some name)) hnames
  simpa only [List.findIdx?_map, Function.comp_def, Option.some_beq_some] using hmap

/-- Where a component parameter has its client property, a later parameter that comes of the same
component is like that. -/
theorem clientProperty_of_first {first source : SourceParameter} {p : MethodParameter} {i : Nat}
    (hfirst : input.components.sharedSources[i]? = some first) (htu : t.Retains u)
    (hrun : (buildParameter input source).run u = (.ok p, v)) :
    ∃ q, t.model.properties[i]? = some q ∧ (first = source.shared → q = clientProperty p) := by
  obtain ⟨shared, hshared, hamid⟩ := getElem?_of_forall₂ hclients hfirst
  refine ⟨clientProperty shared, ?_, ?_⟩
  · rw [hproperties, List.getElem?_map, hshared]
    rfl
  · rintro rfl
    obtain ⟨_, x, -, hbuilt, hxt⟩ := hamid
    exact (clientProperty_replays hbuilt (hxt.trans htu) hrun).symm

/-- A parameter that is built after the client properties is linked to the first with its name. -/
theorem BuiltAmid.linksFirst {declared : List (RefOr Parameter)} {sources : List SourceParameter}
    {source settled : SourceParameter} {consumed : List String} {p : MethodParameter}
    (h : BuiltAmid input (fun s t => s.Retains t ∧ s.SameFront t) t w (settled.chosen consumed) p)
    (hsettled : ToldApart sources source settled)
    (hreferred : source.fromReference = true → input.components.RefersTo declared source) :
    LinksFirst input.components t.model.properties declared source (settled.chosen consumed) p := by
  obtain ⟨u, v, ⟨htu, hfront⟩, hrun, -⟩ := h
  have hfront' := (buildParameter_spans_any (sameFront_throughout input AnyCall).toStretch
    _ u).of_run_ok hrun
  have hsearched : p.clientProperty = if source.fromReference then
      input.components.sharedSources.findIdx? (·.parameter.name == p.serializedName) else none := by
    obtain ⟨type, facets, rfl, -⟩ := (buildParameter_finishes input _ u).of_run_ok hrun
    unfold SourceParameter.finish
    dsimp only
    rw [chosen_fromReference, hsettled.fromReference, hfront'.properties, hfront.properties,
      findIdx?_clients hclients hproperties]
  have hnamed (hbody : source.parameter.location ≠ .body) :
      p.serializedName = source.parameter.name := by
    obtain ⟨-, hserialized, -⟩ := (buildParameter_identity input _ u).of_run_ok hrun
    rw [hserialized, (chosen_identity consumed settled).1, hsettled.name hbody]
  constructor
  case referred => exact fun href => ⟨hreferred href, (hreferred href).mem_sharedSources⟩
  case searched => exact hsearched
  case named => exact hnamed
  case found =>
    intro href hbody
    rw [hsearched, if_pos href, hnamed hbody, ← Option.isSome_iff_exists, List.findIdx?_isSome,
      List.any_eq_true]
    exact ⟨_, (hreferred href).mem_sharedSources, beq_self_eq_true _⟩
  case alike =>
    intro i hi
    rw [hsearched] at hi
    split_ifs at hi
    obtain ⟨hlt, hname, -⟩ := List.findIdx?_eq_some_iff_getElem.mp hi
    have hfirst := List.getElem?_eq_getElem hlt
    obtain ⟨q, hq, halike⟩ := clientProperty_of_first hclients hproperties hfirst htu hrun
    refine ⟨_, q, hfirst, beq_iff_eq.mp hname, hq, fun hown hkept => halike ?_⟩
    rw [hown, hkept]

end Clients

end Build

namespace Document

variable {d : Document} {options : Options} {t : BuildState}

/-- **The client property of a parameter is the first with its name on the wire.**  The client
properties are the projections of the component parameters, in their order; building such a
parameter once more makes no other.  A parameter of a method that is declared by a reference to a
component parameter is linked to the first of them that goes by its name.  If this is the component
parameter that the reference leads to, the client property is the projection of the parameter of the
method as well. -/
theorem client_links (hrun : d.run options = (.ok (), t)) :
    List.Forall₂ (fun shared q => ∃ p,
      (buildParameter ⟨d, options⟩ shared).run t = (.ok p, t) ∧ q = clientProperty p)
      d.components.sharedSources t.model.properties ∧
    List.Forall₂ (fun site m => Method.ParametersDeclared d
      (LinksFirst d.components t.model.properties
        (site.item.parameters ++ site.operation.parameters)) site m)
      d.operations t.model.methods := by
  obtain ⟨stages⟩ := stages hrun
  have hretains := retains_throughout ⟨d, options⟩ AnyCall
  have hsame := sameFront_throughout ⟨d, options⟩ AnyCall
  obtain ⟨built, hbuilt, hclients⟩ := stages.clients_built hretains.toStretch retains_fronting
  obtain ⟨hproperties, -⟩ := stages.hosts_built hretains.toStretch retains_fronting
  rw [hproperties]
  constructor
  · have hlast : stages.clients.Retains t := stages.last_since hretains retains_fronting fun s e =>
      ⟨List.Subset.refl _, id, CodeModel.enumType?_of_prefix (List.prefix_append _ _)⟩
    rw [hbuilt, List.forall₂_map_right_iff]
    refine ((List.forall₂_and_left _ _).mpr ⟨fun _ hshared => hshared, hclients⟩).imp ?_
    rintro shared p ⟨hshared, u, v, -, hp, hv⟩
    have href := Components.fromReference_of_mem_sharedSources hshared
    exact ⟨p, (buildParameter_replays href u).run_again hp (hv.trans hlast), rfl⟩
  · refine (stages.parameters_built (hretains.and hsame)).imp ?_
    rintro site m ⟨sources, consumed, hcollect, hconsumed, hparameters⟩
    refine ⟨sources, consumed, hcollect, hconsumed, ?_⟩
    have hsettled := (List.forall₂_and_left _ _).mpr
      ⟨fun _ hsource => hsource, deduplicate_toldApart sources⟩
    have hkept := List.rel_filter (p := SourceParameter.isBuilt) (q := SourceParameter.isBuilt)
      (fun _ _ h => Bool.coe_iff_coe.mpr h.2.isBuilt.symm) hsettled
    refine forall₂_comp ?_ hkept hparameters
    rintro source settled p ⟨hsource, htold⟩ ⟨w, hp⟩
    exact ⟨settled, htold, hp.linksFirst hclients hbuilt htold fun href =>
      Components.refersTo_of_collectParameters hcollect hsource href⟩

/-- An id in the query, which is a text. -/
def idQuery : Parameter where
  name := "id"
  location := .query
  schema := some (Schema.ofType .string)

/-- An id in a header, which is a number. -/
def idHeader : Parameter where
  name := "id"
  location := .header
  schema := some (Schema.ofType .integer)

/-- The search for an id. -/
def idSearch : Operation where
  operationId := some "find"
  parameters := [.reference "#/components/parameters/B", .reference "#/components/parameters/A"]
  responses := [("200", .node {})]

/-- The place of the search. -/
def idSite : OperationSite where
  verb := .get
  path := "/ids"
  item := { get := some idSearch }
  operation := idSearch
  pathPointer := (Pointer.mk "#/paths").child "/ids"

/-- A service that searches for ids, with two parameters of one name. -/
def ids : Document where
  openapi := "3.0.0"
  info := some { title := some "Ids", version := "1" }
  paths := [(idSite.path, idSite.item)]
  components := { parameters := [("A", .node idQuery), ("B", .node idHeader)] }

theorem ids_run : ids.run {} = (.ok (), (ids.run {}).2) :=
  Prod.ext (by decide +kernel) rfl

/-- Both ids are linked to the one that comes first among the components. -/
theorem client_links_ids :
    List.Forall₂ (fun shared q => ∃ p,
      (buildParameter ⟨ids, {}⟩ shared).run (ids.run {}).2 = (.ok p, (ids.run {}).2) ∧
        q = clientProperty p) ids.components.sharedSources (ids.run {}).2.model.properties ∧
    List.Forall₂ (fun site m => Method.ParametersDeclared ids
      (LinksFirst ids.components (ids.run {}).2.model.properties
        (site.item.parameters ++ site.operation.parameters)) site m)
      ids.operations (ids.run {}).2.model.methods ∧
    ((ids.run {}).2.model.methods.flatMap Method.parameters).map
      (fun p => (p.location, p.clientProperty)) = [(.header, some 0), (.query, some 0)] := by
  obtain ⟨hclients, hparameters⟩ := client_links ids_run
  exact ⟨hclients, hparameters, by decide +kernel⟩

/-- The client property of a parameter need not be that of the component parameter that it refers
to, nor even have a type of the same shape. -/
theorem client_links_astray :
    (¬ ∀ (d : Document) (options : Options) (t : BuildState), d.run options = (.ok (), t) →
      List.Forall₂ (fun site m => Method.ParametersDeclared d (fun source _ p =>
        ∀ i, p.clientProperty = some i → source.fromReference = true →
          ∃ shared, d.components.sharedSources[i]? = some shared ∧
            shared.parameter = source.parameter) site m) d.operations t.model.methods) ∧
    ¬ ∀ (d : Document) (options : Options) (t : BuildState), d.run options = (.ok (), t) →
      ∀ m ∈ t.model.methods, ∀ p ∈ m.parameters, ∀ i, p.clientProperty = some i →
        (t.model.properties[i]?.any fun q => q.type.sameShape p.type) = true := by
  have hfirst : ∀ m ∈ (ids.run {}).2.model.methods, ∀ p ∈ m.parameters,
      p.clientProperty = some 0 := by decide +kernel
  constructor
  · intro hall
    obtain ⟨m, hm, sources, consumed, hsources, -, hbuilt⟩ :=
      exists_of_forall₂ (hall ids {} _ ids_run).flip idSite (List.mem_singleton_self idSite)
    have hcollect : ids.components.collectParameters idSite.item idSite.operation
        idSite.pathPointer idSite.pointer = .ok [
          ⟨idHeader, true, ⟨"#/components/parameters/B/schema"⟩⟩,
          ⟨idQuery, true, ⟨"#/components/parameters/A/schema"⟩⟩] := rfl
    cases hcollect.symm.trans hsources
    obtain ⟨p, ps, ⟨settled, -, hheader⟩, -, hparameters⟩ := List.forall₂_cons_left_iff.mp hbuilt
    obtain ⟨shared, hshared, hown⟩ :=
      hheader 0 (hfirst m hm p (hparameters ▸ List.mem_cons_self)) rfl
    have hquery : ids.components.sharedSources[0]? =
        some ⟨idQuery, false, ⟨"#/components/parameters/A/schema"⟩⟩ := rfl
    cases hquery.symm.trans hshared
    cases congrArg Parameter.location hown
  · intro hall
    have hshapes : ¬ ∀ m ∈ (ids.run {}).2.model.methods, ∀ p ∈ m.parameters,
        ((ids.run {}).2.model.properties[0]?.any fun q => q.type.sameShape p.type) = true := by
      decide +kernel
    exact hshapes fun m hm p hp => hall ids {} _ ids_run m hm p hp 0 (hfirst m hm p hp)

end Document

end ApiModel
