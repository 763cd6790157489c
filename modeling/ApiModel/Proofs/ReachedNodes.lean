import ApiModel.Proofs.Reach
import ApiModel.Proofs.WrittenPointers
/-!
# The nodes that a document hands over

Every schema that a build is asked for, on its own account or for the sake of another one, is a
schema that the build reaches, handed over with the pointer that is written for its path.  It may
have been dressed up on the way: documentation, literals and extensions may be others than those
of the schema that stands there.
-/

namespace ApiModel

namespace Schema

/-- The schema says what another one says, but for its documentation, literals and extensions. -/
def Restates (s base : Schema) : Prop :=
  ∃ description values extensions, s =
    { base with description := description, enumValues := values, extensions := extensions }

theorem Restates.refl (s : Schema) : s.Restates s := by
  refine ⟨s.description, s.enumValues, s.extensions, ?_⟩
  cases s
  rfl

theorem Restates.trans {s t u : Schema} (hst : s.Restates t) (htu : t.Restates u) :
    s.Restates u := by
  obtain ⟨description, values, extensions, rfl⟩ := hst
  obtain ⟨-, -, -, rfl⟩ := htu
  exact ⟨description, values, extensions, rfl⟩

/-- A schema that is dressed in literals and extensions is restated. -/
theorem Dresses.restates {s base : Schema} (h : s.Dresses base) : s.Restates base := by
  obtain ⟨values, extensions, rfl⟩ := h
  exact ⟨base.description, values, extensions, rfl⟩

/-- A schema with another description is restated. -/
theorem documentedBy_restates (s t : Schema) : (Build.documentedBy s t).Restates t := by
  unfold Build.documentedBy
  split_ifs
  · exact ⟨s.description, t.enumValues, t.extensions, rfl⟩
  · exact .refl t

/-- What a schema is told anew has no part in what lies below it. -/
theorem Restates.children {s base : Schema} (h : s.Restates base) (id : Pointer) :
    Located.children ⟨id, s⟩ = Located.children ⟨id, base⟩ := by
  obtain ⟨description, values, extensions, rfl⟩ := h
  rfl

end Schema

/-- No component parameter or request body, whose names are written into pointers as they are,
has a slash in its name, and no component parameter turns out to be a request body. -/
structure Document.PlainNames (d : Document) : Prop where
  parameters : ∀ name ∈ d.components.parameters.keys, '/' ∉ name.toList
  requestBodies : ∀ name ∈ d.components.requestBodies.keys, '/' ∉ name.toList
  noBodies : ∀ entry ∈ d.components.parameters, ∀ body,
    d.components.resolveParameter entry.2 ≠ .ok (.requestBody body)

namespace Document

variable {d : Document} {path rest : List String} {id : Pointer} {base : Schema}

/-- The schema is reached along a path for which the pointer is written. -/
def Reaches (d : Document) (id : Pointer) (base : Schema) : Prop :=
  ∃ path, d.reached? path = some base ∧ id = .written path

/-- The node is one that is reached, as it stands or dressed up. -/
def Reached (d : Document) (x : Located) : Prop :=
  ∃ base, d.Reaches x.id base ∧ x.schema.Restates base

/-- What stands at the top of the tree: a server, the components, or the path items. -/
theorem reach_below {segment : String} {y : Place} (h : d.reach.below? segment = some y) :
    (∃ server : Server, y = server.reach) ∨ y = d.components.reach ∨
      ∃ items, y = .members items (PathItem.reach d.components) := by
  dsimp only [reach, Place.below?] at h
  split at h
  · obtain ⟨server, -, rfl⟩ := Option.map_eq_some_iff.mp h
    exact .inl ⟨server, rfl⟩
  · cases h
    exact .inr (.inl rfl)
  · cases h
    exact .inr (.inr ⟨_, rfl⟩)
  · cases h
    exact .inr (.inr ⟨_, rfl⟩)
  · cases h

/-- No schema stands above the name of a component or the like. -/
theorem three_le_length (h : d.reached? path = some base) : 3 ≤ path.length := by
  rw [reached?_eq_some_iff] at h
  rcases path with _ | ⟨first, _ | ⟨second, _ | ⟨third, path⟩⟩⟩
  · cases h
  · obtain ⟨y, hy, heq⟩ := Place.at?_cons_eq_some h
    cases heq
    rcases reach_below hy with ⟨server, hserver⟩ | hcomponents | ⟨items, hitems⟩
    · cases hserver
    · cases hcomponents
    · cases hitems
  · obtain ⟨y, hy, hrest⟩ := Place.at?_cons_eq_some h
    obtain ⟨z, hz, heq⟩ := Place.at?_cons_eq_some hrest
    cases heq
    rcases reach_below hy with ⟨server, rfl⟩ | rfl | ⟨items, rfl⟩
    · dsimp only [Server.reach, Place.along, Place.below?] at hz
      split_ifs at hz
      cases hz
    · dsimp only [Components.reach, Place.below?] at hz
      split at hz <;> cases hz
    · dsimp only [Place.members, Place.below?] at hz
      rw [Entries.get?_mapValues] at hz
      obtain ⟨item, -, hitem⟩ := Option.map_eq_some_iff.mp hz
      cases hitem
  · simp only [List.length_cons]
    omega

/-- The names on a path along which a schema is reached are names of the document. -/
theorem plainPath_of_reached (hplain : d.PlainNames) (h : d.reached? path = some base) :
    Pointer.PlainPath path := by
  rw [reached?_eq_some_iff] at h
  have hkey {α : Type} {entries : Entries α} {place : α → Place} {field name : String}
      {rest : List String} (hpath : path = "components" :: field :: name :: rest)
      (hsection : d.components.reach.below? field = some (.members entries place)) :
      name ∈ entries.keys := by
    subst hpath
    have hcomponents : d.reach.below? "components" = some d.components.reach := by rfl
    rw [Place.at?_cons hcomponents, Place.at?_cons hsection] at h
    obtain ⟨y, hy, -⟩ := Place.at?_cons_eq_some h
    change Entries.get? (entries.mapValues place) name = some y at hy
    rw [Entries.get?_mapValues] at hy
    obtain ⟨value, hvalue, -⟩ := Option.map_eq_some_iff.mp hy
    exact Entries.mem_keys_of_mem (Entries.mem_of_get? hvalue)
  rintro target name rest (rfl | rfl) hpath
  · exact hplain.parameters name (hkey hpath (by rfl))
  · exact hplain.requestBodies name (hkey hpath (by rfl))

/-- **Different nodes have different pointers.**  Where names are plain, the pointers of two paths
along which schemas are reached are the same only if the paths are. -/
theorem written_reached_inj (hplain : d.PlainNames) {path' : List String} {base' : Schema}
    (h : d.reached? path = some base) (h' : d.reached? path' = some base')
    (hwritten : Pointer.written path = .written path') : path = path' :=
  Pointer.written_inj (plainPath_of_reached hplain h) (plainPath_of_reached hplain h') hwritten

/-- What lies below a schema that is reached is reached. -/
theorem Reaches.descend (h : d.Reaches id base) {s : Schema}
    (hs : (Place.schema base).at? rest = some (.schema s)) : d.Reaches (id.descend rest) s := by
  obtain ⟨path, hpath, rfl⟩ := h
  refine ⟨path ++ rest, ?_, (Pointer.written_append (three_le_length hpath) rest).symm⟩
  rw [reached?_eq_some_iff] at hpath ⊢
  exact (Place.at?_append_eq hpath rest).trans hs

/-- What stands at the end of a path is reached there. -/
theorem Reaches.reached (h : d.Reaches id base) : d.Reached ⟨id, base⟩ :=
  ⟨base, h, .refl base⟩

/-- A component schema is reached under its own pointer. -/
theorem reaches_component (hd : d.DistinctNames) {name : String} {s : Schema}
    (hs : (name, s) ∈ d.components.schemas) : d.Reaches (.component name) s := by
  have hbelow : d.reach.below? "components" = some d.components.reach := by rfl
  have hcomponents := (distinct_reach hd).below "components" hbelow
  refine ⟨["components", "schemas", name], ?_, rfl⟩
  rw [reached?_eq_some_iff, Place.at?_cons hbelow]
  exact hcomponents.at?_entry (by rfl) hs

/-- The nodes that are reached are closed under going down. -/
theorem reached_hereditary (hd : d.DistinctNames) : Hereditary d.components d.Reached where
  component hs := (reaches_component hd hs).reached
  child {x y} hx hy := by
    obtain ⟨base, hreaches, hrestates⟩ := hx
    have hy' : y ∈ Located.children ⟨x.id, base⟩ := by
      rw [← hrestates.children]
      exact hy
    have hkeys : (Entries.keys base.properties).Nodup := by
      obtain ⟨path, hpath, -⟩ := hreaches
      exact Schema.nodup_properties ((distinct_reach hd).at (reached?_eq_some_iff.mp hpath))
    obtain ⟨step, hid, hstep⟩ := Place.at?_child hkeys hy'
    exact ⟨y.schema, hid ▸ hreaches.descend hstep, .refl _⟩

end Document

namespace Build

variable {d : Document} {options : Options}

/-- The calls for nodes that are reached. -/
abbrev ReachedCall (d : Document) : Located → String → Prop :=
  fun x _ => d.Reached x

/-- What is closed under going down holds of all that a call leads to. -/
theorem below_of_hereditary {H : Located → Prop} (hH : Hereditary d.components H) {x y : Located}
    (hx : H x) (hy : d.components.unwrap x.schema x.id = .ok y) :
    Below ⟨d, options⟩ (fun x _ => H x) y := by
  have hy' : H y := hH.unwrap hx hy
  refine ⟨fun hs _ => hH.items hy' hs, fun hs _ => hH.values hy' hs,
    fun hview entry hentry _ => ?_⟩
  obtain ⟨w, hw, hbelow⟩ := hH.expand hy' hview entry hentry
  exact hH.child hw hbelow

/-- What lies below a node that is reached is reached. -/
theorem callsClosed_reached (hd : d.DistinctNames) :
    CallsClosed ⟨d, options⟩ (ReachedCall d) :=
  fun hx hy => below_of_hereditary (Document.reached_hereditary hd) hx hy

/-- The builders may dress a node up that is reached. -/
theorem calledAt_of_reached {x : Located} (h : d.Reached x) :
    CalledAt (ReachedCall d) x.id x.schema := by
  intro s name hs
  obtain ⟨base, hreaches, hrestates⟩ := h
  exact ⟨base, hreaches, hs.restates.trans hrestates⟩

/-- A schema that is reached may be handed over in every dress. -/
theorem calledAt_of_reaches {id : Pointer} {base : Schema} (h : d.Reaches id base) :
    CalledAt (ReachedCall d) id base :=
  calledAt_of_reached h.reached

section Sources

/-- The schema of a parameter that is reached. -/
theorem reaches_parameter {path : List String} {p : Parameter}
    (h : d.reach.at? path = some p.reach) {id : Pointer}
    (hid : id = .written (path ++ ["schema"])) : d.Reaches id p.valueSchema := by
  refine ⟨path ++ ["schema"], ?_, hid⟩
  rw [Document.reached?_eq_some_iff, Place.at?_append_eq h]
  exact Place.at?_along_self _ _

/-- The schema of a request body that is reached. -/
theorem reaches_requestBody {path : List String} {body : RequestBody}
    (h : d.reach.at? path = some body.reach) (hlength : 3 ≤ path.length) {pointer : Pointer}
    (hpointer : pointer = .written path) :
    d.Reaches (body.schemaPointer pointer) (body.schema?.getD (.ofType .string)) := by
  refine ⟨path ++ body.schemaPath, ?_, ?_⟩
  · rw [Document.reached?_eq_some_iff, Place.at?_append_eq h]
    exact Place.at?_along_self _ _
  · rw [RequestBody.schemaPointer_eq, hpointer, Pointer.written_append hlength]

variable {source : SourceParameter} {sources : List SourceParameter}

/-- The parameters that a request body is taken apart into. -/
theorem calledAt_recast (hd : d.DistinctNames) {path : List String} {body : RequestBody}
    (h : d.reach.at? path = some body.reach) (hlength : 3 ≤ path.length) {pointer : Pointer}
    (hpointer : pointer = .written path)
    (hsources : d.components.recast body pointer = .ok sources) (hsource : source ∈ sources) :
    CalledAt (ReachedCall d) source.schemaId source.parameter.valueSchema := by
  have hreaches := reaches_requestBody h hlength hpointer
  unfold Components.recast at hsources
  split_ifs at hsources
  · cases hschema : body.schema? with
    | none =>
      rw [hschema] at hsources
      cases hsources
      cases hsource
    | some schema =>
      rw [hschema] at hsources hreaches
      obtain ⟨node, hnode, hsources⟩ := Except.bind_eq_ok_iff.mp hsources
      obtain ⟨view, hview, hfields⟩ := Except.bind_eq_ok_iff.mp hsources
      cases hfields
      obtain ⟨entry, hentry, rfl⟩ := List.mem_map.mp hsource
      have hnodes := Document.reached_hereditary hd
      obtain ⟨w, hw, hbelow⟩ :=
        hnodes.expand (hnodes.unwrap hreaches.reached hnode) hview entry hentry
      exact calledAt_of_reached (hnodes.child hw hbelow)
  · cases hsources
    cases List.mem_singleton.mp hsource
    exact calledAt_of_reaches hreaches

/-- What a reference to a request body is taken apart into. -/
theorem calledAt_bodyReference (hd : d.DistinctNames) {reference : String} {body : RequestBody}
    (hbody : d.components.resolveRequestBody (.reference reference) = .ok body)
    (hsources : d.components.recast body
      (Components.referencePointer .requestBodies reference) = .ok sources)
    (hsource : source ∈ sources) :
    CalledAt (ReachedCall d) source.schemaId source.parameter.valueSchema := by
  obtain ⟨next, hname, hnext⟩ := Components.resolveRequestBody_named hbody
  exact calledAt_recast hd (Document.reach_requestBody hname hnext) le_rfl rfl hsources hsource

/-- The parameters that one declaration stands for. -/
theorem calledAt_sourceParameter (hd : d.DistinctNames) (hplain : d.PlainNames)
    {x : RefOr Parameter} {path : List String}
    (hx : d.reach.at? path = some (x.place Parameter.reach)) {pointer : Pointer}
    (hpointer : pointer.child "schema" = .written (path ++ ["schema"]))
    (hsources : d.components.sourceParameter x pointer = .ok sources)
    (hsource : source ∈ sources) :
    CalledAt (ReachedCall d) source.schemaId source.parameter.valueSchema := by
  unfold Components.sourceParameter at hsources
  cases x with
  | node p =>
    cases hsources
    cases List.mem_singleton.mp hsource
    exact calledAt_of_reaches (reaches_parameter hx hpointer)
  | reference reference =>
    obtain ⟨target, htarget, hsources⟩ := Except.bind_eq_ok_iff.mp hsources
    by_cases hlead : Reference.leadsInto reference .requestBodies = true
    · have hwalk := htarget
      unfold Components.resolveParameter at hwalk
      rw [Components.followParameter_body hlead] at hwalk
      obtain ⟨body, hbody, rfl⟩ := Except.map_eq_ok_iff.mp hwalk
      exact calledAt_bodyReference hd hbody hsources hsource
    · obtain ⟨next, hname, hnext⟩ := Components.resolveParameter_named hlead htarget
      cases target with
      | requestBody body =>
        exact absurd hnext (hplain.noBodies _ (Entries.mem_of_get? hname) body)
      | parameter p =>
        cases hsources
        cases List.mem_singleton.mp hsource
        exact calledAt_of_reaches (reaches_parameter (Document.reach_parameter hname hnext) rfl)

end Sources

section Sites

/-- Where an operation is found. -/
structure FoundAt (d : Document) (site : OperationSite) (root : String) : Prop where
  isRoot : root = "paths" ∨ root = "x-ms-paths"
  pathPointer : site.pathPointer = Pointer.root.descend [root, site.path]
  item : d.reach.at? [root, site.path] = some (site.item.reach d.components)
  operation : d.reach.at? [root, site.path, site.verb.field] =
    some (site.operation.reach d.components)

/-- An operation of a path is found below the root that the path belongs to. -/
theorem foundAt_of_mem {items : Entries PathItem} {root : String} {rootPointer : Pointer}
    (hd : d.DistinctNames) (hisRoot : root = "paths" ∨ root = "x-ms-paths")
    (hroot : d.reach.below? root = some (.members items (PathItem.reach d.components)))
    (hpointer : rootPointer = Pointer.root.child root) {site : OperationSite}
    (hsite : site ∈ items.flatMap fun entry => operationSites rootPointer entry.1 entry.2) :
    FoundAt d site root := by
  obtain ⟨entry, hentry, hmem⟩ := List.mem_flatMap.mp hsite
  obtain ⟨verb, -, hverb⟩ := List.mem_filterMap.mp hmem
  obtain ⟨operation, hoperation, rfl⟩ := Option.map_eq_some_iff.mp hverb
  have hitem := (Document.distinct_reach hd).at?_entry hroot hentry
  refine ⟨hisRoot, ?_, hitem, ?_⟩
  · rw [hpointer]
    rfl
  · exact (Place.at?_append_eq hitem [verb.field]).trans
      (Place.at?_cons (PathItem.reach_operation hoperation) [])

/-- Every operation is found below one of the two kinds of paths. -/
theorem foundAt_documentSites (hd : d.DistinctNames) {site : OperationSite}
    (hsite : site ∈ documentSites d) : ∃ root, FoundAt d site root := by
  rcases List.mem_append.mp hsite with hpath | hcustom
  · exact ⟨"paths", foundAt_of_mem hd (.inl rfl) (by rfl) (by decide) hpath⟩
  · exact ⟨"x-ms-paths", foundAt_of_mem hd (.inr rfl) (by rfl) (by decide) hcustom⟩

variable {site : OperationSite} {root : String} {rest : List String}

/-- The pointer of a path into a path item or an operation is written segment by segment. -/
theorem FoundAt.written (h : FoundAt d site root) (path : List String) :
    Pointer.written (root :: path) = Pointer.root.descend (root :: path) := by
  rcases h.isRoot with rfl | rfl <;> rfl

/-- The pointer of an operation spells its path. -/
theorem FoundAt.pointer (h : FoundAt d site root) :
    site.pointer = Pointer.root.descend [root, site.path, site.verb.field] := by
  rw [OperationSite.pointer, h.pathPointer]
  rfl

/-- A schema of an operation is reached under the pointer of the operation. -/
theorem FoundAt.reaches (h : FoundAt d site root) {base : Schema}
    (hrest : (site.operation.reach d.components).at? rest = some (.schema base)) :
    d.Reaches (site.pointer.descend rest) base := by
  refine ⟨[root, site.path, site.verb.field] ++ rest, ?_, ?_⟩
  · rw [Document.reached?_eq_some_iff, Place.at?_append_eq h.operation]
    exact hrest
  · rw [h.pointer, ← Pointer.descend_append]
    exact (h.written _).symm

/-- The parameters of an operation. -/
theorem FoundAt.parameters (hd : d.DistinctNames) (hplain : d.PlainNames)
    (h : FoundAt d site root) {sources : List SourceParameter}
    (hsources : d.components.collectParameters site.item site.operation site.pathPointer
      site.pointer = .ok sources) {source : SourceParameter} (hsource : source ∈ sources) :
    CalledAt (ReachedCall d) source.schemaId source.parameter.valueSchema := by
  rcases Components.mem_collectParameters hsources hsource with
    ⟨x, index, block, hx, hblock, hmem⟩ | ⟨x, index, block, hx, hblock, hmem⟩ |
    ⟨declared, body, block, hdeclared, hbody, hblock, hmem⟩
  · have hplace := (Place.at?_append_eq h.item ["parameters", toString index]).trans
      (Place.at?_element (by rfl) hx)
    refine calledAt_sourceParameter hd hplain hplace ?_ hblock hmem
    rw [h.pathPointer]
    exact (h.written [site.path, "parameters", toString index, "schema"]).symm
  · have hplace := (Place.at?_append_eq h.operation ["parameters", toString index]).trans
      (Place.at?_element (by rfl) hx)
    refine calledAt_sourceParameter hd hplain hplace ?_ hblock hmem
    rw [h.pointer]
    exact (h.written
      [site.path, site.verb.field, "parameters", toString index, "schema"]).symm
  · cases declared with
    | reference reference => exact calledAt_bodyReference hd hbody hblock hmem
    | node _ =>
      cases hbody
      have hbelow : (site.operation.reach d.components).below? "requestBody" =
          some body.reach := by
        change site.operation.requestBody.map (RefOr.place RequestBody.reach) = _
        rw [hdeclared]
        rfl
      have hplace := (Place.at?_append_eq h.operation ["requestBody"]).trans
        (Place.at?_cons hbelow [])
      refine calledAt_recast hd hplace (Nat.le_add_left 3 1) ?_ hblock hmem
      rw [Components.bodyPointer, h.pointer]
      exact (h.written [site.path, site.verb.field, "requestBody"]).symm

/-- What is reached of an operation is in order. -/
theorem FoundAt.distinct (hd : d.DistinctNames) (h : FoundAt d site root) :
    (site.operation.reach d.components).Distinct :=
  (Document.distinct_reach hd).at h.operation

end Sites

/-- The schema of a variable in the address of the service. -/
theorem reaches_hostVariable (hd : d.DistinctNames) {server : Server}
    (hserver : d.servers.head? = some server) {entry : String × ServerVariable}
    (hentry : entry ∈ server.templateVariables) :
    d.Reaches (hostSource entry.1 entry.2).schemaId entry.2.valueSchema := by
  have hbelow : d.reach.below? "servers" = some server.reach := by
    change d.servers.head?.map Server.reach = _
    rw [hserver]
    rfl
  have hvariables : server.reach.at? ["0", "variables"] =
      some (.members server.templateVariables fun v =>
        .along ["schema"] (.schema v.valueSchema)) := Place.at?_along_self _ _
  have hserverReach : server.reach.Distinct := (Document.distinct_reach hd).below _ hbelow
  have hname := (hserverReach.at hvariables).member_below hentry
  have hschema : server.reach.at? (["0", "variables"] ++ [entry.1, "schema"]) =
      some (.schema entry.2.valueSchema) := by
    rw [Place.at?_append_eq hvariables]
    exact (Place.at?_cons hname _).trans (Place.at?_along_self _ _)
  refine ⟨["servers", "0", "variables", entry.1, "schema"], ?_, ?_⟩
  · rw [Document.reached?_eq_some_iff]
    exact (Place.at?_cons hbelow _).trans hschema
  · have hroot : Pointer.mk "#/servers/0/variables" =
        Pointer.root.descend ["servers", "0", "variables"] := by decide
    rw [hostSource, hroot]
    exact (Pointer.descend_append _ _ _).symm

/-- **Only nodes that are reached are handed over**, under the pointers of their paths. -/
theorem documentCalls_reached (hd : d.DistinctNames) (hplain : d.PlainNames) :
    DocumentCalls ⟨d, options⟩ (ReachedCall d) where
  closed := callsClosed_reached hd
  components entry hentry := (Document.reaches_component hd hentry).reached
  clientProperties entry hentry p hp := by
    have hkeys := (hd.components.below "parameters" (by rfl)).members.1
    have hname := (Entries.get?_eq_some_iff hkeys).mpr hentry
    exact calledAt_of_reaches (reaches_parameter (Document.reach_parameter hname hp) rfl)
  parameters site hsite sources hsources source hsource := by
    obtain ⟨root, hfound⟩ := foundAt_documentSites hd hsite
    exact hfound.parameters hd hplain hsources hsource
  headerSchemas site hsite entry hentry response hresponse extension hextension schema hschema := by
    obtain ⟨root, hfound⟩ := foundAt_documentSites hd hsite
    have hheaders : response.headersSchema? = some schema :=
      Option.bind_eq_some_iff.mpr ⟨extension, hextension, hschema⟩
    have hplace := Operation.reach_response (hfound.distinct hd) hentry hresponse
    refine calledAt_of_reaches (hfound.reaches ?_)
    exact (Place.at?_append_eq hplace [Extensions.headersKey]).trans
      (Response.reach_headersSchema hheaders)
  headers site hsite headers hheaders entry hentry := by
    obtain ⟨root, hfound⟩ := foundAt_documentSites hd hsite
    exact calledAt_of_reaches
      (hfound.reaches (Operation.reach_header (hfound.distinct hd) hheaders hentry))
  bodies site hsite entry hentry response hresponse schema hschema := by
    obtain ⟨root, hfound⟩ := foundAt_documentSites hd hsite
    obtain ⟨body, hbody, rfl⟩ := Option.map_eq_some_iff.mp hschema
    have hplace := Operation.reach_response (hfound.distinct hd) hentry hresponse
    have hpointer : response.bodyPointer site.pointer entry.1 =
        site.pointer.descend ["responses", entry.1, "content", body.1, "schema"] := by
      unfold Response.bodyPointer
      rw [hbody]
      rfl
    rw [hpointer]
    refine calledAt_of_reaches (hfound.reaches ?_)
    exact (Place.at?_append_eq hplace ["content", body.1, "schema"]).trans
      (Response.reach_body hbody)
  hostVariables server hserver entry hentry :=
    calledAt_of_reaches (reaches_hostVariable hd hserver hentry)

end Build

end ApiModel
