import ApiModel.Proofs.DistinctNames
import ApiModel.Proofs.Sections
import ApiModel.Proofs.Calls
/-!
# The places that a build reaches

A build sees the document with its references followed: where an operation refers to a response,
the build finds the content of the response under the operation, and where a component parameter
refers to another one, it finds the schema of the latter under the name of the former.  What it
sees is again a tree of places, and in a document whose names are declared once no map of that
tree holds a key twice either.
-/

namespace ApiModel

namespace Place

/-- A place at the end of a path with nothing beside the path. -/
def along : List String → Place → Place
  | [], x => x
  | segment :: path, x => .holder fun next => if next = segment then some (along path x) else none

/-- Behind a path that is put before a place one is at the place. -/
theorem at?_along (path : List String) (x : Place) (rest : List String) :
    (along path x).at? (path ++ rest) = x.at? rest := by
  induction path with
  | nil => rfl
  | cons segment path ih =>
    have hbelow : (along (segment :: path) x).below? segment = some (along path x) := if_pos rfl
    rw [List.cons_append, at?_cons hbelow, ih]

/-- At the end of a path that is put before a place the place stands. -/
theorem at?_along_self (path : List String) (x : Place) : (along path x).at? path = some x := by
  have h := at?_along path x []
  rwa [List.append_nil, at?_nil] at h

/-- A path before a place holds no map, so it repeats no key. -/
theorem distinct_along {x : Place} (h : x.Distinct) (path : List String) :
    (along path x).Distinct := by
  induction path with
  | nil => exact h
  | cons segment path ih =>
    refine distinct_holder fun next y hy => ?_
    split_ifs at hy
    cases hy
    exact ih

/-- An entry of a map that holds no key twice. -/
theorem Distinct.member_below {α : Type} {entries : Entries α} {place : α → Place}
    (h : (Place.members entries place).Distinct) {entry : String × α} (hentry : entry ∈ entries) :
    (Place.members entries place).below? entry.1 = some (place entry.2) :=
  members_below _ ((Entries.get?_eq_some_iff h.members.1).mpr hentry)

/-- An entry of a map stands under its name. -/
theorem Distinct.at?_entry {α : Type} {x : Place} (h : x.Distinct) {segment : String}
    {entries : Entries α} {place : α → Place}
    (hx : x.below? segment = some (Place.members entries place)) {entry : String × α}
    (hentry : entry ∈ entries) : x.at? [segment, entry.1] = some (place entry.2) :=
  (at?_cons hx _).trans (at?_cons ((h.below segment hx).member_below hentry) [])

end Place

/-- The schema of a parameter, where a build finds it. -/
def Parameter.reach (p : Parameter) : Place :=
  .along ["schema"] (.schema p.valueSchema)

/-- The path to the schema of a request body. -/
def RequestBody.schemaPath (b : RequestBody) : List String :=
  match b.content.head? with
  | some (mediaType, _) => ["content", mediaType, "schema"]
  | none => ["content"]

/-- The pointer to the schema of a request body goes along the path to it. -/
theorem RequestBody.schemaPointer_eq (b : RequestBody) (p : Pointer) :
    b.schemaPointer p = p.descend b.schemaPath := by
  unfold schemaPointer schemaPath
  cases b.content.head? <;> rfl

/-- The schema of a request body, where a build finds it. -/
def RequestBody.reach (b : RequestBody) : Place :=
  .along b.schemaPath (.schema (b.schema?.getD (.ofType .string)))

/-- The schemas of a response, where a build finds them: that of its body and the one that it
declares for all its headers. -/
def Response.reach (response : Response) : Place :=
  .holder fun
    | "content" => response.body?.map fun body => .along [body.1, "schema"] (.schema body.2)
    | "x-ms-headers" => response.headersSchema?.map .schema
    | _ => none

/-- The places of an operation.  The headers that its responses declare one by one stand together,
by name. -/
def Operation.reach (c : Components) (o : Operation) : Place :=
  .holder fun
    | "parameters" => some (.elements o.parameters (RefOr.place Parameter.reach))
    | "requestBody" => o.requestBody.map (RefOr.place RequestBody.reach)
    | "responses" => some (.members o.responses fun declared =>
        match c.resolveResponse declared with
        | .ok response => response.reach
        | .error _ => .nothing)
    | "headers" => (c.classicalHeaders o.responses).toOption.map fun headers =>
        .members headers fun header => .schema header.valueSchema
    | _ => none

/-- The places of a path item. -/
def PathItem.reach (c : Components) (item : PathItem) : Place :=
  .holder fun
    | "parameters" => some (.elements item.parameters (RefOr.place Parameter.reach))
    | segment =>
      ((Verb.all.find? (·.field == segment)).bind item.operation?).map (Operation.reach c)

/-- The places of the components that a build takes schemas from. -/
def Components.reach (c : Components) : Place :=
  .holder fun
    | "schemas" => some (.members c.schemas .schema)
    | "parameters" => some (.members c.parameters fun declared =>
        match c.resolveParameter declared with
        | .ok (.parameter p) => p.reach
        | _ => .nothing)
    | "requestBodies" => some (.members c.requestBodies fun declared =>
        match c.resolveRequestBody declared with
        | .ok body => body.reach
        | .error _ => .nothing)
    | _ => none

/-- The schema of a variable in the address of a service. -/
def ServerVariable.valueSchema (v : ServerVariable) : Schema :=
  (Build.hostSource "" v).parameter.valueSchema

/-- The places of a server, which a build takes as the first one. -/
def Server.reach (server : Server) : Place :=
  .along ["0", "variables"] (.members server.templateVariables fun v =>
    .along ["schema"] (.schema v.valueSchema))

/-- The places of a document with its references followed. -/
def Document.reach (d : Document) : Place :=
  .holder fun
    | "servers" => d.servers.head?.map Server.reach
    | "components" => some d.components.reach
    | "paths" => some (.members d.paths (PathItem.reach d.components))
    | "x-ms-paths" => some (.members d.customPaths (PathItem.reach d.components))
    | _ => none

/-- The schema that a build finds at the end of a path. -/
def Document.reached? (d : Document) (path : List String) : Option Schema :=
  (d.reach.at? path).bind Place.schema?

/-- A schema is reached where the tree of places holds it. -/
theorem Document.reached?_eq_some_iff {d : Document} {path : List String} {s : Schema} :
    d.reached? path = some s ↔ d.reach.at? path = some (.schema s) := by
  unfold reached?
  rw [Option.bind_eq_some_iff]
  simp only [Place.schema?_eq_some_iff, exists_eq_right]

section Distinct

variable {c : Components}

/-- A schema that is only a type holds no map. -/
theorem Schema.distinct_ofType (type : DataType) : (Place.schema (.ofType type)).Distinct :=
  distinct_leaf rfl rfl rfl rfl

/-- A schema that is declared, or else the one for texts. -/
theorem Schema.distinct_getD {schema : Option Schema}
    (h : ∀ s, schema = some s → (Place.schema s).Distinct) :
    (Place.schema (schema.getD (.ofType .string))).Distinct := by
  cases schema with
  | none => exact distinct_ofType _
  | some s => exact h s rfl

/-- What is reached of a parameter is its schema. -/
theorem Parameter.distinct_reach {p : Parameter} (h : p.place.Distinct) : p.reach.Distinct := by
  refine Place.distinct_along (Schema.distinct_getD fun s hs => ?_) _
  exact h.below "schema" (congrArg (Option.map Place.schema) hs)

/-- The schema of a header is in order if the header is. -/
theorem Header.distinct_valueSchema {header : Header} (h : header.place.Distinct) :
    (Place.schema header.valueSchema).Distinct := by
  refine Schema.distinct_getD fun s hs => ?_
  exact h.below "schema" (congrArg (Option.map Place.schema) hs)

/-- The schemas under the media types of a place of content. -/
theorem Content.distinct_schema {content : Content}
    (h : (Place.members content MediaType.place).Distinct) {entry : String × MediaType}
    (hentry : entry ∈ content) {s : Schema} (hs : entry.2.schema = some s) :
    (Place.schema s).Distinct :=
  (h.members.2 entry hentry).below "schema" (congrArg (Option.map Place.schema) hs)

/-- What is reached of a request body is the schema of its first media type. -/
theorem RequestBody.distinct_reach {b : RequestBody} (h : b.place.Distinct) :
    b.reach.Distinct := by
  refine Place.distinct_along (Schema.distinct_getD fun s hs => ?_) _
  obtain ⟨entry, hentry, hschema⟩ := Option.bind_eq_some_iff.mp hs
  have hcontent := h.below "content" (by rfl)
  exact Content.distinct_schema hcontent (List.mem_of_head? hentry) hschema

/-- The body of a response is the schema of one of its media types. -/
theorem Response.mem_of_body? {response : Response} {body : String × Schema}
    (h : response.body? = some body) :
    ∃ entry ∈ response.content, entry.2.schema = some body.2 := by
  obtain ⟨entry, hentry, hbody⟩ := List.exists_of_findSome?_eq_some h
  obtain ⟨s, hs, rfl⟩ := Option.map_eq_some_iff.mp hbody
  exact ⟨entry, hentry, hs⟩

/-- What is reached of a response is its body and the schema of its `x-ms-headers`. -/
theorem Response.distinct_reach {response : Response} (h : response.place.Distinct) :
    response.reach.Distinct := by
  refine Place.distinct_holder fun segment y hy => ?_
  split at hy
  · obtain ⟨body, hbody, rfl⟩ := Option.map_eq_some_iff.mp hy
    obtain ⟨entry, hentry, hschema⟩ := mem_of_body? hbody
    have hcontent := h.below "content" (by rfl)
    exact Place.distinct_along (Content.distinct_schema hcontent hentry hschema) _
  · exact h.below "x-ms-headers" hy
  · cases hy

/-- What a node comes to through a section of distinct names. -/
theorem RefOr.distinct_of_follow {α : Type} {place : α → Place} {entries : Entries (RefOr α)}
    (hentries : (Place.members entries (RefOr.place place)).Distinct) {target : ComponentSection}
    {steps : Nat} {x : RefOr α} (hx : (x.place place).Distinct) {value : α}
    (h : Components.follow entries target [] steps x = .ok value) : (place value).Distinct := by
  rcases Components.mem_of_follow h with rfl | ⟨key, hkey⟩
  · exact hx
  · exact hentries.members.2 _ hkey

/-- A node in place of a reference is in order if what is reached of it is. -/
theorem RefOr.distinct_reach {α : Type} {place reach : α → Place} {x : RefOr α}
    (hreach : ∀ value, (place value).Distinct → (reach value).Distinct)
    (hx : (x.place place).Distinct) : (x.place reach).Distinct := by
  cases x with
  | reference path => exact Place.distinct_nothing
  | node value => exact hreach value hx

variable (hc : c.place.Distinct)

include hc

/-- A response that a reference leads to stands in the components, which are in order. -/
theorem Components.distinct_response {x : RefOr Response}
    (hx : (x.place Response.place).Distinct) {response : Response}
    (h : c.resolveResponse x = .ok response) : response.place.Distinct :=
  RefOr.distinct_of_follow (hc.below "responses" (by rfl)) hx h

/-- A header that a reference leads to stands in the components, which are in order. -/
theorem Components.distinct_header {x : RefOr Header} (hx : (x.place Header.place).Distinct)
    {header : Header} (h : c.resolveHeader x = .ok header) : header.place.Distinct :=
  RefOr.distinct_of_follow (hc.below "headers" (by rfl)) hx h

/-- A request body that a reference leads to stands in the components, which are in order. -/
theorem Components.distinct_requestBody {x : RefOr RequestBody}
    (hx : (x.place RequestBody.place).Distinct) {body : RequestBody}
    (h : c.resolveRequestBody x = .ok body) : body.place.Distinct :=
  RefOr.distinct_of_follow (hc.below "requestBodies" (by rfl)) hx h

/-- A parameter that a reference leads to stands in the components, which are in order. -/
theorem Components.distinct_parameter {x : RefOr Parameter}
    (hx : (x.place Parameter.place).Distinct) {p : Parameter}
    (h : c.resolveParameter x = .ok (.parameter p)) : p.place.Distinct := by
  rcases mem_of_followParameter h with rfl | ⟨key, hkey⟩
  · exact hx
  · exact (hc.below "parameters" (by rfl)).members.2 _ hkey

/-- Headers that are taken in one after the other keep their names apart. -/
theorem Components.distinct_addClassicalHeaders {headers headers' : Entries Header}
    (hheaders : (Place.members headers Header.place).Distinct) {response : Response}
    (hresponse : response.place.Distinct)
    (h : c.addClassicalHeaders headers response = .ok headers') :
    (Place.members headers' Header.place).Distinct := by
  unfold addClassicalHeaders at h
  split at h
  · cases h
    exact hheaders
  · obtain ⟨resolved, hresolved, hfold⟩ := Except.bind_eq_ok_iff.mp h
    cases hfold
    have hdeclared := hresponse.below "headers" (by rfl)
    have hmem : ∀ entry ∈ resolved, entry.2.place.Distinct := by
      intro entry hentry
      obtain ⟨declared, hmem, hstep⟩ :=
        Build.exists_of_forall₂ (forall₂_of_mapM_ok hresolved) entry hentry
      obtain ⟨header, hheader, heq⟩ := Except.bind_eq_ok_iff.mp hstep
      cases heq
      exact distinct_header hc (hdeclared.members.2 declared hmem) hheader
    clear hresolved h
    induction resolved generalizing headers with
    | nil => exact hheaders
    | cons entry resolved ih =>
      obtain ⟨hentry, hrest⟩ := List.forall_mem_cons.mp hmem
      refine ih (Place.distinct_members ?_ fun other hother => ?_) hrest
      · exact Entries.nodup_keys_insert hheaders.members.1 _ _
      · rcases Entries.mem_insert hother with hold | ⟨-, hnew⟩
        · exact hheaders.members.2 other hold
        · rw [hnew]
          exact hentry

/-- The headers that the responses declare are gathered in a map, so each has its name once. -/
theorem Components.distinct_classicalHeaders {declared : Entries (RefOr Response)}
    (hdeclared : ∀ entry ∈ declared, (entry.2.place Response.place).Distinct)
    {headers : Entries Header} (h : c.classicalHeaders declared = .ok headers) :
    (Place.members headers Header.place).Distinct := by
  refine foldlM_ok_induct (I := fun headers => (Place.members headers Header.place).Distinct)
    (fun taken entry hentry headers' htaken hstep => ?_) (Place.distinct_empty _) h
  obtain ⟨response, hresponse, hadd⟩ := Except.bind_eq_ok_iff.mp hstep
  exact distinct_addClassicalHeaders hc htaken
    (distinct_response hc (hdeclared entry hentry) hresponse) hadd

theorem Operation.distinct_reach {o : Operation} (ho : o.place.Distinct) :
    (o.reach c).Distinct := by
  have hresponses := ho.below "responses" (by rfl)
  refine Place.distinct_holder fun segment y hy => ?_
  split at hy
  · cases hy
    have hparameters := ho.below "parameters" (by rfl)
    exact Place.distinct_elements fun declared hdeclared =>
      RefOr.distinct_reach (fun _ => Parameter.distinct_reach) (hparameters.elements hdeclared)
  · obtain ⟨declared, hdeclared, rfl⟩ := Option.map_eq_some_iff.mp hy
    have hbody := ho.below "requestBody"
      (congrArg (Option.map (RefOr.place RequestBody.place)) hdeclared)
    exact RefOr.distinct_reach (fun _ => RequestBody.distinct_reach) hbody
  · cases hy
    refine Place.distinct_members hresponses.members.1 fun entry hentry => ?_
    split
    · rename_i response hresponse
      exact Response.distinct_reach
        (Components.distinct_response hc (hresponses.members.2 entry hentry) hresponse)
    · exact Place.distinct_nothing
  · obtain ⟨headers, hheaders, rfl⟩ := Option.map_eq_some_iff.mp hy
    have hclassical := Components.distinct_classicalHeaders hc hresponses.members.2
      (Except.toOption_eq_some_iff.mp hheaders)
    exact Place.distinct_members hclassical.members.1 fun entry hentry =>
      Header.distinct_valueSchema (hclassical.members.2 entry hentry)
  · cases hy

theorem PathItem.distinct_reach {item : PathItem} (hitem : item.place.Distinct) :
    (item.reach c).Distinct := by
  refine Place.distinct_holder fun segment y hy => ?_
  split at hy
  · cases hy
    have hparameters := hitem.below "parameters" (by rfl)
    exact Place.distinct_elements fun declared hdeclared =>
      RefOr.distinct_reach (fun _ => Parameter.distinct_reach) (hparameters.elements hdeclared)
  · obtain ⟨o, ho, rfl⟩ := Option.map_eq_some_iff.mp hy
    obtain ⟨verb, -, hverb⟩ := Option.bind_eq_some_iff.mp ho
    have hplace : item.place.below? verb.field = some o.place := by
      rw [← Option.map_some, ← hverb]
      cases verb <;> rfl
    exact Operation.distinct_reach hc (hitem.below _ hplace)

theorem Components.distinct_reach : c.reach.Distinct := by
  refine Place.distinct_holder fun segment y hy => ?_
  split at hy
  · cases hy
    exact hc.below "schemas" (by rfl)
  · cases hy
    have hparameters := (hc.below "parameters" (by rfl)).members
    refine Place.distinct_members hparameters.1 fun entry hentry => ?_
    split
    · rename_i p hp
      exact Parameter.distinct_reach (distinct_parameter hc (hparameters.2 entry hentry) hp)
    · exact Place.distinct_nothing
  · cases hy
    have hbodies := (hc.below "requestBodies" (by rfl)).members
    refine Place.distinct_members hbodies.1 fun entry hentry => ?_
    split
    · rename_i body hbody
      exact RequestBody.distinct_reach
        (distinct_requestBody hc (hbodies.2 entry hentry) hbody)
    · exact Place.distinct_nothing
  · cases hy

end Distinct

theorem Server.distinct_reach {server : Server} (h : server.place.Distinct) :
    server.reach.Distinct := by
  have hnames := (h.below "variables" (by rfl)).members.1
  refine Place.distinct_along (Place.distinct_members hnames fun entry hentry => ?_) _
  exact Place.distinct_along (Schema.distinct_leaf rfl rfl rfl rfl) _

/-- **Following references keeps names apart.** -/
theorem Document.distinct_reach {d : Document} (hd : d.DistinctNames) : d.reach.Distinct := by
  have hc := hd.components
  refine Place.distinct_holder fun segment y hy => ?_
  split at hy
  · obtain ⟨server, hserver, rfl⟩ := Option.map_eq_some_iff.mp hy
    have hservers := hd.below "servers" (by rfl)
    exact Server.distinct_reach (hservers.elements (List.mem_of_head? hserver))
  · cases hy
    exact Components.distinct_reach hc
  · cases hy
    have hpaths := (hd.below "paths" (by rfl)).members
    exact Place.distinct_members hpaths.1 fun entry hentry =>
      PathItem.distinct_reach hc (hpaths.2 entry hentry)
  · cases hy
    have hcustom := (hd.below "x-ms-paths" (by rfl)).members
    exact Place.distinct_members hcustom.1 fun entry hentry =>
      PathItem.distinct_reach hc (hcustom.2 entry hentry)
  · cases hy

section Found

variable {c : Components} {o : Operation} {response : Response}

/-- The body of a response is reached under its media type. -/
theorem Response.reach_body {body : String × Schema} (h : response.body? = some body) :
    response.reach.at? ["content", body.1, "schema"] = some (.schema body.2) := by
  have hbelow : response.reach.below? "content" =
      some (.along [body.1, "schema"] (.schema body.2)) := by
    change response.body?.map _ = _
    rw [h]
    rfl
  exact (Place.at?_cons hbelow _).trans (Place.at?_along_self _ _)

/-- The schema of `x-ms-headers` is reached under that name. -/
theorem Response.reach_headersSchema {schema : Schema}
    (h : response.headersSchema? = some schema) :
    response.reach.at? [Extensions.headersKey] = some (.schema schema) := by
  have hbelow : response.reach.below? Extensions.headersKey = some (.schema schema) := by
    change response.headersSchema?.map _ = _
    rw [h]
    rfl
  exact Place.at?_cons hbelow []

/-- A response of an operation, where a build finds it. -/
theorem Operation.reach_response (ho : (o.reach c).Distinct) {entry : String × RefOr Response}
    (hentry : entry ∈ o.responses) (hresponse : c.resolveResponse entry.2 = .ok response) :
    (o.reach c).at? ["responses", entry.1] = some response.reach := by
  rw [ho.at?_entry (by rfl) hentry]
  simp only [hresponse]

/-- A header that some response declares is reached under its name. -/
theorem Operation.reach_header (ho : (o.reach c).Distinct) {headers : Entries Header}
    (hheaders : c.classicalHeaders o.responses = .ok headers) {entry : String × Header}
    (hentry : entry ∈ headers) :
    (o.reach c).at? ["headers", entry.1] = some (.schema entry.2.valueSchema) := by
  have hbelow : (o.reach c).below? "headers" =
      some (.members headers fun header => .schema header.valueSchema) := by
    change (c.classicalHeaders o.responses).toOption.map _ = _
    rw [hheaders]
    rfl
  exact ho.at?_entry hbelow hentry

/-- An operation is reached under its verb. -/
theorem PathItem.reach_operation {item : PathItem} {verb : Verb}
    (h : item.operation? verb = some o) :
    (item.reach c).below? verb.field = some (o.reach c) := by
  rw [← Option.map_some, ← h]
  cases verb <;> rfl

variable {d : Document} {name : String}

/-- A component parameter, where a build finds it. -/
theorem Document.reach_parameter {declared : RefOr Parameter} {p : Parameter}
    (hname : d.components.parameters.get? name = some declared)
    (hp : d.components.resolveParameter declared = .ok (.parameter p)) :
    d.reach.at? ["components", "parameters", name] = some p.reach := by
  have hcomponents : d.reach.below? "components" = some d.components.reach := by rfl
  rw [Place.at?_cons hcomponents, Place.at?_entry (by rfl) hname]
  simp only [hp]

/-- A request body among the components, where a build finds it. -/
theorem Document.reach_requestBody {declared : RefOr RequestBody} {body : RequestBody}
    (hname : d.components.requestBodies.get? name = some declared)
    (hbody : d.components.resolveRequestBody declared = .ok body) :
    d.reach.at? ["components", "requestBodies", name] = some body.reach := by
  have hcomponents : d.reach.below? "components" = some d.components.reach := by rfl
  rw [Place.at?_cons hcomponents, Place.at?_entry (by rfl) hname]
  simp only [hbody]

end Found

end ApiModel
