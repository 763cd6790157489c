import ApiModel.Document
import ApiModel.Proofs.Entries
import ApiModel.Proofs.Nodes
/-!
# What a pointer designates

A pointer is read as RFC 6901 has it: its text is cut at the slashes, the escapes in each
segment are undone, and the segments lead down from the root of the document, by name through
objects and by index through arrays.  Reading a pointer undoes writing it, so a pointer that was
spelled from a path designates what the path leads to.
-/

namespace ApiModel

namespace Pointer

/-- The pointer to the document as a whole. -/
def root : Pointer := ⟨"#"⟩

/-- Undoes escaping.  The digit behind a tilde tells the tilde from the slash, and a tilde does
not stand alone. -/
def unescape? : List Char → Option (List Char)
  | [] => some []
  | '~' :: '0' :: rest => (unescape? rest).map ('~' :: ·)
  | '~' :: '1' :: rest => (unescape? rest).map ('/' :: ·)
  | c :: rest => if c = '~' then none else (unescape? rest).map (c :: ·)

/-- Undoing the escape of a character gives the character back. -/
theorem unescape?_append (c : Char) (rest : List Char) :
    unescape? (escapeChar c ++ rest) = (unescape? rest).map (c :: ·) := by
  unfold escapeChar
  by_cases htilde : c = '~'
  · rw [if_pos htilde, htilde]
    rfl
  · by_cases hslash : c = '/'
    · rw [if_neg htilde, if_pos hslash, hslash]
      rfl
    · rw [if_neg htilde, if_neg hslash, List.singleton_append, unescape?.eq_def]
      split <;> simp_all

/-- The escapes of a segment are undone. -/
theorem unescape?_escapedChars (segment : String) :
    unescape? (escapedChars segment) = some segment.toList := by
  have hchars (cs : List Char) : unescape? (cs.flatMap escapeChar) = some cs := by
    induction cs with
    | nil => rfl
    | cons c cs ih => rw [List.flatMap_cons, unescape?_append, ih, Option.map_some]
  exact hchars segment.toList

/-- The segments of a pointer, from the root mark on. -/
def segments? (p : Pointer) : Option (List String) :=
  match p.text.toList.splitOn '/' with
  | ['#'] :: segments => segments.mapM fun segment => (unescape? segment).map String.ofList
  | _ => none

/-- The slashes of a path cut its text into its segments. -/
theorem splitOn_append_pathChars (cs : List Char) (path : List String) :
    (cs ++ pathChars path).splitOn '/' = cs.splitOn '/' ++ path.map escapedChars := by
  induction path generalizing cs with
  | nil => rw [pathChars_nil, List.append_nil, List.map_nil, List.append_nil]
  | cons segment path ih =>
    rw [pathChars_cons, List.splitOn_append_cons_self, ih,
      List.splitOn_eq_singleton (slash_not_mem_escapedChars segment)]
    rfl

/-- **Reading a pointer undoes writing it.**  A path behind a pointer is a path behind the
segments of the pointer. -/
theorem segments?_descend {p : Pointer} {path : List String} (h : p.segments? = some path)
    (rest : List String) : (p.descend rest).segments? = some (path ++ rest) := by
  have hrest : (rest.map escapedChars).mapM
      (fun segment => (unescape? segment).map String.ofList) = some rest := by
    induction rest with
    | nil => rfl
    | cons segment rest ih =>
      rw [List.map_cons, List.mapM_cons, unescape?_escapedChars, ih, Option.map_some,
        String.ofList_toList]
      rfl
  unfold segments? at h ⊢
  rw [descend_chars, splitOn_append_pathChars]
  split at h
  · rename_i segments hsplit
    rw [hsplit]
    refine List.mapM_append.trans ?_
    rw [h, hrest]
    rfl
  · cases h

/-- The root of a document has no segments. -/
theorem segments?_root : root.segments? = some [] := by
  decide

end Pointer

/-- A place that a pointer can come to: a schema, a map, or something else with places below
it. -/
inductive Place where
  | schema (s : Schema)
  | map (entries : List (String × Place))
  | holder (below? : String → Option Place)

namespace Place

/-- A place with nothing below it. -/
def nothing : Place := .holder fun _ => none

/-- The places in the values of a map. -/
def members {α : Type} (entries : Entries α) (place : α → Place) : Place :=
  .map (entries.mapValues place)

/-- The elements of an array, by index. -/
def elements {α : Type} (list : List α) (place : α → Place) : Place :=
  .holder fun segment =>
    (list.zipIdx.find? fun element => toString element.2 == segment).map fun element =>
      place element.1

end Place

namespace Schema

/-- What a schema holds under a keyword.  A flag that admits additional properties stands for the
schema that says nothing. -/
def below? (s : Schema) : String → Option Place
  | "properties" => some (.members s.properties .schema)
  | "allOf" => some (.elements s.allOf .schema)
  | "items" => s.items.map .schema
  | "additionalProperties" => s.valueSchema?.map .schema
  | _ => none

end Schema

namespace Place

/-- The place under a segment. -/
def below? : Place → String → Option Place
  | schema s, segment => s.below? segment
  | map entries, segment => Entries.get? entries segment
  | holder below?, segment => below? segment

/-- The place at the end of a path. -/
def at? (x : Place) (path : List String) : Option Place :=
  path.foldlM below? x

/-- The schema that stands at a place. -/
def schema? : Place → Option Schema
  | schema s => some s
  | _ => none

/-- A place is a schema exactly if it holds one. -/
theorem schema?_eq_some_iff {x : Place} {s : Schema} : x.schema? = some s ↔ x = .schema s := by
  cases x <;> simp [schema?]

/-- A path goes on from where its first part leads. -/
theorem at?_append (x : Place) (path rest : List String) :
    x.at? (path ++ rest) = (x.at? path).bind (·.at? rest) := by
  unfold at?
  rw [List.foldlM_append]
  rfl

/-- A path in two parts leads where the second part leads from the end of the first. -/
theorem at?_append_eq {x y : Place} {path : List String} (h : x.at? path = some y)
    (rest : List String) : x.at? (path ++ rest) = y.at? rest := by
  rw [at?_append, h]
  rfl

end Place

/-- The places in a node that may be a reference; there are none in a reference. -/
def RefOr.place {α : Type} (place : α → Place) : RefOr α → Place
  | .node value => place value
  | .reference _ => .nothing

/-- The places in a media type entry. -/
def MediaType.place (m : MediaType) : Place :=
  .holder fun
    | "schema" => m.schema.map .schema
    | _ => none

/-- The places in a parameter. -/
def Parameter.place (p : Parameter) : Place :=
  .holder fun
    | "schema" => p.schema.map .schema
    | _ => none

/-- The places in a header. -/
def Header.place (h : Header) : Place :=
  .holder fun
    | "schema" => h.schema.map .schema
    | _ => none

/-- The places in a request body. -/
def RequestBody.place (b : RequestBody) : Place :=
  .holder fun
    | "content" => some (.members b.content MediaType.place)
    | _ => none

/-- The schema that a response declares for all its headers. -/
def Response.headersSchema? (response : Response) : Option Schema :=
  (Entries.get? response.extensions Extensions.headersKey).bind fun extension =>
    Schema.ofTree? .typed (.ofJson extension)

/-- The places in a response. -/
def Response.place (response : Response) : Place :=
  .holder fun
    | "content" => some (.members response.content MediaType.place)
    | "headers" => some (.members response.headers (RefOr.place Header.place))
    | "x-ms-headers" => response.headersSchema?.map .schema
    | _ => none

/-- The places in an operation. -/
def Operation.place (o : Operation) : Place :=
  .holder fun
    | "parameters" => some (.elements o.parameters (RefOr.place Parameter.place))
    | "requestBody" => o.requestBody.map (RefOr.place RequestBody.place)
    | "responses" => some (.members o.responses (RefOr.place Response.place))
    | _ => none

/-- The places in a path item. -/
def PathItem.place (item : PathItem) : Place :=
  .holder fun
    | "parameters" => some (.elements item.parameters (RefOr.place Parameter.place))
    | segment => ((Verb.all.find? (·.field == segment)).bind item.operation?).map Operation.place

/-- The places in a server; its variables hold no schemas. -/
def Server.place (server : Server) : Place :=
  .holder fun
    | "variables" => some (.members server.templateVariables fun _ => .nothing)
    | _ => none

/-- The places in the components. -/
def Components.place (c : Components) : Place :=
  .holder fun
    | "schemas" => some (.members c.schemas .schema)
    | "responses" => some (.members c.responses (RefOr.place Response.place))
    | "parameters" => some (.members c.parameters (RefOr.place Parameter.place))
    | "requestBodies" => some (.members c.requestBodies (RefOr.place RequestBody.place))
    | "headers" => some (.members c.headers (RefOr.place Header.place))
    | _ => none

/-- The places in a document. -/
def Document.place (d : Document) : Place :=
  .holder fun
    | "servers" => some (.elements d.servers Server.place)
    | "components" => some d.components.place
    | "paths" => some (.members d.paths PathItem.place)
    | "x-ms-paths" => some (.members d.customPaths PathItem.place)
    | _ => none

/-- The schema that a pointer designates. -/
def Document.schemaAt? (d : Document) (p : Pointer) : Option Schema :=
  p.segments?.bind fun path => (d.place.at? path).bind Place.schema?

namespace Place

theorem at?_nil (x : Place) : x.at? [] = some x := rfl

/-- One segment at a time. -/
theorem at?_cons {x y : Place} {segment : String} (h : x.below? segment = some y)
    (path : List String) : x.at? (segment :: path) = y.at? path := by
  unfold at?
  rw [List.foldlM_cons, h]
  rfl

/-- A path leads through the place under its first segment. -/
theorem at?_cons_eq_some {x y : Place} {segment : String} {path : List String}
    (h : x.at? (segment :: path) = some y) :
    ∃ z, x.below? segment = some z ∧ z.at? path = some y := by
  unfold at? at h
  rw [List.foldlM_cons] at h
  exact Option.bind_eq_some_iff.mp h

/-- An entry of a map stands under its name. -/
theorem members_below {α : Type} {entries : Entries α} (place : α → Place) {name : String}
    {a : α} (h : entries.get? name = some a) :
    (members entries place).below? name = some (place a) := by
  rw [members, below?, Entries.get?_mapValues, h]
  rfl

/-- An element of a list stands under its index. -/
theorem elements_below {α : Type} {list : List α} {place : α → Place} {a : α} {index : Nat}
    (h : (a, index) ∈ list.zipIdx) :
    (elements list place).below? (toString index) = some (place a) := by
  have hfind : list.zipIdx.find? (fun element => toString element.2 == toString index) =
      some (a, index) := by
    obtain ⟨element, hfound⟩ : ∃ element, list.zipIdx.find?
        (fun element => toString element.2 == toString index) = some element :=
      Option.isSome_iff_exists.mp
        (List.find?_isSome.mpr ⟨(a, index), h, beq_self_eq_true (toString index)⟩)
    have hmem := List.mem_of_find?_eq_some hfound
    have hsame := List.find?_some hfound
    obtain ⟨a', index'⟩ := element
    obtain rfl : index' = index := Located.toString_index_inj (eq_of_beq hsame)
    rw [List.mk_mem_zipIdx_iff_getElem?] at h hmem
    rw [h, Option.some_inj] at hmem
    rw [hfound, hmem]
  rw [elements, below?, hfind]
  rfl

/-- An entry of a map in a place. -/
theorem at?_entry {α : Type} {x : Place} {segment name : String} {entries : Entries α}
    {place : α → Place} (hx : x.below? segment = some (members entries place)) {a : α}
    (h : entries.get? name = some a) : x.at? [segment, name] = some (place a) :=
  (at?_cons hx _).trans (at?_cons (members_below place h) [])

/-- An element of an array in a place. -/
theorem at?_element {α : Type} {x : Place} {segment : String} {list : List α}
    {place : α → Place} (hx : x.below? segment = some (elements list place)) {a : α}
    {index : Nat} (h : (a, index) ∈ list.zipIdx) :
    x.at? [segment, toString index] = some (place a) :=
  (at?_cons hx _).trans (at?_cons (elements_below h) [])

/-- A member stands under its index in `allOf`. -/
theorem at?_member {s t : Schema} {index : Nat} (h : (t, index) ∈ s.allOf.zipIdx) :
    (schema s).at? ["allOf", toString index] = some (schema t) :=
  at?_element (by rfl) h

/-- Where no property is declared twice, the pointers of the nodes right below a node spell the
paths to them. -/
theorem at?_child {x y : Located} (hnames : (Entries.keys x.schema.properties).Nodup)
    (hy : y ∈ x.children) : ∃ step, y.id = x.id.descend step ∧
      (schema x.schema).at? step = some (schema y.schema) := by
  simp only [Located.children, List.mem_append, Option.mem_toList, Located.propertyNodes,
    Located.memberNodes, Located.itemsNode?, Located.valueNode?, List.mem_map,
    Option.map_eq_some_iff] at hy
  rcases hy with ((⟨⟨name, s⟩, hs, rfl⟩ | ⟨⟨s, index⟩, hs, rfl⟩) | ⟨s, hs, rfl⟩) | ⟨s, hs, rfl⟩
  · have hname := (Entries.get?_eq_some_iff hnames).mpr hs
    exact ⟨["properties", name], rfl, at?_entry (by rfl) hname⟩
  · exact ⟨["allOf", toString index], rfl, at?_member hs⟩
  · have hitems : (schema x.schema).below? "items" = some (schema s) :=
      congrArg (Option.map schema) hs
    exact ⟨["items"], rfl, at?_cons hitems []⟩
  · have hvalues : (schema x.schema).below? "additionalProperties" = some (schema s) :=
      congrArg (Option.map schema) hs
    exact ⟨["additionalProperties"], rfl, at?_cons hvalues []⟩

end Place

namespace Document

variable {d : Document} {p : Pointer} {s t : Schema} {x y : Located} {name : String}

/-- A pointer designates the schema that its segments lead to. -/
theorem schemaAt?_eq_some_iff : d.schemaAt? p = some s ↔
    ∃ path, p.segments? = some path ∧ d.place.at? path = some (.schema s) := by
  unfold schemaAt?
  rw [Option.bind_eq_some_iff]
  refine exists_congr fun path => and_congr_right fun _ => ?_
  simp only [Option.bind_eq_some_iff, Place.schema?_eq_some_iff, exists_eq_right]

/-- A pointer that goes on from a schema designates what the rest of it leads to from there. -/
theorem schemaAt?_descend (hs : d.schemaAt? p = some s) {rest : List String}
    (ht : (Place.schema s).at? rest = some (.schema t)) :
    d.schemaAt? (p.descend rest) = some t := by
  obtain ⟨path, hpath, hplace⟩ := schemaAt?_eq_some_iff.mp hs
  refine schemaAt?_eq_some_iff.mpr ⟨path ++ rest, Pointer.segments?_descend hpath rest, ?_⟩
  exact (Place.at?_append_eq hplace rest).trans ht

/-- The pointer of a component designates the component. -/
theorem schemaAt?_component (h : d.components.schemas.get? name = some s) :
    d.schemaAt? (.component name) = some s := by
  have hpointer : Pointer.component name =
      Pointer.root.descend ["components", "schemas", name] := rfl
  rw [hpointer]
  refine schemaAt?_eq_some_iff.mpr ⟨_, Pointer.segments?_descend Pointer.segments?_root _, ?_⟩
  have hcomponents : d.place.below? "components" = some d.components.place := by rfl
  exact (Place.at?_cons hcomponents _).trans (Place.at?_entry (by rfl) h)

/-- The pointer of a member of `allOf` designates the member. -/
theorem schemaAt?_member (hx : d.schemaAt? x.id = some x.schema) {index : Nat}
    (hs : (s, index) ∈ x.schema.allOf.zipIdx) :
    d.schemaAt? ((x.id.child "allOf").item index) = some s := by
  change d.schemaAt? (x.id.descend ["allOf", toString index]) = some s
  exact schemaAt?_descend hx (Place.at?_member hs)

/-- Where no property is declared twice, the pointers of the nodes right below a node designate
these nodes. -/
theorem schemaAt?_child (hx : d.schemaAt? x.id = some x.schema)
    (hnames : (Entries.keys x.schema.properties).Nodup) (hy : y ∈ x.children) :
    d.schemaAt? y.id = some y.schema := by
  obtain ⟨step, hid, hstep⟩ := Place.at?_child hnames hy
  rw [hid]
  exact schemaAt?_descend hx hstep

end Document

end ApiModel
