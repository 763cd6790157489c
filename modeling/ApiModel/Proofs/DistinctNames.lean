import ApiModel.Proofs.Designation
import ApiModel.Proofs.Readers
/-!
# Names that are declared once

The properties of a schema, the paths of a document, the responses of an operation and the
sections of components are maps, and a reader keeps the last of several entries with one name.
So in a document that is read from a text no name stands twice in a map, wherever the map is: not
in a schema below a component, not in an operation, and not in the schema that a response
declares for its headers.
-/

namespace ApiModel

/-- What is read of a list was read of one of its members. -/
theorem mem_of_mapM_some {α β : Type} {f : α → Option β} {as : List α} {bs : List β}
    (h : as.mapM f = some bs) {b : β} (hb : b ∈ bs) : ∃ a ∈ as, f a = some b := by
  induction as generalizing bs with
  | nil =>
    cases h
    cases hb
  | cons a as ih =>
    simp only [List.mapM_cons, Option.bind_eq_bind, Option.bind_eq_some_iff] at h
    obtain ⟨b', hb', bs', hbs', hcons⟩ := h
    cases hcons
    rcases List.mem_cons.mp hb with rfl | hmem
    · exact ⟨a, List.mem_cons_self, hb'⟩
    · obtain ⟨a', ha', hfound⟩ := ih hbs' hmem
      exact ⟨a', List.mem_cons_of_mem _ ha', hfound⟩

/-- An entry of a map that was written is one of the writes. -/
theorem Entries.mem_ofList {α : Type} {writes : List (String × α)} {entry : String × α}
    (h : entry ∈ ofList writes) : entry ∈ writes := by
  have hfold (m : Entries α)
      (hm : entry ∈ writes.foldl (fun m write => m.insert write.1 write.2) m) :
      entry ∈ m ∨ entry ∈ writes := by
    clear h
    induction writes generalizing m with
    | nil => exact .inl hm
    | cons write writes ih =>
      rcases ih _ hm with hinsert | hrest
      · rcases Entries.mem_insert hinsert with hold | ⟨hkey, hvalue⟩
        · exact .inl hold
        · have hentry : entry = write := Prod.ext hkey hvalue
          exact .inr (hentry ▸ List.mem_cons_self)
      · exact .inr (.tail _ hrest)
  exact (hfold [] h).resolve_left List.not_mem_nil

namespace Tree

variable {α : Type} {r : Reading} {read : Tree → Option α} {tree : Tree}

/-- The values of a map that is read are values that are read. -/
theorem mem_entriesOf? {entries : Entries α} (h : entriesOf? r read tree = some entries)
    {entry : String × α} (hentry : entry ∈ entries) : ∃ tree', read tree' = some entry.2 := by
  obtain ⟨pairs, -, hrest⟩ := Option.bind_eq_some_iff.mp h
  obtain ⟨writes, hwrites, hentries⟩ := Option.bind_eq_some_iff.mp hrest
  cases hentries
  obtain ⟨pair, -, hpair⟩ := mem_of_mapM_some hwrites (Entries.mem_ofList hentry)
  simp only [Option.bind_eq_bind, Option.bind_eq_some_iff] at hpair
  obtain ⟨key, -, value, hvalue, hentry⟩ := hpair
  cases hentry
  exact ⟨_, hvalue⟩

/-- Every item of a list was read from some tree. -/
theorem mem_listOf? {items : List α} (h : listOf? r read tree = some items) {item : α}
    (hitem : item ∈ items) : ∃ tree', read tree' = some item := by
  obtain ⟨trees, -, hitems⟩ := Option.bind_eq_some_iff.mp h
  obtain ⟨tree', -, htree⟩ := mem_of_mapM_some hitems hitem
  exact ⟨tree', htree⟩

end Tree

namespace Record

variable {α : Type} {record : Record} {name : String} {read : Tree → Option α}

/-- A field that has a value was read from some tree. -/
theorem optional?_some {result : Option α} {value : α}
    (h : record.optional? name read = some result) (hvalue : result = some value) :
    ∃ tree, read tree = some value := by
  subst hvalue
  unfold optional? at h
  split at h
  · cases h
  · split_ifs at h
    · cases h
    · obtain ⟨value', hread, hvalue'⟩ := Option.map_eq_some_iff.mp h
      cases hvalue'
      exact ⟨_, hread⟩

/-- A map that is read, or left out, has each key once, and its values were read from trees. -/
theorem entries_orElse? {r : Reading} {entries : Entries α}
    (h : record.orElse? name [] (Tree.entriesOf? r read) = some entries) :
    entries.keys.Nodup ∧ ∀ entry ∈ entries, ∃ tree, read tree = some entry.2 := by
  rcases orElse?_cases h with rfl | ⟨tree, htree⟩
  · exact ⟨List.nodup_nil, fun _ hentry => absurd hentry List.not_mem_nil⟩
  · exact ⟨Tree.entriesOf?_nodup htree, fun _ hentry => Tree.mem_entriesOf? htree hentry⟩

/-- The items of a list that is read, or left out, were read from trees. -/
theorem list_orElse? {r : Reading} {items : List α}
    (h : record.orElse? name [] (Tree.listOf? r read) = some items) :
    ∀ item ∈ items, ∃ tree, read tree = some item := by
  rcases orElse?_cases h with rfl | ⟨tree, htree⟩
  · exact fun _ hitem => absurd hitem List.not_mem_nil
  · exact fun _ hitem => Tree.mem_listOf? htree hitem

end Record

namespace Place

/-- No map at a place or below it holds a key twice. -/
def Distinct (x : Place) : Prop :=
  ∀ path entries, x.at? path = some (.map entries) → (Entries.keys entries).Nodup

/-- A place is in order when it is and every place right below it is. -/
theorem distinct_of_below {x : Place}
    (hhere : ∀ entries, x = .map entries → (Entries.keys entries).Nodup)
    (hbelow : ∀ segment y, x.below? segment = some y → y.Distinct) : x.Distinct := by
  intro path entries hentries
  cases path with
  | nil => exact hhere entries (Option.some.inj hentries)
  | cons segment path =>
    obtain ⟨y, hy, hrest⟩ := at?_cons_eq_some hentries
    exact hbelow segment y hy path entries hrest

/-- What lies below a place in order, at any depth, is in order. -/
theorem Distinct.at {x y : Place} (h : x.Distinct) {path : List String}
    (hy : x.at? path = some y) : y.Distinct := by
  intro rest entries hentries
  refine h (path ++ rest) entries ?_
  exact (at?_append_eq hy rest).trans hentries

/-- What lies right below a place in order is in order. -/
theorem Distinct.below {x y : Place} (h : x.Distinct) (segment : String)
    (hy : x.below? segment = some y) : y.Distinct :=
  h.at (at?_cons hy [])

/-- A place that is no map is in order when everything right below it is. -/
theorem distinct_holder {below? : String → Option Place}
    (h : ∀ segment y, below? segment = some y → y.Distinct) : (holder below?).Distinct :=
  distinct_of_below (fun _ hentries => by cases hentries) h

/-- Where nothing stands nothing stands twice. -/
theorem distinct_nothing : nothing.Distinct :=
  distinct_holder fun _ _ hy => by cases hy

/-- A map is in order when its keys differ and its values are in order. -/
theorem distinct_members {α : Type} {entries : Entries α} {place : α → Place}
    (hkeys : entries.keys.Nodup) (h : ∀ entry ∈ entries, (place entry.2).Distinct) :
    (members entries place).Distinct := by
  refine distinct_of_below ?_ fun name y hy => ?_
  · intro entries' hentries
    cases hentries
    rwa [Entries.keys_mapValues]
  · change Entries.get? (entries.mapValues place) name = some y at hy
    rw [Entries.get?_mapValues] at hy
    obtain ⟨value, hvalue, rfl⟩ := Option.map_eq_some_iff.mp hy
    exact h _ (Entries.mem_of_get? hvalue)

/-- A map without entries is in order. -/
theorem distinct_empty {α : Type} (place : α → Place) :
    (members ([] : Entries α) place).Distinct :=
  distinct_members List.nodup_nil fun _ h => absurd h List.not_mem_nil

/-- A map without repeated keys, and what lies below its entries. -/
theorem Distinct.members {α : Type} {entries : Entries α} {place : α → Place}
    (h : (members entries place).Distinct) :
    entries.keys.Nodup ∧ ∀ entry ∈ entries, (place entry.2).Distinct := by
  have hkeys := h [] _ rfl
  rw [Entries.keys_mapValues] at hkeys
  refine ⟨hkeys, fun entry hentry => ?_⟩
  exact h.below _ (members_below _ ((Entries.get?_eq_some_iff hkeys).mpr hentry))

/-- A list is in order when its elements are. -/
theorem distinct_elements {α : Type} {list : List α} {place : α → Place}
    (h : ∀ a ∈ list, (place a).Distinct) : (elements list place).Distinct := by
  refine distinct_holder fun name y hy => ?_
  obtain ⟨element, helement, rfl⟩ := Option.map_eq_some_iff.mp hy
  have hmem := List.mem_of_find?_eq_some helement
  exact h _ (List.fst_mem_of_mem_zipIdx hmem)

/-- The elements of a list in order are in order. -/
theorem Distinct.elements {α : Type} {list : List α} {place : α → Place}
    (h : (elements list place).Distinct) {a : α} (ha : a ∈ list) : (place a).Distinct := by
  obtain ⟨index, hindex⟩ := List.mem_iff_getElem?.mp ha
  exact h.below _ (elements_below (List.mk_mem_zipIdx_iff_getElem?.mpr hindex))

/-- A schema that may be left out is in order when it is there and in order. -/
theorem distinct_optional {schema : Option Schema} {y : Place}
    (hschema : ∀ s, schema = some s → (Place.schema s).Distinct)
    (h : schema.map Place.schema = some y) : y.Distinct := by
  obtain ⟨s, hs, rfl⟩ := Option.map_eq_some_iff.mp h
  exact hschema s hs

end Place

namespace Schema

/-- A schema declares no property twice when it and the schemas in it do not. -/
theorem distinct_of_parts {s : Schema} (hown : (Entries.keys s.properties).Nodup)
    (hproperties : ∀ entry ∈ s.properties, (Place.schema entry.2).Distinct)
    (hmembers : ∀ member ∈ s.allOf, (Place.schema member).Distinct)
    (hitems : ∀ items, s.items = some items → (Place.schema items).Distinct)
    (hvalues : ∀ values, s.valueSchema? = some values → (Place.schema values).Distinct) :
    (Place.schema s).Distinct := by
  refine Place.distinct_of_below (fun _ hentries => by cases hentries) fun segment y hy => ?_
  change s.below? segment = some y at hy
  unfold below? at hy
  split at hy
  · cases hy
    exact Place.distinct_members hown hproperties
  · cases hy
    exact Place.distinct_elements hmembers
  · exact Place.distinct_optional hitems hy
  · exact Place.distinct_optional hvalues hy
  · cases hy

/-- A schema in order declares each property once. -/
theorem nodup_properties {s : Schema} (h : (Place.schema s).Distinct) :
    (Entries.keys s.properties).Nodup :=
  (h.below "properties" (by rfl)).members.1

/-- A schema without parts declares nothing twice. -/
theorem distinct_leaf {s : Schema} (hproperties : s.properties = []) (hallOf : s.allOf = [])
    (hitems : s.items = none) (hvalues : s.valueSchema? = none) : (Place.schema s).Distinct := by
  refine distinct_of_parts ?_ ?_ ?_ ?_ ?_
  · rw [hproperties]
    exact List.nodup_nil
  · rw [hproperties]
    exact fun _ hentry => absurd hentry List.not_mem_nil
  · rw [hallOf]
    exact fun _ hmember => absurd hmember List.not_mem_nil
  · rw [hitems]
    exact fun _ h => by cases h
  · rw [hvalues]
    exact fun _ h => by cases h

/-- A schema that declares properties and nothing else. -/
theorem distinct_object {properties : Entries Schema} (hkeys : properties.keys.Nodup)
    (h : ∀ entry ∈ properties, (Place.schema entry.2).Distinct) :
    (Place.schema { properties := properties }).Distinct :=
  distinct_of_parts hkeys h (fun _ hmember => absurd hmember List.not_mem_nil)
    (fun _ hitems => by cases hitems) fun _ hvalues => by cases hvalues

/-- A schema that is read to some depth is in order, by induction on the depth. -/
theorem ofTreeWithin?_distinct {depth : Nat} {r : Reading} {tree : Tree} {s : Schema}
    (h : ofTreeWithin? depth r tree = some s) : (Place.schema s).Distinct := by
  induction depth generalizing r tree s with
  | zero => cases h
  | succ depth ih =>
    simp only [ofTreeWithin?, Option.bind_eq_bind, Option.bind_eq_some_iff] at h
    obtain ⟨record, -, keywords, -, properties, hproperties, additional, hadditional, members,
      hmembers, items, hitems, h⟩ := h
    cases h
    have hread := Record.entries_orElse? hproperties
    refine distinct_of_parts hread.1 (fun entry hentry => ?_) (fun member hmember => ?_)
      (fun items' hitems' => ?_) fun values hvalues => ?_
    · obtain ⟨tree', htree⟩ := hread.2 entry hentry
      exact ih htree
    · obtain ⟨tree', htree⟩ := Record.list_orElse? hmembers member hmember
      exact ih htree
    · obtain ⟨tree', htree⟩ := Record.optional?_some hitems hitems'
      exact ih htree
    · unfold valueSchema? at hvalues
      split at hvalues
      · cases hvalues
        exact distinct_leaf rfl rfl rfl rfl
      · rename_i values' hschema
        cases hvalues
        obtain ⟨tree', htree⟩ := Record.optional?_some hadditional hschema
        unfold additionalOfTree? at htree
        obtain ⟨whole, -, htree⟩ := Option.bind_eq_some_iff.mp htree
        split at htree
        · cases htree
        · obtain ⟨read, hread', hsame⟩ := Option.bind_eq_some_iff.mp htree
          cases hsame
          exact ih hread'
      · cases hvalues

/-- A schema that is read is in order. -/
theorem ofTree?_distinct {r : Reading} {tree : Tree} {s : Schema}
    (h : ofTree? r tree = some s) : (Place.schema s).Distinct :=
  ofTreeWithin?_distinct h

end Schema

section Sections

variable {r : Reading} {tree : Tree}

/-- A node that may be a reference is in order if it is when it is none. -/
theorem RefOr.ofTree?_distinct {α : Type} {read : Tree → Option α} {place : α → Place}
    (hread : ∀ {tree value}, read tree = some value → (place value).Distinct) {x : RefOr α}
    (h : RefOr.ofTree? read tree = some x) : (x.place place).Distinct := by
  obtain ⟨whole, -, h⟩ := Option.bind_eq_some_iff.mp h
  split at h
  · cases h
    exact Place.distinct_nothing
  · obtain ⟨value, hvalue, hsame⟩ := Option.bind_eq_some_iff.mp h
    cases hsame
    exact hread hvalue

/-- The entries of a map of nodes that may be references. -/
theorem Place.distinct_refMembers {α : Type} {read : Tree → Option α} {place : α → Place}
    (hread : ∀ {tree value}, read tree = some value → (place value).Distinct) {record : Record}
    {name : String} {entries : Entries (RefOr α)}
    (h : record.orElse? name [] (Tree.entriesOf? r (RefOr.ofTree? read)) = some entries) :
    (Place.members entries (RefOr.place place)).Distinct := by
  have hread' := Record.entries_orElse? h
  refine Place.distinct_members hread'.1 fun entry hentry => ?_
  obtain ⟨tree', htree⟩ := hread'.2 entry hentry
  exact RefOr.ofTree?_distinct hread htree

/-- The elements of a list of nodes that may be references. -/
theorem Place.distinct_refElements {α : Type} {read : Tree → Option α} {place : α → Place}
    (hread : ∀ {tree value}, read tree = some value → (place value).Distinct) {record : Record}
    {name : String} {list : List (RefOr α)}
    (h : record.orElse? name [] (Tree.listOf? r (RefOr.ofTree? read)) = some list) :
    (Place.elements list (RefOr.place place)).Distinct := by
  refine Place.distinct_elements fun element helement => ?_
  obtain ⟨tree', htree⟩ := Record.list_orElse? h element helement
  exact RefOr.ofTree?_distinct hread htree

/-- The schema of a field is in order. -/
theorem Place.distinct_schemaField {record : Record} {name : String} {schema : Option Schema}
    (h : record.optional? name (Schema.ofTree? r) = some schema) {y : Place}
    (hy : schema.map Place.schema = some y) : y.Distinct := by
  refine Place.distinct_optional (fun s hs => ?_) hy
  obtain ⟨tree', htree⟩ := Record.optional?_some h hs
  exact Schema.ofTree?_distinct htree

theorem MediaType.ofTree?_distinct {m : MediaType} (h : MediaType.ofTree? r tree = some m) :
    m.place.Distinct := by
  simp only [MediaType.ofTree?, Option.bind_eq_bind, Option.bind_eq_some_iff] at h
  obtain ⟨record, -, schema, hschema, extensions, -, h⟩ := h
  cases h
  refine Place.distinct_holder fun segment y hy => ?_
  split at hy
  · exact Place.distinct_schemaField hschema hy
  · cases hy

/-- The content of a body or a response that is read is in order. -/
theorem Content.distinct {record : Record} {name : String} {content : Content}
    (h : record.orElse? name [] (Tree.entriesOf? r (MediaType.ofTree? r)) = some content) :
    (Place.members content MediaType.place).Distinct := by
  have hread' := Record.entries_orElse? h
  refine Place.distinct_members hread'.1 fun entry hentry => ?_
  obtain ⟨tree', htree⟩ := hread'.2 entry hentry
  exact MediaType.ofTree?_distinct htree

/-- A parameter is in order when its schema is. -/
theorem Parameter.distinct_place {p : Parameter}
    (h : ∀ s, p.schema = some s → (Place.schema s).Distinct) : p.place.Distinct := by
  refine Place.distinct_holder fun segment y hy => ?_
  split at hy
  · exact Place.distinct_optional h hy
  · cases hy

theorem Parameter.ofTree?_distinct {p : Parameter} (h : Parameter.ofTree? r tree = some p) :
    p.place.Distinct := by
  simp only [Parameter.ofTree?, Option.bind_eq_bind, Option.bind_eq_some_iff] at h
  obtain ⟨record, -, _, -, _, -, _, -, _, -, _, -, schema, hschema, h⟩ := h
  obtain ⟨_, -, _, -, _, -, h⟩ := h
  cases h
  refine distinct_place fun s hs => ?_
  obtain ⟨tree', htree⟩ := Record.optional?_some hschema hs
  exact Schema.ofTree?_distinct htree

theorem Header.ofTree?_distinct {header : Header} (h : Header.ofTree? r tree = some header) :
    header.place.Distinct := by
  simp only [Header.ofTree?, Option.bind_eq_bind, Option.bind_eq_some_iff] at h
  obtain ⟨record, -, _, -, _, -, schema, hschema, _, -, h⟩ := h
  cases h
  refine Place.distinct_holder fun segment y hy => ?_
  split at hy
  · exact Place.distinct_schemaField hschema hy
  · cases hy

theorem RequestBody.ofTree?_distinct {b : RequestBody} (h : RequestBody.ofTree? r tree = some b) :
    b.place.Distinct := by
  simp only [RequestBody.ofTree?, Option.bind_eq_bind, Option.bind_eq_some_iff] at h
  obtain ⟨record, -, _, -, content, hcontent, _, -, _, -, h⟩ := h
  cases h
  refine Place.distinct_holder fun segment y hy => ?_
  split at hy
  · cases hy
    exact Content.distinct hcontent
  · cases hy

/-- A response that is read is in order, the schema of its `x-ms-headers` too. -/
theorem Response.ofTree?_distinct {response : Response}
    (h : Response.ofTree? r tree = some response) : response.place.Distinct := by
  simp only [Response.ofTree?, Option.bind_eq_bind, Option.bind_eq_some_iff] at h
  obtain ⟨record, -, _, -, content, hcontent, headers, hheaders, _, -, h⟩ := h
  cases h
  refine Place.distinct_holder fun segment y hy => ?_
  split at hy
  · cases hy
    exact Content.distinct hcontent
  · cases hy
    exact Place.distinct_refMembers Header.ofTree?_distinct hheaders
  · refine Place.distinct_optional (fun s hs => ?_) hy
    obtain ⟨extension, -, hs⟩ := Option.bind_eq_some_iff.mp hs
    exact Schema.ofTree?_distinct hs
  · cases hy

/-- An operation that is read is in order. -/
theorem Operation.ofTree?_distinct {o : Operation} (h : Operation.ofTree? r tree = some o) :
    o.place.Distinct := by
  unfold Operation.ofTree? at h
  obtain ⟨record, -, h⟩ := Option.bind_eq_some_iff.mp h
  iterate 5 obtain ⟨_, -, h⟩ := Option.bind_eq_some_iff.mp h
  obtain ⟨parameters, hparameters, h⟩ := Option.bind_eq_some_iff.mp h
  obtain ⟨requestBody, hbody, h⟩ := Option.bind_eq_some_iff.mp h
  obtain ⟨responses, hresponses, h⟩ := Option.bind_eq_some_iff.mp h
  iterate 5 obtain ⟨_, -, h⟩ := Option.bind_eq_some_iff.mp h
  cases h
  refine Place.distinct_holder fun segment y hy => ?_
  split at hy
  · cases hy
    exact Place.distinct_refElements Parameter.ofTree?_distinct hparameters
  · obtain ⟨body, hsome, rfl⟩ := Option.map_eq_some_iff.mp hy
    obtain ⟨tree', htree⟩ := Record.optional?_some hbody hsome
    exact RefOr.ofTree?_distinct RequestBody.ofTree?_distinct htree
  · cases hy
    exact Place.distinct_refMembers Response.ofTree?_distinct hresponses
  · cases hy

/-- A path item that is read is in order, with all of its operations. -/
theorem PathItem.ofTree?_distinct {item : PathItem} (h : PathItem.ofTree? r tree = some item) :
    item.place.Distinct := by
  simp only [PathItem.ofTree?, Option.bind_eq_bind, Option.bind_eq_some_iff] at h
  obtain ⟨record, -, parameters, hparameters, h⟩ := h
  obtain ⟨get, hget, put, hput, post, hpost, delete, hdelete, h⟩ := h
  obtain ⟨options, hoptions, head, hhead, patch, hpatch, trace, htrace, h⟩ := h
  have hoperation (verb : Verb) : ∀ o, item.operation? verb = some o → o.place.Distinct := by
    intro o ho
    cases h
    have hread {field : String} {result : Option Operation}
        (hfield : record.optional? field (Operation.ofTree? r) = some result)
        (hsome : result = some o) : o.place.Distinct := by
      obtain ⟨tree', htree⟩ := Record.optional?_some hfield hsome
      exact Operation.ofTree?_distinct htree
    cases verb
    · exact hread hget ho
    · exact hread hput ho
    · exact hread hpost ho
    · exact hread hdelete ho
    · exact hread hoptions ho
    · exact hread hhead ho
    · exact hread hpatch ho
    · exact hread htrace ho
  refine Place.distinct_holder fun segment y hy => ?_
  split at hy
  · cases h
    cases hy
    exact Place.distinct_refElements Parameter.ofTree?_distinct hparameters
  · obtain ⟨o, ho, rfl⟩ := Option.map_eq_some_iff.mp hy
    obtain ⟨verb, -, hverb⟩ := Option.bind_eq_some_iff.mp ho
    exact hoperation verb o hverb

/-- Components are in order when each section is. -/
theorem Components.distinct_place {c : Components}
    (hschemas : (Place.members c.schemas .schema).Distinct)
    (hresponses : (Place.members c.responses (RefOr.place Response.place)).Distinct)
    (hparameters : (Place.members c.parameters (RefOr.place Parameter.place)).Distinct)
    (hbodies : (Place.members c.requestBodies (RefOr.place RequestBody.place)).Distinct)
    (hheaders : (Place.members c.headers (RefOr.place Header.place)).Distinct) :
    c.place.Distinct := by
  refine Place.distinct_holder fun segment y hy => ?_
  split at hy
  · cases hy
    exact hschemas
  · cases hy
    exact hresponses
  · cases hy
    exact hparameters
  · cases hy
    exact hbodies
  · cases hy
    exact hheaders
  · cases hy

theorem Components.ofTree?_distinct {c : Components} (h : Components.ofTree? r tree = some c) :
    c.place.Distinct := by
  simp only [Components.ofTree?, Option.bind_eq_bind, Option.bind_eq_some_iff] at h
  obtain ⟨record, -, schemas, hschemas, responses, hresponses, h⟩ := h
  obtain ⟨parameters, hparameters, bodies, hbodies, headers, hheaders, _, -, h⟩ := h
  cases h
  have hread := Record.entries_orElse? hschemas
  have hplaces : (Place.members schemas .schema).Distinct := by
    refine Place.distinct_members hread.1 fun entry hentry => ?_
    obtain ⟨tree', htree⟩ := hread.2 entry hentry
    exact Schema.ofTree?_distinct htree
  exact distinct_place hplaces (Place.distinct_refMembers Response.ofTree?_distinct hresponses)
    (Place.distinct_refMembers Parameter.ofTree?_distinct hparameters)
    (Place.distinct_refMembers RequestBody.ofTree?_distinct hbodies)
    (Place.distinct_refMembers Header.ofTree?_distinct hheaders)

theorem Server.ofTree?_distinct {server : Server} (h : Server.ofTree? r tree = some server) :
    server.place.Distinct := by
  simp only [Server.ofTree?, Option.bind_eq_bind, Option.bind_eq_some_iff] at h
  obtain ⟨record, -, _, -, _, -, entries, hentries, _, -, h⟩ := h
  cases h
  refine Place.distinct_holder fun segment y hy => ?_
  split at hy
  · cases hy
    exact Place.distinct_members (Record.entries_orElse? hentries).1 fun _ _ =>
      Place.distinct_nothing
  · cases hy

/-- A document is in order when its servers, its components and both kinds of paths are. -/
theorem Document.distinct_place {d : Document}
    (hservers : ∀ server ∈ d.servers, server.place.Distinct)
    (hcomponents : d.components.place.Distinct)
    (hpaths : (Place.members d.paths PathItem.place).Distinct)
    (hcustom : (Place.members d.customPaths PathItem.place).Distinct) : d.place.Distinct := by
  refine Place.distinct_holder fun segment y hy => ?_
  split at hy
  · cases hy
    exact Place.distinct_elements hservers
  · cases hy
    exact hcomponents
  · cases hy
    exact hpaths
  · cases hy
    exact hcustom
  · cases hy

/-- A document that is read is in order. -/
theorem Document.ofTree?_distinct {d : Document} (h : Document.ofTree? r tree = some d) :
    d.place.Distinct := by
  simp only [Document.ofTree?, Option.bind_eq_bind, Option.bind_eq_some_iff] at h
  obtain ⟨record, -, _, -, _, -, servers, hservers, paths, hpaths, customPaths, hcustom, h⟩ := h
  obtain ⟨components, hcomponents, _, -, _, -, _, -, _, -, h⟩ := h
  cases h
  have hitems {name : String} {items : Entries PathItem}
      (hread : record.orElse? name [] (Tree.entriesOf? r (PathItem.ofTree? r)) = some items) :
      (Place.members items PathItem.place).Distinct := by
    have hentries := Record.entries_orElse? hread
    refine Place.distinct_members hentries.1 fun entry hentry => ?_
    obtain ⟨tree', htree⟩ := hentries.2 entry hentry
    exact PathItem.ofTree?_distinct htree
  refine distinct_place (fun server hserver => ?_) ?_ (hitems hpaths) (hitems hcustom)
  · obtain ⟨tree', htree⟩ := Record.list_orElse? hservers server hserver
    exact Server.ofTree?_distinct htree
  · rcases Record.orElse?_cases hcomponents with rfl | ⟨tree', htree⟩
    · exact Components.distinct_place (Place.distinct_empty _) (Place.distinct_empty _)
        (Place.distinct_empty _) (Place.distinct_empty _) (Place.distinct_empty _)
    · exact Components.ofTree?_distinct htree

end Sections

/-- No map of the document holds a key twice. -/
def Document.DistinctNames (d : Document) : Prop :=
  d.place.Distinct

/-- The components hold no key twice either. -/
theorem Document.DistinctNames.components {d : Document} (hd : d.DistinctNames) :
    d.components.place.Distinct :=
  hd.below "components" (by rfl)

/-- The component schemas have different names. -/
theorem Document.DistinctNames.nodup_schemas {d : Document} (hd : d.DistinctNames) :
    d.components.schemas.keys.Nodup :=
  (hd.components.below "schemas" (by rfl)).members.1

/-- **Names are declared once** in every document that is read from a text. -/
theorem Document.parse_distinctNames {format : Format} {text : String} {d : Document}
    (h : Document.parse format text = .ok d) : d.DistinctNames := by
  obtain ⟨tree, htree⟩ := Document.exists_tree_of_parse h
  exact Document.ofTree?_distinct htree

end ApiModel
