import ApiModel.Proofs.RecordRoundTrip
/-!
# Schemas that are told again

The keywords of a schema that can be written in several ways have one written form: a
discriminator is a record even where the text named the property only, and a keyword that
admits a flag or something else keeps what it was.  A reader looks at such a keyword as a whole
before it knows the kind, so the written form has to be readable throughout.

A schema is read with fuel for the depth of its tree.  The written form of a schema may be
deeper than the text was, since a name becomes a record; it has its own depth as fuel, and that
is enough for the schemas in it.
-/

namespace ApiModel

open ApiModel.Tree ApiModel.Record

theorem ExternalDocs.faithful : Faithful (ExternalDocs.ofTree? .typed) ExternalDocs.toTree := by
  constructor
  intro tree docs htree hread
  simp only [ofTree?, ↓ bind_eq_some] at hread
  obtain ⟨record, hrecord, url, hurl, description, hdescription, h⟩ := hread
  cases h
  have hfrom := FromJson.of_positional htree hrecord
  apply Retold.of_positional (fun _ => rfl) (by decide)
  · exact (hfrom.required faithful_string hurl).bind <|
      (hfrom.optional faithful_string (fun _ => rfl) hdescription).bind <| .pure _
  · simp only [toTree, List.append_nil]

namespace DataType

/-- The keyword of a type stands for the type. -/
theorem ofName_name (keyword : String) : ofName (ofName keyword).name = ofName keyword := by
  fun_cases ofName keyword
  case case9 => simp_all [name, ofName]
  all_goals rfl

/-- Types of data are told again by their names. -/
theorem faithful : Faithful (ofTree? .typed) toTree := by
  constructor
  intro tree type _ hread
  obtain ⟨keyword, -, rfl⟩ := Option.map_eq_some_iff.mp hread
  refine ⟨?_, rfl⟩
  change some (ofName (ofName keyword).name) = _
  rw [ofName_name]

end DataType

namespace TypeSet

/-- Types are written as a name or a list of names. -/
theorem present : Present toTree := by
  intro types
  cases types <;> rfl

/-- A set of types is told again as a name or as a list, as it was. -/
theorem faithful : Faithful ofTree? toTree := by
  constructor
  intro tree types htree hread
  obtain ⟨whole, hwhole, hkind⟩ := bind_eq_some.mp hread
  obtain rfl := whole?_eq_some hwhole
  split at hkind
  · rename_i type htype
    cases hkind
    have hretold := DataType.faithful.retold htree htype
    refine ⟨bind_eq_some.mpr ⟨_, whole?_of_isReadable hretold.readable, ?_⟩, hretold.readable⟩
    simp only [toTree, hretold.reads]
    rfl
  · obtain ⟨list, hlist, h⟩ := bind_eq_some.mp hkind
    cases h
    have hretold := DataType.faithful.listOf?.retold htree hlist
    refine ⟨?_, hretold.readable⟩
    refine bind_eq_some.mpr ⟨_, whole?_of_isReadable hretold.readable, ?_⟩
    exact bind_eq_some.mpr ⟨list, hretold.reads, rfl⟩

end TypeSet

namespace Discriminator

/-- A discriminator is written as a record, whichever of its two forms was read. -/
theorem retold {d : Discriminator} (hkeys : d.mapping.keys.Nodup) :
    Retold ofTree? toTree d := by
  have hreread : Rereads ["propertyName", "mapping"]
      (fun record => do
        return {
          propertyName := ← record.required? "propertyName" (Tree.string? .typed)
          mapping := ← record.orElse? "mapping" []
            (Tree.entriesOf? .typed (Tree.string? .typed)) : Discriminator })
      ([("propertyName", .string d.propertyName)] ++
        (entriesField "mapping" .string d.mapping ++ [])) [] d := by
    refine (Rereads.required ⟨rfl, rfl⟩).bind ?_
    exact (Rereads.entries hkeys fun _ _ => ⟨rfl, rfl⟩).bind (.pure _)
  have hwritten : toTree d = ofFields ([("propertyName", .string d.propertyName)] ++
      (entriesField "mapping" .string d.mapping ++ [])) := by
    rw [toTree, List.append_nil]
  have hreadable : (toTree d).isReadable = true :=
    hwritten ▸ isReadable_ofFields hreread.readable
  refine ⟨bind_eq_some.mpr ⟨_, whole?_of_isReadable hreadable, ?_⟩, hreadable⟩
  have hreads := hreread.reads_fields (by decide) (List.Subset.refl _)
  rw [← ofClosed?_ofFields, ← hwritten] at hreads
  exact hreads

/-- A discriminator is told again as a record, also where it was only a name. -/
theorem faithful : Faithful ofTree? toTree := by
  constructor
  intro tree d htree hread
  obtain ⟨whole, hwhole, hform⟩ := bind_eq_some.mp hread
  obtain rfl := whole?_eq_some hwhole
  split at hform
  · cases hform
    exact retold List.nodup_nil
  · simp only [↓ bind_eq_some] at hform
    obtain ⟨record, hrecord, property, -, mapping, hmapping, h⟩ := hform
    cases h
    exact retold (entries_orElse? hmapping).1

end Discriminator

namespace ExclusiveBound

/-- An exclusive bound is written as a flag or a number. -/
theorem present : Present toTree := by
  intro bound
  cases bound <;> rfl

/-- An exclusive bound is told again as the flag or the number that it was. -/
theorem faithful : Faithful ofTree? toTree := by
  refine .of_all fun bound => ?_
  cases bound <;> exact ⟨rfl, rfl⟩

end ExclusiveBound

namespace SchemaKeywords

/-- The names of the keywords that hold no schemas. -/
def names : List String :=
  ["$ref", "type", "format", "title", "description", "default", "nullable", "readOnly",
    "deprecated", "externalDocs", "required", "discriminator", "enum", "minimum", "maximum",
    "exclusiveMinimum", "exclusiveMaximum", "multipleOf", "minLength", "maxLength", "pattern",
    "minItems", "maxItems", "uniqueItems"]

/-- A default that was read is not `null`, for that would have been no default. -/
theorem default_ne_null {known : List String} {record : Record} (hfrom : FromJson known record)
    {value : Option Json} (hread : record.optional? "default" (json? .typed) = some value) :
    ∀ json, value = some json → json ≠ .null := by
  rintro json hjson rfl
  obtain ⟨tree, htree, hpresent, hnull⟩ := hfrom.of_optional? hread hjson
  have habsent := htree.isAbsent_of_json? hnull
  rw [habsent] at hpresent
  cases hpresent

/-- The keywords of a schema are read again from the fields before its parts and those after
them. -/
theorem rereads {known : List String} {record : Record} (hfrom : FromJson known record)
    {keywords : SchemaKeywords} (hread : ofRecord? record = some keywords) :
    Kept known keywords.extensions ∧ ∃ closing,
      keywords.tailFields = closing ++ extensionFields keywords.extensions ∧
      Rereads names ofRecord? (keywords.headFields ++ closing)
        (extensionFields keywords.extensions) keywords := by
  simp only [ofRecord?, hfrom.typed, ↓ bind_eq_some] at hread
  obtain ⟨reference, hreference, types, htypes, format, hformat, title, htitle, description,
    hdescription, default, hdefault, nullable, hnullable, readOnly, hreadOnly, deprecated,
    hdeprecated, docs, hdocs, required, hrequired, discriminator, hdiscriminator, literals,
    hliterals, minimum, hminimum, maximum, hmaximum, above, habove, below, hbelow, multipleOf,
    hmultipleOf, minLength, hminLength, maxLength, hmaxLength, pattern, hpattern, minItems,
    hminItems, maxItems, hmaxItems, uniqueItems, huniqueItems, extensions, hextensions, h⟩ := hread
  cases h
  have hkept := hfrom.extensions hextensions
  have hnull := default_ne_null hfrom hdefault
  have hdefault' : ∀ others, Rereads ["default"]
      (fun record => record.optional? "default" (json? .typed))
      (optionalField "default" ofJson default) others default := by
    intro others
    refine Rereads.optional (fun json hjson => isAbsent_ofJson (hnull json hjson)) ?_
    intro json hjson
    obtain ⟨tree, htree, -, hvalue⟩ := hfrom.of_optional? hdefault hjson
    exact faithful_json.retold htree hvalue
  refine ⟨hkept, _, rfl, ?_⟩
  apply Rereads.of_typed
  · intro record htyped
    simp only [ofRecord?, htyped]
    rfl
  apply Rereads.of_eq
  · exact (hfrom.optional faithful_string (fun _ => rfl) hreference).bind <|
      (hfrom.optional TypeSet.faithful TypeSet.present htypes).bind <|
      (hfrom.optional faithful_string (fun _ => rfl) hformat).bind <|
      (hfrom.optional faithful_string (fun _ => rfl) htitle).bind <|
      (hfrom.optional faithful_string (fun _ => rfl) hdescription).bind <|
      (hdefault' _).bind <|
      (hfrom.optional faithful_bool (fun _ => rfl) hnullable).bind <|
      (hfrom.optional faithful_bool (fun _ => rfl) hreadOnly).bind <|
      (hfrom.optional faithful_bool (fun _ => rfl) hdeprecated).bind <|
      (hfrom.optional ExternalDocs.faithful (fun _ => rfl) hdocs).bind <|
      (hfrom.list faithful_string hrequired).bind <|
      (hfrom.optional Discriminator.faithful (fun _ => rfl) hdiscriminator).bind <|
      (hfrom.optional faithful_json.listOf? (fun _ => rfl) hliterals).bind <|
      (hfrom.optional faithful_number (fun _ => rfl) hminimum).bind <|
      (hfrom.optional faithful_number (fun _ => rfl) hmaximum).bind <|
      (hfrom.optional ExclusiveBound.faithful ExclusiveBound.present habove).bind <|
      (hfrom.optional ExclusiveBound.faithful ExclusiveBound.present hbelow).bind <|
      (hfrom.optional faithful_number (fun _ => rfl) hmultipleOf).bind <|
      (hfrom.optional faithful_count (fun _ => rfl) hminLength).bind <|
      (hfrom.optional faithful_count (fun _ => rfl) hmaxLength).bind <|
      (hfrom.optional faithful_string (fun _ => rfl) hpattern).bind <|
      (hfrom.optional faithful_count (fun _ => rfl) hminItems).bind <|
      (hfrom.optional faithful_count (fun _ => rfl) hmaxItems).bind <|
      (hfrom.optional faithful_bool (fun _ => rfl) huniqueItems).bind <|
      .extensions hkept (.pure _)
  · simp only [headFields, List.append_assoc, List.append_nil]

end SchemaKeywords

namespace AdditionalProperties

/-- The written form of additional properties, given that of a schema. -/
def toTree (write : Schema → Tree) : AdditionalProperties Schema → Tree
  | .flag allowed => .bool allowed
  | .schema values => write values

end AdditionalProperties

namespace Schema

/-- The properties of a schema are written one by one. -/
theorem propertyTrees_eq (properties : Entries Schema) :
    propertyTrees properties = properties.mapValues toTree := by
  induction properties with
  | nil => rw [propertyTrees, Entries.mapValues, List.map_nil]
  | cons entry properties ih =>
    rw [propertyTrees, ih]
    rfl

/-- The members of a schema are written one by one. -/
theorem memberTrees_eq (members : List Schema) : memberTrees members = members.map toTree := by
  induction members with
  | nil => rw [memberTrees, List.map_nil]
  | cons member members ih => rw [memberTrees, ih, List.map_cons]

/-- Properties are a map that is left out if there are none. -/
theorem propertiesFields_eq (properties : Entries Schema) :
    propertiesFields properties = entriesField "properties" toTree properties := by
  cases properties with
  | nil => rw [propertiesFields, entriesField]
  | cons entry properties =>
    rw [propertiesFields, propertyTrees_eq]
    rfl

/-- Members are a list that is left out if there are none. -/
theorem allOfFields_eq (members : List Schema) :
    allOfFields members = listField "allOf" toTree members := by
  cases members with
  | nil => rw [allOfFields, listField]
  | cons member members =>
    rw [allOfFields, memberTrees_eq]
    rfl

/-- Items are a field that may be left out. -/
theorem itemsFields_eq (items : Option Schema) :
    itemsFields items = optionalField "items" toTree items := by
  cases items with
  | none => rw [itemsFields, optionalField]
  | some s => rw [itemsFields, optionalField]

/-- Additional properties are a field that may be left out, a flag or a schema. -/
theorem additionalFields_eq (additional : Option (AdditionalProperties Schema)) :
    additionalFields additional =
      optionalField "additionalProperties" (AdditionalProperties.toTree toTree) additional := by
  rcases additional with _ | allowed | values
  · rw [additionalFields, optionalField]
  · rw [additionalFields, optionalField, AdditionalProperties.toTree]
  · rw [additionalFields, optionalField, AdditionalProperties.toTree]

/-- The written form of a schema, field by field. -/
theorem toTree_eq (s : Schema) : s.toTree = ofFields (s.toSchemaKeywords.headFields ++
    entriesField "properties" toTree s.properties ++
    optionalField "additionalProperties" (AdditionalProperties.toTree toTree)
      s.additionalProperties ++
    listField "allOf" toTree s.allOf ++ optionalField "items" toTree s.items ++
    s.toSchemaKeywords.tailFields) := by
  obtain ⟨keywords, properties, additional, allOf, items⟩ := s
  rw [toTree, propertiesFields_eq, additionalFields_eq, allOfFields_eq, itemsFields_eq]

/-- A schema is written as a mapping, even if it says nothing. -/
theorem present : Present toTree := by
  intro s
  rw [toTree_eq]
  rfl

/-- Additional properties are written as a flag or a mapping. -/
theorem present_additional : Present (AdditionalProperties.toTree toTree) := by
  rintro (allowed | values)
  · rfl
  · exact present values

/-- Additional properties that are a schema were read as one. -/
theorem of_additionalOfTree? {read : Tree → Option Schema} {tree : Tree} {values : Schema}
    (h : additionalOfTree? read tree = some (.schema values)) : read tree = some values := by
  obtain ⟨whole, hwhole, hkind⟩ := bind_eq_some.mp h
  obtain rfl := whole?_eq_some hwhole
  split at hkind
  · cases hkind
  · obtain ⟨found, hfound, hsame⟩ := bind_eq_some.mp hkind
    cases hsame
    exact hfound

/-- Additional properties are told again when their schema is; a schema is no truth value. -/
theorem retold_additional {read : Tree → Option Schema}
    {additional : AdditionalProperties Schema}
    (h : ∀ values, additional = .schema values → Retold read toTree values) :
    Retold (additionalOfTree? read) (AdditionalProperties.toTree toTree) additional := by
  cases additional with
  | flag allowed => exact ⟨rfl, rfl⟩
  | schema values =>
    have hvalues := h values rfl
    have hbool : values.toTree.bool? .typed = none := by
      rw [toTree_eq]
      rfl
    refine ⟨bind_eq_some.mpr ⟨_, whole?_of_isReadable hvalues.readable, ?_⟩, hvalues.readable⟩
    simp only [AdditionalProperties.toTree, hbool, hvalues.reads]
    rfl

section Depth

/-- A mapping is deeper than its values. -/
theorem depth_lt_ofFields {fields : Entries Tree} {name : String} {tree : Tree}
    (h : (name, tree) ∈ fields) : tree.depth < (ofFields fields).depth := by
  have hle : tree.depth ≤
      entriesDepth (fields.map fun field => (Tree.string field.1, field.2)) := by
    induction fields with
    | nil => exact absurd h List.not_mem_nil
    | cons first fields ih =>
      rw [List.map_cons, entriesDepth]
      rcases List.mem_cons.mp h with rfl | hrest
      · exact le_trans (le_max_right _ _) (le_max_left _ _)
      · exact le_trans (ih hrest) (le_max_right _ _)
  exact Nat.lt_succ_of_le hle

/-- A list is deeper than its items. -/
theorem depth_lt_ofList {α : Type} (write : α → Tree) {items : List α} {item : α}
    (h : item ∈ items) : (write item).depth < (ofList write items).depth := by
  have hle : (write item).depth ≤ itemsDepth (items.map write) := by
    induction items with
    | nil => exact absurd h List.not_mem_nil
    | cons first items ih =>
      rw [List.map_cons, itemsDepth]
      rcases List.mem_cons.mp h with rfl | hrest
      · exact le_max_left _ _
      · exact le_trans (ih hrest) (le_max_right _ _)
  exact Nat.lt_succ_of_le hle

variable {s part : Schema}

/-- A schema is written deeper than its properties. -/
theorem depth_property {name : String} (h : (name, part) ∈ s.properties) :
    part.toTree.depth < s.toTree.depth := by
  have hinner : part.toTree.depth < (ofEntries toTree s.properties).depth :=
    depth_lt_ofFields (List.mem_map_of_mem h)
  refine lt_trans hinner ?_
  rw [toTree_eq]
  refine depth_lt_ofFields (?_ : ("properties", ofEntries toTree s.properties) ∈ _)
  have hfield : ("properties", ofEntries toTree s.properties) ∈
      entriesField "properties" toTree s.properties := by
    cases hproperties : s.properties with
    | nil =>
      rw [hproperties] at h
      exact absurd h List.not_mem_nil
    | cons => exact List.mem_singleton_self _
  simp only [List.mem_append]
  tauto

/-- A schema is written deeper than its members. -/
theorem depth_member (h : part ∈ s.allOf) : part.toTree.depth < s.toTree.depth := by
  refine lt_trans (depth_lt_ofList toTree h) ?_
  rw [toTree_eq s]
  refine depth_lt_ofFields (?_ : ("allOf", ofList toTree s.allOf) ∈ _)
  have hfield : ("allOf", ofList toTree s.allOf) ∈ listField "allOf" toTree s.allOf := by
    cases hmembers : s.allOf with
    | nil =>
      rw [hmembers] at h
      exact absurd h List.not_mem_nil
    | cons => exact List.mem_singleton_self _
  simp only [List.mem_append]
  tauto

/-- A schema is written deeper than its items. -/
theorem depth_items (h : s.items = some part) : part.toTree.depth < s.toTree.depth := by
  rw [toTree_eq s]
  refine depth_lt_ofFields (?_ : ("items", part.toTree) ∈ _)
  simp only [List.mem_append, h, optionalField, List.mem_singleton]
  tauto

/-- A schema is written deeper than its additional properties. -/
theorem depth_values (h : s.additionalProperties = some (.schema part)) :
    part.toTree.depth < s.toTree.depth := by
  rw [toTree_eq s]
  refine depth_lt_ofFields (?_ : ("additionalProperties", part.toTree) ∈ _)
  simp only [List.mem_append, h, optionalField, AdditionalProperties.toTree, List.mem_singleton]
  tauto

end Depth

/-- The parts of a schema are written in the midst of its keywords, and are read as if they came
last. -/
theorem perm_written (s : Schema) (closing : Entries Tree) :
    (s.headFields ++ entriesField "properties" toTree s.properties ++
      optionalField "additionalProperties" (AdditionalProperties.toTree toTree)
        s.additionalProperties ++
      listField "allOf" toTree s.allOf ++ optionalField "items" toTree s.items ++ closing).Perm
    (s.headFields ++ closing ++ (entriesField "properties" toTree s.properties ++
      (optionalField "additionalProperties" (AdditionalProperties.toTree toTree)
        s.additionalProperties ++
      (listField "allOf" toTree s.allOf ++ (optionalField "items" toTree s.items ++ []))))) := by
  simp only [List.append_assoc, List.append_nil]
  refine List.Perm.append_left _ ?_
  simp only [← List.append_assoc]
  refine List.perm_append_comm.trans ?_
  simp only [List.append_assoc]
  rfl

/-- A schema is told again when its keywords and the schemas in it are. -/
theorem retold_of_parts {s : Schema} {fuel : Nat} {closing : Entries Tree}
    (hkept : Kept fieldNames s.extensions)
    (hclosing : s.tailFields = closing ++ extensionFields s.extensions)
    (hkeywords : Rereads SchemaKeywords.names SchemaKeywords.ofRecord? (s.headFields ++ closing)
      (extensionFields s.extensions) s.toSchemaKeywords)
    (hnames : (Entries.keys s.properties).Nodup)
    (hproperties : ∀ entry ∈ s.properties, Retold (ofTreeWithin? fuel .typed) toTree entry.2)
    (hvalues : ∀ values, s.additionalProperties = some (.schema values) →
      Retold (ofTreeWithin? fuel .typed) toTree values)
    (hmembers : ∀ member ∈ s.allOf, Retold (ofTreeWithin? fuel .typed) toTree member)
    (hitems : ∀ part, s.items = some part → Retold (ofTreeWithin? fuel .typed) toTree part) :
    Retold (ofTreeWithin? (fuel + 1) .typed) toTree s := by
  have hadditional : Rereads ["additionalProperties"]
      (fun record => record.optional? "additionalProperties"
        (additionalOfTree? (ofTreeWithin? fuel .typed)))
      (optionalField "additionalProperties" (AdditionalProperties.toTree toTree)
        s.additionalProperties) (extensionFields s.extensions) s.additionalProperties := by
    refine Rereads.optional (fun additional _ => present_additional additional) ?_
    intro additional hsome
    exact retold_additional fun values hschema => hvalues values (hschema ▸ hsome)
  have hitem : Rereads ["items"] (fun record => record.optional? "items"
      (ofTreeWithin? fuel .typed)) (optionalField "items" toTree s.items)
      (extensionFields s.extensions) s.items :=
    Rereads.optional (fun part _ => present part) hitems
  obtain ⟨keywords, properties, additional, members, items⟩ := s
  apply Retold.of_names (fun _ => rfl) hkept
  · -- The schemas in a schema are written between its keywords, and read after them.
    apply Rereads.perm
    · exact hkeywords.append <| (Rereads.entries hnames hproperties).bind <|
        hadditional.bind <| (Rereads.list hmembers).bind <| hitem.bind <| .pure _
    · exact perm_written _ closing
  · rw [toTree_eq, hclosing]
    simp only [List.append_assoc]
  · decide
  · decide

/-- A schema that was read with some fuel is told again with any fuel for its written depth. -/
theorem retold_within {depth : Nat} {tree : Tree} {s : Schema} (htree : tree.IsJson)
    (hread : ofTreeWithin? depth .typed tree = some s) {fuel : Nat}
    (hfuel : s.toTree.depth ≤ fuel) : Retold (ofTreeWithin? fuel .typed) toTree s := by
  induction depth generalizing tree s fuel with
  | zero => cases hread
  | succ depth ih =>
    obtain ⟨fuel, rfl⟩ : ∃ rest, fuel = rest + 1 := by
      rw [toTree_eq] at hfuel
      exact Nat.exists_eq_add_of_le' (le_trans (Nat.succ_le_succ (Nat.zero_le _)) hfuel)
    have hpart {tree' : Tree} {part : Schema} (htree' : tree'.IsJson)
        (hpart : ofTreeWithin? depth .typed tree' = some part)
        (hdepth : part.toTree.depth < s.toTree.depth) :
        Retold (ofTreeWithin? fuel .typed) toTree part :=
      ih htree' hpart (Nat.le_of_lt_succ (lt_of_lt_of_le hdepth hfuel))
    simp only [ofTreeWithin?, ↓ bind_eq_some] at hread
    obtain ⟨record, hrecord, keywords, hkeywords, properties, hproperties, additional, hadditional,
      members, hmembers, items, hitems, h⟩ := hread
    cases h
    have hfrom := FromJson.of_open htree hrecord
    obtain ⟨hkept, closing, hclosing, hown⟩ := SchemaKeywords.rereads hfrom hkeywords
    refine retold_of_parts hkept hclosing hown (entries_orElse? hproperties).1 ?_ ?_ ?_ ?_
    · intro entry hentry
      rcases hfrom.of_orElse? hproperties with rfl | ⟨tree', htree', hread'⟩
      · exact absurd hentry List.not_mem_nil
      · obtain ⟨tree'', htree'', hvalue⟩ := htree'.of_entriesOf? hread' hentry
        exact hpart htree'' hvalue (depth_property hentry)
    · intro values hvalues
      obtain ⟨tree', htree', -, hread'⟩ := hfrom.of_optional? hadditional hvalues
      exact hpart htree' (of_additionalOfTree? hread') (depth_values hvalues)
    · intro member hmember
      rcases hfrom.of_orElse? hmembers with rfl | ⟨tree', htree', hread'⟩
      · exact absurd hmember List.not_mem_nil
      · obtain ⟨tree'', htree'', hvalue⟩ := htree'.of_listOf? hread' hmember
        exact hpart htree'' hvalue (depth_member hmember)
    · intro part hitem
      obtain ⟨tree', htree', -, hread'⟩ := hfrom.of_optional? hitems hitem
      exact hpart htree' hread' (depth_items hitem)

/-- **A schema is told again.** -/
theorem faithful : Faithful (ofTree? .typed) toTree := by
  constructor
  intro tree s htree hread
  have hretold := retold_within htree hread (le_refl s.toTree.depth)
  exact ⟨hretold.reads, hretold.readable⟩

end Schema

end ApiModel
