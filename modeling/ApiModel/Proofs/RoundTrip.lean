import ApiModel.Proofs.Outcomes
import ApiModel.Proofs.Readers
import ApiModel.Proofs.SchemaRoundTrip
/-!
# Documents that are told again

A document that was read from a JSON text is read again from its written form, and it is the same
document: every map in its order, every empty list that was written, every reference that stood
beside a node.  The parts below a document follow one another as they do where they are defined,
and each is told again because its fields are.

A node in place of a reference has to be told from one.  Its written form holds the fields it
knows and its vendor extensions, and the name of a reference is neither.

Of the text layer one thing is used, that the text in question denotes the written tree.  Where
the written form nests deeper than a text may, as a short discriminator at the deepest level
does, there is no such text.
-/

namespace ApiModel

open ApiModel.Tree ApiModel.Record

namespace Tree

/-- The value is read from its written form again, which is not taken for a reference. -/
structure RetoldNode {α : Type} (read : Tree → Option α) (write : α → Tree) (a : α) : Prop
    extends Retold read write a where
  plain : RefOr.path? (write a) = none

/-- What is read in place of a reference is told again. -/
structure FaithfulNode {α : Type} (read : Tree → Option α) (write : α → Tree) : Prop where
  retold : ∀ {tree a}, tree.IsJson → read tree = some a → RetoldNode read write a

variable {α : Type} {known : List String} {read : Tree → Option α} {write : α → Tree}
  {body : Record → Option α} {fields : Entries Tree} {extensions : Extensions} {a : α}

/-- A record that keeps its other entries is told again when its fields are, and is told from a
reference because no field is named like one. -/
theorem RetoldNode.of_open (hread : ∀ tree, read tree = ofOpen? .typed known tree >>= body)
    (hknown : known.Nodup) (hplain : "$ref" ∉ known) (hkept : Kept known extensions)
    (reread : Rereads known body fields (extensionFields extensions) a)
    (written : write a = ofFields (fields ++ extensionFields extensions)) :
    RetoldNode read write a where
  toRetold := .of_open hread hknown hkept reread written
  plain := by
    have hkeys := reread.nodup_written hkept hknown (List.Subset.refl known)
    have hnone : "$ref" ∉ Entries.keys (fields ++ extensionFields extensions) := by
      intro hmem
      rcases reread.mem_keys hkept hmem with hown | hextension
      · exact hplain hown
      · cases hextension
    rw [written, RefOr.path?, ofClosed?_ofFields, ofOpen?_ofFields _ hkeys]
    change (Entries.get? _ "$ref").bind _ = none
    rw [Entries.get?_filter (by decide), Entries.get?_eq_none_iff.mpr hnone, Option.bind_none]

end Tree

namespace RefOr

variable {α : Type} {read : Tree → Option α} {write : α → Tree}

/-- A node that may be a reference is told again as what it was. -/
theorem faithful (h : FaithfulNode read write) : Faithful (ofTree? read) (toTree write) := by
  constructor
  intro tree x htree hread
  obtain ⟨whole, hwhole, hkind⟩ := bind_eq_some.mp hread
  obtain rfl := whole?_eq_some hwhole
  split at hkind
  · cases hkind
    exact ⟨rfl, rfl⟩
  · obtain ⟨value, hvalue, hsame⟩ := bind_eq_some.mp hkind
    cases hsame
    have hretold := h.retold htree hvalue
    refine ⟨bind_eq_some.mpr ⟨_, whole?_of_isReadable hretold.readable, ?_⟩, hretold.readable⟩
    simp only [toTree, hretold.plain, hretold.reads]
    rfl

/-- Neither a reference nor a node is written as something that is absent. -/
theorem present (h : Present write) : Present (toTree write) := by
  rintro (path | value)
  · rfl
  · exact h value

end RefOr

theorem MediaType.faithful : Faithful (MediaType.ofTree? .typed) MediaType.toTree := by
  constructor
  intro tree media htree hread
  simp only [ofTree?, ↓ bind_eq_some] at hread
  obtain ⟨record, hrecord, schema, hschema, extensions, hextensions, h⟩ := hread
  cases h
  have hfrom := FromJson.of_open htree hrecord
  have hkept := hfrom.extensions hextensions
  apply Retold.of_open (fun _ => rfl) (by decide) hkept
  · exact (hfrom.optional Schema.faithful Schema.present hschema).bind <|
      .extensions hkept (.pure _)
  · simp only [toTree, List.append_nil]

theorem RequestBody.faithful : FaithfulNode (RequestBody.ofTree? .typed) RequestBody.toTree := by
  constructor
  intro tree body htree hread
  simp only [ofTree?, ↓ bind_eq_some] at hread
  obtain ⟨record, hrecord, description, hdescription, content, hcontent, required, hrequired,
    extensions, hextensions, h⟩ := hread
  cases h
  have hfrom := FromJson.of_open htree hrecord
  have hkept := hfrom.extensions hextensions
  have hempty : Retold (entriesOf? .typed (MediaType.ofTree? .typed))
      (ofEntries MediaType.toTree) [] := ⟨rfl, rfl⟩
  apply RetoldNode.of_open (fun _ => rfl) (by decide) (by decide) hkept
  · exact (hfrom.optional faithful_string (fun _ => rfl) hdescription).bind <|
      (hfrom.orElse MediaType.faithful.entriesOf? hempty hcontent).bind <|
      (hfrom.orElse faithful_bool ⟨rfl, rfl⟩ hrequired).bind <|
      .extensions hkept (.pure _)
  · simp only [toTree, List.append_assoc, List.append_nil, List.cons_append, List.nil_append]

theorem Header.faithful : FaithfulNode (Header.ofTree? .typed) Header.toTree := by
  constructor
  intro tree header htree hread
  simp only [ofTree?, ↓ bind_eq_some] at hread
  obtain ⟨record, hrecord, description, hdescription, required, hrequired, schema, hschema,
    extensions, hextensions, h⟩ := hread
  cases h
  have hfrom := FromJson.of_open htree hrecord
  have hkept := hfrom.extensions hextensions
  apply RetoldNode.of_open (fun _ => rfl) (by decide) (by decide) hkept
  · exact (hfrom.optional faithful_string (fun _ => rfl) hdescription).bind <|
      (hfrom.orElse faithful_bool ⟨rfl, rfl⟩ hrequired).bind <|
      (hfrom.optional Schema.faithful Schema.present hschema).bind <|
      .extensions hkept (.pure _)
  · simp only [toTree, List.append_assoc, List.append_nil]

theorem Response.faithful : FaithfulNode (Response.ofTree? .typed) Response.toTree := by
  constructor
  intro tree response htree hread
  simp only [ofTree?, ↓ bind_eq_some] at hread
  obtain ⟨record, hrecord, description, hdescription, content, hcontent, headers, hheaders,
    extensions, hextensions, h⟩ := hread
  cases h
  have hfrom := FromJson.of_open htree hrecord
  have hkept := hfrom.extensions hextensions
  apply RetoldNode.of_open (fun _ => rfl) (by decide) (by decide) hkept
  · exact (hfrom.optional faithful_string (fun _ => rfl) hdescription).bind <|
      (hfrom.entries MediaType.faithful hcontent).bind <|
      (hfrom.entries (RefOr.faithful Header.faithful) hheaders).bind <|
      .extensions hkept (.pure _)
  · simp only [toTree, List.append_assoc, List.append_nil]

/-- The location of a parameter is told again by its name. -/
theorem ParameterLocation.faithful : Faithful (choice? .typed choices) (ofChoice choices) :=
  faithful_choice (by rintro (_ | _) <;> decide) (by decide)

/-- The style of a parameter is told again by its name. -/
theorem ParameterStyle.faithful : Faithful (choice? .typed choices) (ofChoice choices) :=
  faithful_choice (by rintro (_ | _) <;> decide) (by decide)

/-- A style is written as a name, which is something. -/
theorem ParameterStyle.present : Present (ofChoice choices) := by
  rintro (_ | _) <;> rfl

/-- Parameters are told again. -/
theorem Parameter.faithful : FaithfulNode (Parameter.ofTree? .typed) Parameter.toTree := by
  constructor
  intro tree parameter htree hread
  simp only [ofTree?, ↓ bind_eq_some] at hread
  obtain ⟨record, hrecord, name, hname, location, hlocation, description, hdescription, required,
    hrequired, deprecated, hdeprecated, schema, hschema, style, hstyle, explode, hexplode,
    extensions, hextensions, h⟩ := hread
  cases h
  have hfrom := FromJson.of_open htree hrecord
  have hkept := hfrom.extensions hextensions
  apply RetoldNode.of_open (fun _ => rfl) (by decide) (by decide) hkept
  · exact (hfrom.required faithful_string hname).bind <|
      (hfrom.required ParameterLocation.faithful hlocation).bind <|
      (hfrom.optional faithful_string (fun _ => rfl) hdescription).bind <|
      (hfrom.orElse faithful_bool ⟨rfl, rfl⟩ hrequired).bind <|
      (hfrom.optional faithful_bool (fun _ => rfl) hdeprecated).bind <|
      (hfrom.optional Schema.faithful Schema.present hschema).bind <|
      (hfrom.optional ParameterStyle.faithful ParameterStyle.present hstyle).bind <|
      (hfrom.optional faithful_bool (fun _ => rfl) hexplode).bind <|
      .extensions hkept (.pure _)
  · simp only [toTree, List.append_assoc, List.append_nil, List.cons_append, List.nil_append]

/-- What an operation requires of security is told again. -/
theorem SecurityRequirement.faithful :
    Faithful (SecurityRequirement.ofTree? .typed) SecurityRequirement.toTree :=
  faithful_string.listOf?.entriesOf?

theorem SecurityScheme.faithful :
    Faithful (SecurityScheme.ofTree? .typed) SecurityScheme.toTree := by
  constructor
  intro tree scheme htree hread
  simp only [ofTree?, ↓ bind_eq_some] at hread
  obtain ⟨record, hrecord, type, htype, description, hdescription, name, hname, location,
    hlocation, protocol, hprotocol, extensions, hextensions, h⟩ := hread
  cases h
  have hfrom := FromJson.of_open htree hrecord
  have hkept := hfrom.extensions hextensions
  apply Retold.of_open (fun _ => rfl) (by decide) hkept
  · exact (hfrom.required faithful_string htype).bind <|
      (hfrom.optional faithful_string (fun _ => rfl) hdescription).bind <|
      (hfrom.optional faithful_string (fun _ => rfl) hname).bind <|
      (hfrom.optional faithful_string (fun _ => rfl) hlocation).bind <|
      (hfrom.optional faithful_string (fun _ => rfl) hprotocol).bind <|
      .extensions hkept (.pure _)
  · simp only [toTree, List.append_assoc, List.append_nil]

theorem Operation.faithful : Faithful (Operation.ofTree? .typed) Operation.toTree := by
  constructor
  intro tree operation htree hread
  simp only [ofTree?, ↓ bind_eq_some] at hread
  obtain ⟨record, hrecord, id, hid, summary, hsummary, description, hdescription, tags, htags,
    docs, hdocs, parameters, hparameters, body, hbody, responses, hresponses, deprecated,
    hdeprecated, security, hsecurity, consumes, hconsumes, produces, hproduces, extensions,
    hextensions, h⟩ := hread
  cases h
  have hfrom := FromJson.of_open htree hrecord
  have hkept := hfrom.extensions hextensions
  have hbody_present : Present (RefOr.toTree RequestBody.toTree) := RefOr.present fun _ => rfl
  apply Retold.of_open (fun _ => rfl) (by decide) hkept
  · exact (hfrom.optional faithful_string (fun _ => rfl) hid).bind <|
      (hfrom.optional faithful_string (fun _ => rfl) hsummary).bind <|
      (hfrom.optional faithful_string (fun _ => rfl) hdescription).bind <|
      (hfrom.list faithful_string htags).bind <|
      (hfrom.optional ExternalDocs.faithful (fun _ => rfl) hdocs).bind <|
      (hfrom.list (RefOr.faithful Parameter.faithful) hparameters).bind <|
      (hfrom.optional (RefOr.faithful RequestBody.faithful) hbody_present hbody).bind <|
      (hfrom.entries (RefOr.faithful Response.faithful) hresponses).bind <|
      (hfrom.optional faithful_bool (fun _ => rfl) hdeprecated).bind <|
      (hfrom.optional SecurityRequirement.faithful.listOf? (fun _ => rfl) hsecurity).bind <|
      (hfrom.optional faithful_string.listOf? (fun _ => rfl) hconsumes).bind <|
      (hfrom.optional faithful_string.listOf? (fun _ => rfl) hproduces).bind <|
      .extensions hkept (.pure _)
  · simp only [toTree, List.append_assoc, List.append_nil]

/-- Path items are told again, with the operations of all verbs. -/
theorem PathItem.faithful : Faithful (PathItem.ofTree? .typed) PathItem.toTree := by
  constructor
  intro tree item htree hread
  simp only [ofTree?, ↓ bind_eq_some] at hread
  obtain ⟨record, hrecord, parameters, hparameters, get, hget, put, hput, post, hpost, delete,
    hdelete, options, hoptions, head, hhead, patch, hpatch, trace, htrace, h⟩ := hread
  cases h
  have hfrom := FromJson.of_positional htree hrecord
  apply Retold.of_positional (fun _ => rfl) (by decide)
  · exact (hfrom.list (RefOr.faithful Parameter.faithful) hparameters).bind <|
      (hfrom.optional Operation.faithful (fun _ => rfl) hget).bind <|
      (hfrom.optional Operation.faithful (fun _ => rfl) hput).bind <|
      (hfrom.optional Operation.faithful (fun _ => rfl) hpost).bind <|
      (hfrom.optional Operation.faithful (fun _ => rfl) hdelete).bind <|
      (hfrom.optional Operation.faithful (fun _ => rfl) hoptions).bind <|
      (hfrom.optional Operation.faithful (fun _ => rfl) hhead).bind <|
      (hfrom.optional Operation.faithful (fun _ => rfl) hpatch).bind <|
      (hfrom.optional Operation.faithful (fun _ => rfl) htrace).bind <| .pure _
  · simp only [toTree, Verb.all, List.flatMap_cons, List.flatMap_nil]
    rfl

/-- Components are told again, section by section. -/
theorem Components.faithful : Faithful (Components.ofTree? .typed) Components.toTree := by
  constructor
  intro tree components htree hread
  simp only [ofTree?, ↓ bind_eq_some] at hread
  obtain ⟨record, hrecord, schemas, hschemas, responses, hresponses, parameters, hparameters,
    bodies, hbodies, headers, hheaders, schemes, hschemes, h⟩ := hread
  cases h
  have hfrom := FromJson.of_positional htree hrecord
  apply Retold.of_positional (fun _ => rfl) (by decide)
  · exact (hfrom.entries Schema.faithful hschemas).bind <|
      (hfrom.entries (RefOr.faithful Response.faithful) hresponses).bind <|
      (hfrom.entries (RefOr.faithful Parameter.faithful) hparameters).bind <|
      (hfrom.entries (RefOr.faithful RequestBody.faithful) hbodies).bind <|
      (hfrom.entries (RefOr.faithful Header.faithful) hheaders).bind <|
      (hfrom.entries SecurityScheme.faithful hschemes).bind <| .pure _
  · simp only [toTree, List.append_assoc, List.append_nil]

theorem ServerVariable.faithful :
    Faithful (ServerVariable.ofTree? .typed) ServerVariable.toTree := by
  constructor
  intro tree serverVariable htree hread
  simp only [ofTree?, ↓ bind_eq_some] at hread
  obtain ⟨record, hrecord, default, hdefault, description, hdescription, values, hvalues,
    extensions, hextensions, h⟩ := hread
  cases h
  have hfrom := FromJson.of_open htree hrecord
  have hkept := hfrom.extensions hextensions
  apply Retold.of_open (fun _ => rfl) (by decide) hkept
  · exact (hfrom.orElse faithful_string ⟨rfl, rfl⟩ hdefault).bind <|
      (hfrom.optional faithful_string (fun _ => rfl) hdescription).bind <|
      (hfrom.list faithful_string hvalues).bind <|
      .extensions hkept (.pure _)
  · simp only [toTree, List.append_assoc, List.append_nil]

theorem Server.faithful : Faithful (Server.ofTree? .typed) Server.toTree := by
  constructor
  intro tree server htree hread
  simp only [ofTree?, ↓ bind_eq_some] at hread
  obtain ⟨record, hrecord, url, hurl, description, hdescription, holes, hholes,
    extensions, hextensions, h⟩ := hread
  cases h
  have hfrom := FromJson.of_open htree hrecord
  have hkept := hfrom.extensions hextensions
  apply Retold.of_open (fun _ => rfl) (by decide) hkept
  · exact (hfrom.required faithful_string hurl).bind <|
      (hfrom.optional faithful_string (fun _ => rfl) hdescription).bind <|
      (hfrom.entries ServerVariable.faithful hholes).bind <|
      .extensions hkept (.pure _)
  · simp only [toTree, List.append_assoc, List.append_nil]

/-- What a document says about itself is told again. -/
theorem Info.faithful : Faithful (Info.ofTree? .typed) Info.toTree := by
  constructor
  intro tree info htree hread
  simp only [ofTree?, ↓ bind_eq_some] at hread
  obtain ⟨record, hrecord, title, htitle, description, hdescription, version, hversion, terms,
    hterms, settings, hsettings, extensions, hextensions, h⟩ := hread
  cases h
  have hfrom := FromJson.of_open htree hrecord
  have hkept := hfrom.extensions hextensions
  apply Retold.of_open (fun _ => rfl) (by decide) hkept
  · exact (hfrom.optional faithful_string (fun _ => rfl) htitle).bind <|
      (hfrom.optional faithful_string (fun _ => rfl) hdescription).bind <|
      (hfrom.orElse faithful_string ⟨rfl, rfl⟩ hversion).bind <|
      (hfrom.optional faithful_string (fun _ => rfl) hterms).bind <|
      (hfrom.entries faithful_json hsettings).bind <|
      .extensions hkept (.pure _)
  · simp only [toTree, List.append_assoc, List.append_nil]

theorem DocumentTag.faithful : Faithful (DocumentTag.ofTree? .typed) DocumentTag.toTree := by
  constructor
  intro tree tag htree hread
  simp only [ofTree?, ↓ bind_eq_some] at hread
  obtain ⟨record, hrecord, name, hname, description, hdescription, h⟩ := hread
  cases h
  have hfrom := FromJson.of_positional htree hrecord
  apply Retold.of_positional (fun _ => rfl) (by decide)
  · exact (hfrom.required faithful_string hname).bind <|
      (hfrom.optional faithful_string (fun _ => rfl) hdescription).bind <| .pure _
  · simp only [toTree, List.append_nil]

namespace Tree

/-- The items of a list are clipped one by one. -/
theorem clipItems_eq_map (depth : Nat) (items : List Tree) :
    clipItems depth items = items.map (clip depth) := by
  induction items with
  | nil => rw [clipItems, List.map_nil]
  | cons item items ih => rw [clipItems, ih, List.map_cons]

/-- The entries of a mapping are clipped one by one. -/
theorem clipEntries_eq_map (depth : Nat) (entries : List (Tree × Tree)) :
    clipEntries depth entries =
      entries.map fun entry => (clip depth entry.1, clip depth entry.2) := by
  induction entries with
  | nil => rw [clipEntries, List.map_nil]
  | cons entry entries ih => rw [clipEntries, ih, List.map_cons]

/-- What is clipped of a tree of JSON is a tree of JSON. -/
theorem IsJson.clip {tree : Tree} (h : tree.IsJson) (depth : Nat) : (tree.clip depth).IsJson := by
  induction h generalizing depth with
  | null | bool | number | string | broken =>
    cases depth <;> constructor
  | @sequence items hitems ih =>
    cases depth with
    | zero => exact .broken
    | succ depth =>
      rw [Tree.clip, clipItems_eq_map]
      refine .sequence fun item hitem => ?_
      obtain ⟨item', hitem', rfl⟩ := List.mem_map.mp hitem
      exact ih item' hitem' depth
  | @mapping entries hkeys hvalues ihkeys ihvalues =>
    cases depth with
    | zero => exact .broken
    | succ depth =>
      rw [Tree.clip, clipEntries_eq_map]
      refine .mapping (fun entry hentry => ?_) fun entry hentry => ?_
      · obtain ⟨entry', hentry', rfl⟩ := List.mem_map.mp hentry
        exact ihkeys entry' hentry' depth
      · obtain ⟨entry', hentry', rfl⟩ := List.mem_map.mp hentry
        exact ihvalues entry' hentry' depth

end Tree

namespace Json.Reader

/-- A text that ended too early gives a tree of JSON. -/
theorem isJson_tree (p : Partial) : p.tree.IsJson := by
  unfold Partial.tree
  split_ifs <;> constructor

/-- A string that is read is a tree of JSON. -/
theorem isJson_string? {p : Partial} {cs rest : List Char} {tree : Tree}
    (h : string? p cs = some (tree, rest)) : tree.IsJson := by
  fun_induction string? p cs with
  | case1 p rest' =>
    cases h
    exact isJson_tree p
  | case2 | case4 | case7 =>
    rename_i ih
    exact ih h
  | _ => cases h

/-- A numeral is a number, whatever its size. -/
theorem isJson_numberTree (n : Number.Numeral) (isInteger : Bool) :
    (numberTree n isInteger).IsJson := by
  unfold numberTree
  dsimp only
  repeat' split
  all_goals constructor

/-- A number that is read is a tree of JSON. -/
theorem isJson_number? {cs rest : List Char} {tree : Tree}
    (h : number? cs = some (tree, rest)) : tree.IsJson := by
  unfold number? at h
  dsimp only [] at h
  split at h
  · cases h
  · cases h
  · split_ifs at h
    obtain ⟨⟨exponent, after⟩, -, h⟩ := bind_eq_some.mp h
    cases h
    exact isJson_numberTree _ _

/-- What is read with the fuel is a tree of JSON: a value, the rest of a sequence and the rest of a
mapping. -/
structure ReadsJson (fuel : Nat) : Prop where
  value : ∀ {cs rest tree}, value? fuel cs = some (tree, rest) → tree.IsJson
  items : ∀ {items cs rest tree}, (∀ item ∈ items, item.IsJson) →
    items? fuel items cs = some (tree, rest) → tree.IsJson
  members : ∀ {members cs rest tree}, (∀ member ∈ members, member.1.IsJson ∧ member.2.IsJson) →
    members? fuel members cs = some (tree, rest) → tree.IsJson

namespace ReadsJson

variable {fuel : Nat} {cs rest : List Char} {tree : Tree}

/-- A value is a tree of JSON because its items and members are, which are read with less fuel. -/
theorem value_succ (hfuel : ReadsJson fuel) (h : value? (fuel + 1) cs = some (tree, rest)) :
    tree.IsJson := by
  rw [value?] at h
  split at h
  · cases h
    exact .null
  · cases h
    exact .bool true
  · cases h
    exact .bool false
  · exact isJson_string? h
  · split at h
    · cases h
      exact .sequence fun _ hitem => absurd hitem List.not_mem_nil
    · exact hfuel.items (fun _ hitem => absurd hitem List.not_mem_nil) h
  · split at h
    · cases h
      exact .mapping (fun _ hentry => absurd hentry List.not_mem_nil)
        fun _ hentry => absurd hentry List.not_mem_nil
    · exact hfuel.members (fun _ hmember => absurd hmember List.not_mem_nil) h
  · exact isJson_number? h

/-- The items that were read so far and the next one are trees of JSON. -/
theorem items_succ (hfuel : ReadsJson fuel) {items : List Tree}
    (hold : ∀ item ∈ items, item.IsJson) (h : items? (fuel + 1) items cs = some (tree, rest)) :
    tree.IsJson := by
  rw [items?] at h
  split at h
  · cases h
  · rename_i item after hitem
    have hall : ∀ item' ∈ item :: items, item'.IsJson :=
      List.forall_mem_cons.mpr ⟨hfuel.value hitem, hold⟩
    split at h
    · exact hfuel.items hall h
    · cases h
      exact .sequence fun item' hmem => hall item' (List.mem_reverse.mp hmem)
    · cases h

/-- The members that were read so far and the next one are trees of JSON. -/
theorem members_succ (hfuel : ReadsJson fuel) {members : List (Tree × Tree)}
    (hold : ∀ member ∈ members, member.1.IsJson ∧ member.2.IsJson)
    (h : members? (fuel + 1) members cs = some (tree, rest)) : tree.IsJson := by
  rw [members?] at h
  split at h
  · split at h
    · cases h
    · rename_i key _ hkey
      split at h
      · split at h
        · cases h
        · rename_i value after hfound
          have hall : ∀ member ∈ (key, value) :: members, member.1.IsJson ∧ member.2.IsJson :=
            List.forall_mem_cons.mpr ⟨⟨isJson_string? hkey, hfuel.value hfound⟩, hold⟩
          split at h
          · exact hfuel.members hall h
          · cases h
            exact .mapping (fun member hmem => (hall member (List.mem_reverse.mp hmem)).1)
              fun member hmem => (hall member (List.mem_reverse.mp hmem)).2
          · cases h
      · cases h
  · cases h

end ReadsJson

/-- Values, sequences and mappings read each other, with less fuel each time. -/
theorem readsJson (fuel : Nat) : ReadsJson fuel := by
  induction fuel with
  | zero => exact ⟨nofun, nofun, nofun⟩
  | succ fuel ih => exact ⟨ih.value_succ, ih.items_succ, ih.members_succ⟩

/-- The tree of a JSON text is a tree of JSON. -/
theorem isJson_tree? {text : String} {tree : Tree} (h : tree? text = some tree) : tree.IsJson := by
  unfold tree? at h
  dsimp only at h
  split at h
  · rename_i found rest hfound
    split_ifs at h
    cases h
    exact ((readsJson _).value hfound).clip depthLimit
  · cases h

end Json.Reader

namespace Tree

mutual

/-- Whether two trees of JSON are the same. -/
def same : Tree → Tree → Bool
  | .null, .null => true
  | .bool a, .bool b => a == b
  | .number a, .number b => a == b
  | .string a, .string b => a == b
  | .sequence items, .sequence items' => sameItems items items'
  | .mapping entries, .mapping entries' => sameEntries entries entries'
  | _, _ => false

/-- Whether two sequences hold the same items. -/
def sameItems : List Tree → List Tree → Bool
  | [], [] => true
  | item :: items, item' :: items' => same item item' && sameItems items items'
  | _, _ => false

/-- Whether two mappings hold the same entries in the same order. -/
def sameEntries : List (Tree × Tree) → List (Tree × Tree) → Bool
  | [], [] => true
  | (key, value) :: entries, (key', value') :: entries' =>
    same key key' && same value value' && sameEntries entries entries'
  | _, _ => false

end

mutual

/-- Trees that compare the same are equal. -/
theorem eq_of_same {tree tree' : Tree} (h : same tree tree' = true) : tree = tree' := by
  cases tree <;> cases tree' <;> simp only [same, beq_iff_eq, Bool.false_eq_true] at h ⊢
  case bool.bool | number.number | string.string => rw [h]
  case sequence.sequence items items' => rw [eq_of_sameItems h]
  case mapping.mapping entries entries' => rw [eq_of_sameEntries h]

/-- Lists of trees that are compared as the same are the same. -/
theorem eq_of_sameItems {items items' : List Tree} (h : sameItems items items' = true) :
    items = items' := by
  cases items <;> cases items' <;>
    simp only [sameItems, Bool.and_eq_true, Bool.false_eq_true] at h ⊢
  rw [eq_of_same h.1, eq_of_sameItems h.2]

/-- Mappings that are compared as the same are the same. -/
theorem eq_of_sameEntries {entries entries' : List (Tree × Tree)}
    (h : sameEntries entries entries' = true) : entries = entries' := by
  rcases entries with _ | ⟨⟨key, value⟩, entries⟩ <;>
    rcases entries' with _ | ⟨⟨key', value'⟩, entries'⟩ <;>
    simp only [sameEntries, Bool.and_eq_true, Bool.false_eq_true] at h ⊢
  rw [eq_of_same h.1.1, eq_of_same h.1.2, eq_of_sameEntries h.2]

end
end Tree

namespace Document

/-- **A service description is told again** from the tree that is written of it. -/
theorem faithful : Faithful (ofTree? .typed) toTree := by
  constructor
  intro tree d htree hread
  simp only [ofTree?, ↓ bind_eq_some] at hread
  obtain ⟨record, hrecord, openapi, hopenapi, info, hinfo, servers, hservers, paths, hpaths,
    customPaths, hcustomPaths, components, hcomponents, tags, htags, security, hsecurity, docs,
    hdocs, extensions, hextensions, h⟩ := hread
  cases h
  have hfrom := FromJson.of_open htree hrecord
  have hkept := hfrom.extensions hextensions
  apply Retold.of_open (fun _ => rfl) (by decide) hkept
  · exact (hfrom.required faithful_string hopenapi).bind <|
      (hfrom.optional Info.faithful (fun _ => rfl) hinfo).bind <|
      (hfrom.list Server.faithful hservers).bind <|
      (hfrom.entries PathItem.faithful hpaths).bind <|
      (hfrom.entries PathItem.faithful hcustomPaths).bind <|
      (hfrom.orElse Components.faithful ⟨rfl, rfl⟩ hcomponents).bind <|
      (hfrom.list DocumentTag.faithful htags).bind <|
      (hfrom.optional SecurityRequirement.faithful.listOf? (fun _ => rfl) hsecurity).bind <|
      (hfrom.optional ExternalDocs.faithful (fun _ => rfl) hdocs).bind <|
      .extensions hkept (.pure _)
  · simp only [toTree, List.append_assoc, List.append_nil]

/-- **Documents are told again.**  A document that is read from a JSON text is read again from its
written form, with all its maps in their order; and so it is from every text that denotes the
written form, as the text layer of JSON provides.  So the written form is a normal form: to read
it and write it again changes nothing. -/
theorem round_trip {text : String} {d : Document} (h : parse .json text = .ok d) :
    ofTree? .typed d.toTree = some d ∧
    ∀ written : String, Format.json.tree? written = some d.toTree →
      parse .json written = .ok d ∧ (parse .json written).map toTree = .ok d.toTree := by
  obtain ⟨hversion, hread⟩ := parse_eq_ok_iff.mp h
  obtain ⟨tree, htree, hd⟩ := Option.bind_eq_some_iff.mp hread
  have hretold := faithful.retold (Json.Reader.isJson_tree? htree) hd
  refine ⟨hretold.reads, fun written hwritten => ?_⟩
  have hagain : parse .json written = .ok d := by
    have hfound : Format.json.read? ofTree? written = some d :=
      Option.bind_eq_some_iff.mpr ⟨d.toTree, hwritten, hretold.reads⟩
    exact parse_eq_ok_iff.mpr ⟨hversion, hfound⟩
  exact ⟨hagain, by rw [hagain]; rfl⟩

/-- A description with a discriminator in its short form and an extension with members out of
order. -/
def shortForm : String :=
  "\x7b\"openapi\":\"3.0.0\",\"components\":\x7b\"schemas\":\x7b\"Pet\":" ++
    "\x7b\"discriminator\":\"kind\",\"x-order\":\x7b\"b\":null,\"a\":1\x7d\x7d\x7d\x7d\x7d"

/-- The same description in its written form. -/
def longForm : String :=
  "\x7b\"openapi\":\"3.0.0\",\"components\":\x7b\"schemas\":\x7b\"Pet\":" ++
    "\x7b\"discriminator\":\x7b\"propertyName\":\"kind\"\x7d," ++
    "\"x-order\":\x7b\"a\":1,\"b\":null\x7d\x7d\x7d\x7d\x7d"

/-- A discriminator that is only a name, and members in another order, are read as the written form
is. -/
theorem round_trip_shortForm : ∃ d, parse .json shortForm = .ok d ∧
    ofTree? .typed d.toTree = some d ∧ parse .json longForm = .ok d := by
  have hsame : ((parse .json shortForm).toOption.any fun d =>
      (Format.json.tree? longForm).any fun tree => tree.same d.toTree) = true := by decide +kernel
  obtain ⟨d, hd, hany⟩ := (Option.any_eq_true _ _).mp hsame
  obtain ⟨tree, htree, heq⟩ := (Option.any_eq_true _ _).mp hany
  have hparse := Except.toOption_eq_some_iff.mp hd
  have hwritten : Format.json.tree? longForm = some d.toTree := by
    rw [htree, Tree.eq_of_same heq]
  exact ⟨d, hparse, (round_trip hparse).1, ((round_trip hparse).2 _ hwritten).1⟩

end Document

end ApiModel
