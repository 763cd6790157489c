import ApiModel.Proofs.DistinctNames
/-!
# Values that are told again

A reader and a writer belong together when a value that was read from a tree is read again from
what is written of it.  That is not so for every value of a type: an object of a document has
sorted members and a map has each name once only because a reader made them so.  So the
statement is about values that were read, and it goes from the parts to the whole: a list, a map
or a free-form value is told again when its parts are.

The trees in question are those of JSON.  In YAML a default that is no finite number is read as
`null`, and `null` in its place is read as no default at all; JSON has no such scalar.
-/

namespace ApiModel

/-- A list is told again when its elements are. -/
theorem mapM_map_eq_some {α β : Type} {read : β → Option α} {write : α → β} {as : List α}
    (h : ∀ a ∈ as, read (write a) = some a) : (as.map write).mapM read = some as := by
  induction as with
  | nil => rfl
  | cons a as ih =>
    have hhead := h a List.mem_cons_self
    have htail := ih fun b hb => h b (List.mem_cons_of_mem _ hb)
    simp only [List.map_cons, List.mapM_cons, hhead, htail]
    rfl

namespace Entries

/-- Writes under different keys are kept as they are. -/
theorem ofList_of_nodup {α : Type} {writes : Entries α} (h : writes.keys.Nodup) :
    ofList writes = writes := by
  have hfold (m : Entries α) (hm : (m ++ writes).keys.Nodup) :
      writes.foldl (fun m write => m.insert write.1 write.2) m = m ++ writes := by
    clear h
    induction writes generalizing m with
    | nil => exact (List.append_nil m).symm
    | cons write writes ih =>
      have hnew : write.1 ∉ m.keys := by
        intro hmem
        unfold keys at hm hmem
        rw [List.map_append, List.nodup_append] at hm
        exact hm.2.2 _ hmem _ List.mem_cons_self rfl
      have hnext : m ++ write :: writes = (m ++ [write]) ++ writes := by simp
      rw [List.foldl_cons, insert_of_not_mem hnew, hnext]
      exact ih _ (hnext ▸ hm)
  exact hfold [] h

end Entries

namespace Json

/-- The names of the members stand in ascending order. -/
def Sorted (members : List (String × Json)) : Prop :=
  members.Pairwise fun member member' => member.1 < member'.1

/-- Putting a member into an object adds no other. -/
theorem mem_putMember {members : List (String × Json)} {name : String} {value : Json}
    {entry : String × Json} (h : entry ∈ putMember members name value) :
    entry ∈ members ∨ entry = (name, value) := by
  induction members with
  | nil => exact .inr (List.mem_singleton.mp h)
  | cons member members ih =>
    obtain ⟨name', value'⟩ := member
    simp only [putMember] at h
    split_ifs at h with hlt heq
    · exact (List.mem_cons.mp h).symm
    · exact (List.mem_cons.mp h).symm.imp (List.mem_cons_of_mem _) id
    · rcases List.mem_cons.mp h with rfl | hrest
      · exact .inl List.mem_cons_self
      · exact (ih hrest).imp (List.mem_cons_of_mem _) id

/-- Putting a member into a sorted object keeps it sorted. -/
theorem sorted_putMember {members : List (String × Json)} (h : Sorted members) (name : String)
    (value : Json) : Sorted (putMember members name value) := by
  induction members with
  | nil => exact List.pairwise_singleton _ _
  | cons member members ih =>
    obtain ⟨name', value'⟩ := member
    obtain ⟨hhead, htail⟩ := List.pairwise_cons.mp h
    simp only [putMember]
    split_ifs with hlt heq
    · refine List.pairwise_cons.mpr ⟨fun entry hentry => ?_, h⟩
      rcases List.mem_cons.mp hentry with rfl | hrest
      · exact hlt
      · exact String.lt_trans hlt (hhead entry hrest)
    · exact List.pairwise_cons.mpr ⟨heq ▸ hhead, htail⟩
    · refine List.pairwise_cons.mpr ⟨fun entry hentry => ?_, ih htail⟩
      rcases mem_putMember hentry with hold | rfl
      · exact hhead entry hold
      · exact String.not_le.mp fun hle => heq (String.le_antisymm (String.not_lt.mp hlt) hle)

/-- A name that comes after all others is put at the end. -/
theorem putMember_of_forall_lt {members : List (String × Json)} {name : String} {value : Json}
    (h : ∀ member ∈ members, member.1 < name) :
    putMember members name value = members ++ [(name, value)] := by
  induction members with
  | nil => rfl
  | cons member members ih =>
    have hlt := h member List.mem_cons_self
    have hne : ¬ member.1 = name := fun heq => String.lt_irrefl name (heq ▸ hlt)
    rw [putMember, if_neg (String.lt_asymm hlt), if_neg hne,
      ih fun member' hmember => h member' (List.mem_cons_of_mem _ hmember)]
    rfl

/-- **An object has sorted members**, each of which was written. -/
theorem ofMembers_sorted (writes : List (String × Json)) :
    ∃ members, ofMembers writes = .object members ∧ Sorted members ∧
      ∀ member ∈ members, member ∈ writes := by
  refine ⟨_, rfl, ?_⟩
  have hfold (members : List (String × Json)) (hmembers : Sorted members) :
      Sorted (writes.foldl (fun members write => putMember members write.1 write.2) members) ∧
      ∀ member ∈ writes.foldl (fun members write => putMember members write.1 write.2) members,
        member ∈ members ∨ member ∈ writes := by
    induction writes generalizing members with
    | nil => exact ⟨hmembers, fun member hmember => .inl hmember⟩
    | cons write writes ih =>
      obtain ⟨hsorted, hfrom⟩ := ih _ (sorted_putMember hmembers write.1 write.2)
      refine ⟨hsorted, fun member hmember => ?_⟩
      rcases hfrom member hmember with hput | hrest
      · rcases mem_putMember hput with hold | rfl
        · exact .inl hold
        · exact .inr List.mem_cons_self
      · exact .inr (List.mem_cons_of_mem _ hrest)
  obtain ⟨hsorted, hfrom⟩ := hfold [] List.Pairwise.nil
  exact ⟨hsorted, fun member hmember => (hfrom member hmember).resolve_left List.not_mem_nil⟩

/-- Sorted members make an object as they are. -/
theorem ofMembers_of_sorted {writes : List (String × Json)} (h : Sorted writes) :
    ofMembers writes = .object writes := by
  have hfold (members : List (String × Json)) (hmembers : Sorted (members ++ writes)) :
      writes.foldl (fun members write => putMember members write.1 write.2) members =
        members ++ writes := by
    clear h
    induction writes generalizing members with
    | nil => exact (List.append_nil members).symm
    | cons write writes ih =>
      have hlast : ∀ member ∈ members, member.1 < write.1 := fun member hmember =>
        (List.pairwise_append.mp hmembers).2.2 member hmember write List.mem_cons_self
      have hnext : members ++ write :: writes = (members ++ [write]) ++ writes := by simp
      rw [List.foldl_cons, putMember_of_forall_lt hlast, hnext]
      exact ih _ (hnext ▸ hmembers)
  exact congrArg Json.object (hfold [] h)

end Json

namespace Tree

/-- A tree that a JSON text can have: no scalar in it is untyped, tagged or infinite. -/
inductive IsJson : Tree → Prop
  | null : IsJson .null
  | bool (value : Bool) : IsJson (.bool value)
  | number (value : Number) : IsJson (.number value)
  | string (value : String) : IsJson (.string value)
  | broken : IsJson .broken
  | sequence {items : List Tree} (hitems : ∀ item ∈ items, IsJson item) :
      IsJson (.sequence items)
  | mapping {entries : List (Tree × Tree)} (hkeys : ∀ entry ∈ entries, IsJson entry.1)
      (hvalues : ∀ entry ∈ entries, IsJson entry.2) : IsJson (.mapping entries)

namespace IsJson

variable {tree : Tree}

/-- The scalars of JSON are typed as they stand. -/
theorem resolve_eq (h : IsJson tree) : tree.resolve = tree := by
  cases h <;> rfl

/-- The items of a tree of JSON are trees of JSON. -/
theorem of_items? {items : List Tree} (h : IsJson tree) (hitems : tree.items? .typed = some items) :
    ∀ item ∈ items, IsJson item := by
  cases h with
  | sequence hall =>
    cases hitems
    exact hall
  | _ => cases hitems

/-- The keys and values of a tree of JSON are trees of JSON. -/
theorem of_entries? {entries : List (Tree × Tree)} (h : IsJson tree)
    (hentries : tree.entries? .typed = some entries) :
    ∀ entry ∈ entries, IsJson entry.1 ∧ IsJson entry.2 := by
  cases h with
  | mapping hkeys hvalues =>
    cases hentries
    exact fun entry hentry => ⟨hkeys entry hentry, hvalues entry hentry⟩
  | _ => cases hentries

end IsJson

/-- A list is readable if each tree in it is. -/
theorem areReadable_of_forall {items : List Tree} (h : ∀ item ∈ items, item.isReadable = true) :
    areReadable items = true := by
  induction items with
  | nil => rfl
  | cons item items ih =>
    have hrest := ih fun item' hitem => h item' (List.mem_cons_of_mem _ hitem)
    rw [areReadable, h item List.mem_cons_self, hrest]
    rfl

/-- Fields are readable when their trees are, for their names always are. -/
theorem isReadable_ofFields {fields : List (String × Tree)}
    (h : ∀ field ∈ fields, field.2.isReadable = true) : (ofFields fields).isReadable = true := by
  have hentries : entriesReadable (fields.map fun field => (.string field.1, field.2)) = true := by
    induction fields with
    | nil => rfl
    | cons field fields ih =>
      have hrest := ih fun field' hfield => h field' (List.mem_cons_of_mem _ hfield)
      rw [List.map_cons, entriesReadable, h field List.mem_cons_self, hrest]
      rfl
  rw [ofFields, isReadable]
  exact hentries

/-- A readable tree can be taken as a whole. -/
theorem whole?_of_isReadable {tree : Tree} (h : tree.isReadable = true) : tree.whole? = some tree :=
  if_pos h

/-- A tree that is taken as a whole is not changed. -/
theorem whole?_eq_some {tree whole : Tree} (h : tree.whole? = some whole) : whole = tree := by
  unfold whole? at h
  split_ifs at h
  cases h
  rfl

section Retelling

variable {α : Type}

/-- The value is read from its written form again. -/
structure Retold (read : Tree → Option α) (write : α → Tree) (a : α) : Prop where
  reads : read (write a) = some a
  readable : (write a).isReadable = true

/-- What is read from a tree of JSON is read from its written form again. -/
structure Faithful (read : Tree → Option α) (write : α → Tree) : Prop where
  retold : ∀ {tree a}, tree.IsJson → read tree = some a → Retold read write a

/-- A written value never counts as absent. -/
def Present (write : α → Tree) : Prop :=
  ∀ a, (write a).isAbsent .typed = false

/-- What is told again for every value is told again for those that were read. -/
theorem Faithful.of_all {read : Tree → Option α} {write : α → Tree}
    (h : ∀ a, Retold read write a) : Faithful read write :=
  ⟨fun _ _ => h _⟩

theorem faithful_string : Faithful (string? .typed) .string :=
  .of_all fun _ => ⟨rfl, rfl⟩

theorem faithful_bool : Faithful (bool? .typed) .bool :=
  .of_all fun _ => ⟨rfl, rfl⟩

theorem faithful_number : Faithful number? .number :=
  .of_all fun _ => ⟨rfl, rfl⟩

/-- Counts are told again: they are numbers without sign and fraction. -/
theorem faithful_count : Faithful (count? .typed) ofCount := by
  refine .of_all fun count => ⟨?_, rfl⟩
  change (if (0 : Int) ≤ count then some (count : Int).toNat else none) = some count
  rw [if_pos (Int.natCast_nonneg count), Int.toNat_natCast]

/-- One of several names is told again if there is a name for every choice, and none for two of
them. -/
theorem faithful_choice [DecidableEq α] {choices : List (String × α)}
    (h : ∀ choice, choice ∈ choices.map Prod.snd)
    (hnames : (choices.map Prod.fst).Nodup) :
    Faithful (choice? .typed choices) (ofChoice choices) := by
  refine .of_all fun choice => ?_
  obtain ⟨entry, hentry⟩ :
      ∃ entry, choices.find? (fun entry => entry.2 == choice) = some entry := by
    obtain ⟨entry, hmem, hchoice⟩ := List.mem_map.mp (h choice)
    refine Option.isSome_iff_exists.mp (List.find?_isSome.mpr ⟨entry, hmem, ?_⟩)
    exact beq_iff_eq.mpr hchoice
  have hwritten : ofChoice choices choice = .string entry.1 := by
    unfold ofChoice
    rw [hentry]
  have hchoice : entry.2 = choice := by simpa using List.find?_some hentry
  have hlookup : choices.lookup entry.1 = some choice := by
    refine (Entries.get?_eq_some_iff (m := choices) hnames).mpr ?_
    rw [← hchoice]
    exact List.mem_of_find?_eq_some hentry
  exact ⟨by rw [hwritten]; exact hlookup, by rw [hwritten]; rfl⟩

/-- A list is told again when its items are. -/
theorem Retold.list {read : Tree → Option α} {write : α → Tree} {items : List α}
    (h : ∀ item ∈ items, Retold read write item) :
    Retold (listOf? .typed read) (ofList write) items := by
  refine ⟨mapM_map_eq_some fun item hitem => (h item hitem).reads, ?_⟩
  rw [ofList, isReadable]
  refine areReadable_of_forall fun tree htree => ?_
  obtain ⟨item, hitem, rfl⟩ := List.mem_map.mp htree
  exact (h item hitem).readable

/-- The members of a list are read from items of the tree. -/
theorem IsJson.of_listOf? {tree : Tree} (htree : tree.IsJson) {read : Tree → Option α}
    {items : List α} (hread : listOf? .typed read tree = some items) {item : α}
    (hitem : item ∈ items) : ∃ tree' : Tree, tree'.IsJson ∧ read tree' = some item := by
  obtain ⟨trees, htrees, hitems⟩ := Option.bind_eq_some_iff.mp hread
  obtain ⟨tree', htree', hitem'⟩ := mem_of_mapM_some hitems hitem
  exact ⟨tree', htree.of_items? htrees tree' htree', hitem'⟩

/-- Lists of values that are told again are told again. -/
theorem Faithful.listOf? {read : Tree → Option α} {write : α → Tree} (h : Faithful read write) :
    Faithful (listOf? .typed read) (ofList write) := by
  refine ⟨fun htree hread => Retold.list fun item hitem => ?_⟩
  obtain ⟨tree', htree', hvalue⟩ := htree.of_listOf? hread hitem
  exact h.retold htree' hvalue

/-- The entries of a map that is written from a list of fields. -/
theorem entriesOf?_ofFields {read : Tree → Option α} {fields : List (String × Tree)}
    {writes : List (String × α)}
    (h : fields.mapM (fun field => (read field.2).map (field.1, ·)) = some writes) :
    entriesOf? .typed read (ofFields fields) = some (Entries.ofList writes) := by
  have hwrites : (fields.map fun field => (Tree.string field.1, field.2)).mapM
      (fun entry => do return (← entry.1.string? .typed, ← read entry.2)) = some writes := by
    rw [← h, List.mapM_map]
    refine congrArg (fields.mapM ·) (funext fun field => ?_)
    cases h : read field.2 <;> simp [h, string?, root, resolve]
  unfold entriesOf?
  exact Option.bind_eq_some_iff.mpr ⟨_, rfl, Option.bind_eq_some_iff.mpr ⟨writes, hwrites, rfl⟩⟩

/-- A map is told again when its keys differ and its values are told again. -/
theorem Retold.entries {read : Tree → Option α} {write : α → Tree} {m : Entries α}
    (hkeys : m.keys.Nodup) (h : ∀ entry ∈ m, Retold read write entry.2) :
    Retold (entriesOf? .typed read) (ofEntries write) m := by
  constructor
  · have hwrites : (m.mapValues write).mapM (fun field => (read field.2).map (field.1, ·)) =
        some m := by
      refine mapM_map_eq_some fun entry hentry => ?_
      rw [(h entry hentry).reads]
      rfl
    rw [ofEntries, entriesOf?_ofFields hwrites, Entries.ofList_of_nodup hkeys]
  · refine isReadable_ofFields fun field hfield => ?_
    obtain ⟨entry, hentry, rfl⟩ := List.mem_map.mp hfield
    exact (h entry hentry).readable

/-- The entries of a map are read from entries of the tree. -/
theorem IsJson.of_entriesOf? {tree : Tree} (htree : tree.IsJson) {read : Tree → Option α}
    {m : Entries α} (hread : entriesOf? .typed read tree = some m) {entry : String × α}
    (hentry : entry ∈ m) : ∃ tree' : Tree, tree'.IsJson ∧ read tree' = some entry.2 := by
  obtain ⟨pairs, hpairs, hrest⟩ := Option.bind_eq_some_iff.mp hread
  obtain ⟨writes, hwrites, hm⟩ := Option.bind_eq_some_iff.mp hrest
  cases hm
  obtain ⟨pair, hpair, hvalue⟩ := mem_of_mapM_some hwrites (Entries.mem_ofList hentry)
  simp only [Option.bind_eq_bind, Option.bind_eq_some_iff] at hvalue
  obtain ⟨key, -, value, hvalue, hentry⟩ := hvalue
  cases hentry
  exact ⟨pair.2, (htree.of_entries? hpairs pair hpair).2, hvalue⟩

/-- Maps of values that are told again are told again, since a map that was read has different
keys. -/
theorem Faithful.entriesOf? {read : Tree → Option α} {write : α → Tree}
    (h : Faithful read write) : Faithful (entriesOf? .typed read) (ofEntries write) := by
  refine ⟨fun htree hread => Retold.entries (entriesOf?_nodup hread) fun entry hentry => ?_⟩
  obtain ⟨tree', htree', hvalue⟩ := htree.of_entriesOf? hread hentry
  exact h.retold htree' hvalue

end Retelling

section FreeForm

/-- The items of a free-form list are read one by one. -/
theorem jsonItems?_eq_mapM (r : Reading) (items : List Tree) :
    jsonItems? r items = items.mapM (json? r) := by
  induction items with
  | nil => rfl
  | cons item items ih =>
    rw [jsonItems?, ih, List.mapM_cons]
    cases json? r item <;> cases items.mapM (json? r) <;> rfl

/-- The members of a free-form object are read one by one, names and values. -/
theorem jsonMembers?_eq_mapM (r : Reading) (entries : List (Tree × Tree)) :
    jsonMembers? r entries =
      entries.mapM fun entry => do return (← entry.1.string? r, ← json? r entry.2) := by
  induction entries with
  | nil => rfl
  | cons entry entries ih =>
    obtain ⟨key, value⟩ := entry
    rw [jsonMembers?, ih, List.mapM_cons]
    generalize List.mapM (m := Option) _ entries = rest
    cases key.string? r <;> cases json? r value <;> cases rest <;> rfl

/-- The items of a free-form list are written one by one. -/
theorem ofJsonItems_eq_map (items : List Json) : ofJsonItems items = items.map ofJson := by
  induction items with
  | nil => rfl
  | cons item items ih => rw [ofJsonItems, ih, List.map_cons]

/-- The members of a free-form object are written one by one. -/
theorem ofJsonMembers_eq_map (members : List (String × Json)) :
    ofJsonMembers members = members.map fun member => (.string member.1, ofJson member.2) := by
  induction members with
  | nil => rfl
  | cons member members ih => rw [ofJsonMembers, ih, List.map_cons]

/-- A free-form list is written like any list. -/
theorem ofJson_array (items : List Json) : ofJson (.array items) = ofList ofJson items := by
  rw [ofJson, ofJsonItems_eq_map, ofList]

/-- A free-form object is written like any map. -/
theorem ofJson_object (members : List (String × Json)) :
    ofJson (.object members) = ofEntries ofJson members := by
  rw [ofJson, ofJsonMembers_eq_map, ofEntries, ofFields, Entries.mapValues, List.map_map]
  rfl

/-- A free-form list is read like any list. -/
theorem json?_sequence (items : List Tree) :
    json? .typed (.sequence items) =
      (listOf? .typed (json? .typed) (.sequence items)).map .array := by
  rw [json?, jsonItems?_eq_mapM]
  rfl

/-- A free-form list is told again when its items are. -/
theorem Retold.array {items : List Json}
    (h : ∀ item ∈ items, Retold (json? .typed) ofJson item) :
    Retold (json? .typed) ofJson (.array items) := by
  have hlist := Retold.list h
  constructor
  · rw [ofJson_array, ofList, json?_sequence]
    exact Option.map_eq_some_iff.mpr ⟨items, hlist.reads, rfl⟩
  · rw [ofJson_array]
    exact hlist.readable

/-- A free-form object is told again when its members are sorted, as a reader sorts them. -/
theorem Retold.object {members : List (String × Json)} (hsorted : Json.Sorted members)
    (h : ∀ member ∈ members, Retold (json? .typed) ofJson member.2) :
    Retold (json? .typed) ofJson (.object members) := by
  constructor
  · have hmembers : jsonMembers? .typed (ofJsonMembers members) = some members := by
      rw [jsonMembers?_eq_mapM, ofJsonMembers_eq_map]
      refine mapM_map_eq_some fun member hmember => ?_
      simp only [(h member hmember).reads]
      rfl
    rw [ofJson, json?, hmembers, Option.map_some, Json.ofMembers_of_sorted hsorted]
  · rw [ofJson_object]
    refine isReadable_ofFields fun field hfield => ?_
    obtain ⟨member, hmember, rfl⟩ := List.mem_map.mp hfield
    exact (h member hmember).readable

/-- **A free-form value is told again**: the members of its objects are sorted since they were
read. -/
theorem faithful_json : Faithful (json? .typed) ofJson := by
  constructor
  intro tree value htree hread
  induction htree generalizing value with
  | null | bool | number | string =>
    cases hread
    exact ⟨rfl, rfl⟩
  | broken => cases hread
  | sequence _ ih =>
    rw [json?, jsonItems?_eq_mapM] at hread
    obtain ⟨items, hitems, rfl⟩ := Option.map_eq_some_iff.mp hread
    refine Retold.array fun item hitem => ?_
    obtain ⟨tree', htree', hitem'⟩ := mem_of_mapM_some hitems hitem
    exact ih tree' htree' hitem'
  | mapping _ _ _ ih =>
    rw [json?, jsonMembers?_eq_mapM] at hread
    obtain ⟨writes, hwrites, rfl⟩ := Option.map_eq_some_iff.mp hread
    obtain ⟨members, hmembers, hsorted, hfrom⟩ := Json.ofMembers_sorted writes
    rw [hmembers]
    refine Retold.object hsorted fun member hmember => ?_
    obtain ⟨entry, hentry, hvalue⟩ := mem_of_mapM_some hwrites (hfrom member hmember)
    simp only [Option.bind_eq_bind, Option.bind_eq_some_iff] at hvalue
    obtain ⟨key, -, value, hvalue, hmember⟩ := hvalue
    cases hmember
    exact ih entry hentry hvalue

/-- A value that is not `null` is written so that it does not count as absent. -/
theorem isAbsent_ofJson {value : Json} (h : value ≠ .null) :
    (ofJson value).isAbsent .typed = false := by
  cases value <;> first | rfl | exact absurd rfl h

/-- Of the trees of JSON only `null` is read as `null`, and that counts as absent. -/
theorem IsJson.isAbsent_of_json? {tree : Tree} (h : tree.IsJson)
    (hread : json? .typed tree = some .null) : tree.isAbsent .typed = true := by
  cases h with
  | null => rfl
  | sequence =>
    obtain ⟨items, -, hnull⟩ := Option.map_eq_some_iff.mp hread
    cases hnull
  | mapping =>
    obtain ⟨members, -, hnull⟩ := Option.map_eq_some_iff.mp hread
    cases hnull
  | _ => cases hread

end FreeForm

end Tree

end ApiModel
