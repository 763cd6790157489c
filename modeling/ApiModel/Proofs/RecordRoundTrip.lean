import ApiModel.Proofs.Retelling
import Mathlib.Data.List.Perm.Subperm
/-!
# Records that are told again

A record is written as its fields, and the extensions after them.  When such a mapping is read,
every entry finds its place again: a known name among the fields, any other among the rest.  So
a reader of records, which asks for one field after the other, gets from the written form what
it got from the text.  `Rereads` says so of a part of a reader and of the fields that part
writes; a whole reader is put together from its parts in the order in which it asks.
-/

namespace ApiModel

namespace Entries

/-- Two maps in a row have the keys of both. -/
theorem keys_append {α : Type} (m m' : Entries α) : keys (m ++ m') = keys m ++ keys m' :=
  List.map_append

/-- Leaving entries out by their keys does not change what the other keys read. -/
theorem get?_filter {α : Type} {p : String → Bool} {key : String} (h : p key = true)
    (m : Entries α) : get? (m.filter fun entry => p entry.1) key = get? m key := by
  induction m with
  | nil => rfl
  | cons entry m ih =>
    obtain ⟨key', value⟩ := entry
    rw [List.filter_cons, get?_cons]
    split_ifs with hp heq heq
    · rw [get?_cons, if_pos heq]
    · rw [get?_cons, if_neg heq, ih]
    · exact absurd (heq ▸ h) hp
    · exact ih

end Entries

open ApiModel.Tree

/-- A reader that asks for one thing after the other, read backwards. -/
theorem bind_eq_some {α β : Type} {x : Option α} {next : α → Option β} {b : β} :
    (x >>= next) = some b ↔ ∃ a, x = some a ∧ next a = some b :=
  Option.bind_eq_some_iff

namespace Record

/-- What a record holds that was read from a tree of JSON. -/
structure FromJson (known : List String) (record : Record) : Prop where
  typed : record.reading = .typed
  fields : ∀ field ∈ record.fields, field.2.IsJson
  others : ∀ entry ∈ record.others, entry.2.IsJson
  unknown : ∀ entry ∈ record.others, entry.1 ∉ known

namespace FromJson

variable {known : List String} {record record' : Record} {tree : Tree}

/-- A record without fields comes from any text. -/
theorem empty : FromJson known { reading := .typed } where
  typed := rfl
  fields := fun _ h => absurd h List.not_mem_nil
  others := fun _ h => absurd h List.not_mem_nil
  unknown := fun _ h => absurd h List.not_mem_nil

/-- A record that comes from JSON does so with one entry more. -/
theorem add (h : FromJson known record) {name : String} (htree : tree.IsJson)
    (hadd : record.add? known name tree = some record') : FromJson known record' := by
  unfold add? at hadd
  split_ifs at hadd with hname hagain
  · cases hadd
    refine ⟨h.typed, fun field hfield => ?_, h.others, h.unknown⟩
    rcases List.mem_append.mp hfield with hold | hnew
    · exact h.fields field hold
    · rwa [List.mem_singleton.mp hnew]
  · cases hadd
    refine ⟨h.typed, h.fields, fun entry hentry => ?_, fun entry hentry => ?_⟩
    · rcases List.mem_append.mp hentry with hold | hnew
      · exact h.others entry hold
      · rwa [List.mem_singleton.mp hnew]
    · rcases List.mem_append.mp hentry with hold | hnew
      · exact h.unknown entry hold
      · rw [List.mem_singleton.mp hnew]
        exact fun hmem => hname (List.contains_iff_mem.mpr hmem)

/-- A record that comes from JSON does so with all entries of a mapping. -/
theorem addAll {keyOf : Tree → Option String} {entries : List (Tree × Tree)}
    (hentries : ∀ entry ∈ entries, entry.2.IsJson) (h : FromJson known record)
    (hadd : entries.foldlM (fun record entry => do
      record.add? known (← keyOf entry.1) entry.2) record = some record') :
    FromJson known record' := by
  induction entries generalizing record with
  | nil =>
    cases hadd
    exact h
  | cons entry entries ih =>
    simp only [List.foldlM_cons, Option.bind_eq_bind, Option.bind_eq_some_iff] at hadd
    obtain ⟨next, ⟨name, -, hnext⟩, hrest⟩ := hadd
    exact ih (fun entry' hentry => hentries entry' (List.mem_cons_of_mem _ hentry))
      (h.add (hentries entry List.mem_cons_self) hnext) hrest

/-- A record that keeps its other entries comes from JSON if its tree does. -/
theorem of_open (htree : tree.IsJson) (h : ofOpen? .typed known tree = some record) :
    FromJson known record := by
  obtain ⟨entries, hentries, hfold⟩ := Option.bind_eq_some_iff.mp h
  exact empty.addAll (fun entry hentry => (htree.of_entries? hentries entry hentry).2) hfold

/-- A record that admits no other entries comes from JSON if its tree does. -/
theorem of_closed (htree : tree.IsJson) (h : ofClosed? .typed known tree = some record) :
    FromJson known record := by
  obtain ⟨entries, hentries, hfold⟩ := Option.bind_eq_some_iff.mp h
  exact empty.addAll (fun entry hentry => (htree.of_entries? hentries entry hentry).2) hfold

/-- A record that may be written as a list comes from JSON if its tree does. -/
theorem of_positional (htree : tree.IsJson) {needed : Nat}
    (h : ofPositional? .typed known needed tree = some record) : FromJson known record := by
  unfold ofPositional? at h
  rw [htree.resolve_eq] at h
  split at h
  · rename_i items hsequence
    cases htree with
    | sequence hitems =>
      cases hsequence
      split_ifs at h
      cases h
      refine ⟨rfl, fun field hfield => hitems _ (List.of_mem_zip hfield).2, ?_, ?_⟩
      · exact fun _ h => absurd h List.not_mem_nil
      · exact fun _ h => absurd h List.not_mem_nil
  · exact of_closed htree h

end FromJson

/-- A mapping of fields with different names, read as a record: the known fields and the
others, each in their order. -/
theorem ofOpen?_ofFields (known : List String) {fields : Entries Tree}
    (h : fields.keys.Nodup) :
    ofOpen? .typed known (ofFields fields) = some
      { reading := .typed
        fields := fields.filter fun field => known.contains field.1
        others := fields.filter fun field => !known.contains field.1 } := by
  have hfold (record : Record) (hnew : ∀ field ∈ fields, field.1 ∉ record.fields.keys) :
      (fields.map fun field => (Tree.string field.1, field.2)).foldlM (fun record entry => do
        record.add? known (← entry.1.string? .typed) entry.2) record = some
      { record with
        fields := record.fields ++ fields.filter fun field => known.contains field.1
        others := record.others ++ fields.filter fun field => !known.contains field.1 } := by
    induction fields generalizing record with
    | nil => simp
    | cons field fields ih =>
      obtain ⟨hfield, hrest⟩ := List.nodup_cons.mp h
      have hfresh := hnew field List.mem_cons_self
      have hlater := fun field' hfield' => hnew field' (List.mem_cons_of_mem _ hfield')
      have habsent : record.fields.contains field.1 = false := by
        rw [Entries.contains, Entries.get?_eq_none_iff.mpr hfresh, Option.isSome_none]
      simp only [List.map_cons, List.foldlM_cons]
      change (record.add? known field.1 field.2).bind _ = _
      by_cases hknown : known.contains field.1 = true
      · rw [add?, if_pos hknown, if_neg (by rw [habsent]; exact Bool.false_ne_true)]
        refine (ih hrest _ fun field' hfield' hmem => ?_).trans ?_
        · rw [Entries.keys, List.map_append, List.mem_append] at hmem
          rcases hmem with hold | hlast
          · exact hlater field' hfield' hold
          · rw [List.map_singleton, List.mem_singleton] at hlast
            exact hfield (hlast ▸ List.mem_map_of_mem hfield')
        · simp only [List.filter_cons, hknown, Bool.not_true, if_true, Bool.false_eq_true, if_false,
            List.append_assoc, List.singleton_append]
      · rw [add?, if_neg hknown]
        refine (ih hrest { record with others := record.others ++ [(field.1, field.2)] }
          hlater).trans ?_
        simp only [List.filter_cons, hknown, Bool.not_false, if_true, Bool.false_eq_true, if_false,
            List.append_assoc, List.singleton_append]
  exact hfold _ fun _ _ => List.not_mem_nil

/-- Without other entries a closed record is read like an open one. -/
theorem ofClosed?_ofFields (known : List String) (fields : Entries Tree) :
    ofClosed? .typed known (ofFields fields) = ofOpen? .typed known (ofFields fields) := by
  change List.foldlM _ _ (fields.map _) = List.foldlM _ _ (fields.map _)
  rw [List.foldlM_map, List.foldlM_map]
  rfl

/-- A record that is written with its names is not read by position. -/
theorem ofPositional?_ofFields (known : List String) (needed : Nat) (fields : Entries Tree) :
    ofPositional? .typed known needed (ofFields fields) =
      ofOpen? .typed known (ofFields fields) :=
  ofClosed?_ofFields known fields

/-- What the vendor extensions of a record are once they were read. -/
structure Kept (known : List String) (extensions : Extensions) : Prop where
  distinct : (Entries.keys extensions).Nodup
  named : ∀ entry ∈ extensions, isExtension entry.1 = true
  unknown : ∀ entry ∈ extensions, entry.1 ∉ known
  values : ∀ entry ∈ extensions, Retold (json? .typed) ofJson entry.2

/-- The extensions of a record from JSON can be told again. -/
theorem FromJson.extensions {known : List String} {record : Record} {extensions : Extensions}
    (h : FromJson known record) (hread : record.extensions? = some extensions) :
    Kept known extensions := by
  obtain ⟨writes, hwrites, hfilter⟩ := Option.bind_eq_some_iff.mp hread
  cases hfilter
  have hentry : ∀ entry ∈ Entries.ofList writes, ∃ tree, (entry.1, tree) ∈ record.others ∧
      json? .typed tree = some entry.2 := by
    intro entry hmem
    obtain ⟨other, hother, hwrite⟩ := mem_of_mapM_some hwrites (Entries.mem_ofList hmem)
    obtain ⟨value, hvalue, hsame⟩ := Option.bind_eq_some_iff.mp hwrite
    cases hsame
    exact ⟨other.2, hother, hvalue⟩
  refine ⟨?_, fun entry hmem => ?_, fun entry hmem => ?_, fun entry hmem => ?_⟩
  · have hsub := (List.filter_sublist (p := fun entry => isExtension entry.1)
      (l := Entries.ofList writes)).map Prod.fst
    exact (Entries.nodup_keys_ofList writes).sublist hsub
  · exact (List.mem_filter.mp hmem).2
  · obtain ⟨tree, hother, -⟩ := hentry entry (List.mem_filter.mp hmem).1
    exact h.unknown _ hother
  · obtain ⟨tree, hother, hvalue⟩ := hentry entry (List.mem_filter.mp hmem).1
    exact faithful_json.retold (h.others _ hother) hvalue

/-- Extensions that can be told again are the ones that the record gives. -/
theorem Kept.extensions? {known : List String} {extensions : Extensions}
    (h : Kept known extensions) {record : Record}
    (hothers : record.others = extensionFields extensions) :
    record.extensions? = some extensions := by
  have hwrites : record.others.mapM (fun entry => do
      return (entry.1, ← entry.2.json? .typed)) = some extensions := by
    rw [hothers]
    refine mapM_map_eq_some fun entry hentry => ?_
    rw [(h.values entry hentry).reads]
    rfl
  have hall : extensions.filter (fun entry => isExtension entry.1) = extensions :=
    List.filter_eq_self.mpr h.named
  refine Option.bind_eq_some_iff.mpr ⟨extensions, hwrites, ?_⟩
  change some ((Entries.ofList extensions).filter fun entry => isExtension entry.1) = _
  rw [Entries.ofList_of_nodup h.distinct, hall]

/-- A part of a reader that asks for fields by these names finds in the written fields, and in
the other entries, what it found before. -/
structure Rereads {α : Type} (names : List String) (read : Record → Option α)
    (fields others : Entries Tree) (a : α) : Prop where
  named : List.Subperm fields.keys names
  readable : ∀ field ∈ fields, field.2.isReadable = true
  reads : names.Nodup → ∀ record : Record, record.reading = .typed → record.others = others →
    (∀ name ∈ names, record.fields.get? name = fields.get? name) → read record = some a

namespace Rereads

variable {α β : Type} {known names : List String} {name : String} {others : Entries Tree}

/-- Fields that are written under different names have different names. -/
theorem nodup_keys {read : Record → Option α} {fields : Entries Tree} {a : α}
    (h : Rereads names read fields others a) (hnodup : names.Nodup) : fields.keys.Nodup := by
  obtain ⟨keys, hperm, hsub⟩ := h.named
  exact hperm.nodup_iff.mp (hnodup.sublist hsub)

/-- A reader that is done asks for nothing. -/
theorem pure (a : α) : Rereads [] (fun _ => some a) [] others a where
  named := List.Subperm.refl []
  readable := fun _ h => absurd h List.not_mem_nil
  reads := fun _ _ _ _ _ => rfl

/-- A reader made of two parts that ask for different fields. -/
theorem append {names' : List String} {read : Record → Option β} {next : β → Record → Option α}
    {fields fields' : Entries Tree} {b : β} {a : α} (h : Rereads names read fields others b)
    (hnext : Rereads names' (next b) fields' others a) :
    Rereads (names ++ names') (fun record => read record >>= fun b => next b record)
      (fields ++ fields') others a := by
  constructor
  · rw [Entries.keys_append]
    exact h.named.append hnext.named
  · intro field hfield
    exact (List.mem_append.mp hfield).elim (h.readable field) (hnext.readable field)
  · intro hnodup record htyped hothers hfields
    obtain ⟨hnames, hnames', hapart⟩ := List.nodup_append.mp hnodup
    have hread : read record = some b := by
      refine h.reads hnames record htyped hothers fun name hname => ?_
      have hnone : Entries.get? fields' name = none := Entries.get?_eq_none_iff.mpr fun hmem =>
        hapart name hname name (hnext.named.subset hmem) rfl
      rw [hfields name (List.mem_append_left _ hname), Entries.get?_append, hnone, Option.or_none]
    have hlater : next b record = some a := by
      refine hnext.reads hnames' record htyped hothers fun name hname => ?_
      have hnone : Entries.get? fields name = none := Entries.get?_eq_none_iff.mpr fun hmem =>
        hapart name (h.named.subset hmem) name hname rfl
      rw [hfields name (List.mem_append_right _ hname), Entries.get?_append, hnone, Option.none_or]
    rw [hread]
    exact hlater

/-- A reader that asks for one field and goes on. -/
theorem bind {read : Record → Option β} {next : β → Record → Option α}
    {fields rest : Entries Tree} {b : β} {a : α} (h : Rereads [name] read fields others b)
    (hnext : Rereads names (next b) rest others a) :
    Rereads (name :: names) (fun record => read record >>= fun b => next b record)
      (fields ++ rest) others a :=
  h.append hnext

/-- A reader that asks for the extensions and goes on. -/
theorem extensions {next : Extensions → Record → Option α} {fields : Entries Tree}
    {extensions : Extensions} {a : α} (h : Kept known extensions)
    (hnext : Rereads names (next extensions) fields (extensionFields extensions) a) :
    Rereads names (fun record => record.extensions? >>= fun found => next found record) fields
      (extensionFields extensions) a where
  named := hnext.named
  readable := hnext.readable
  reads := by
    intro hnodup record htyped hothers hfields
    rw [h.extensions? hothers]
    exact hnext.reads hnodup record htyped hothers hfields

/-- Only the typed form of a reader matters. -/
theorem of_typed {read read' : Record → Option α} {fields : Entries Tree} {a : α}
    (hread : ∀ record : Record, record.reading = .typed → read record = read' record)
    (h : Rereads names read' fields others a) : Rereads names read fields others a where
  named := h.named
  readable := h.readable
  reads := by
    intro hnodup record htyped hothers hfields
    rw [hread record htyped]
    exact h.reads hnodup record htyped hothers hfields

/-- What is read again from fields is read again from equal ones. -/
theorem of_eq {read : Record → Option α} {fields fields' : Entries Tree} {a : α}
    (h : Rereads names read fields others a) (hfields : fields' = fields) :
    Rereads names read fields' others a :=
  hfields ▸ h

/-- The order in which the fields are written does not matter. -/
theorem perm {read : Record → Option α} {fields fields' : Entries Tree} {a : α}
    (h : Rereads names read fields others a) (hperm : fields'.Perm fields) :
    Rereads names read fields' others a where
  named := (hperm.map Prod.fst).subperm.trans h.named
  readable := fun field hfield => h.readable field (hperm.mem_iff.mp hfield)
  reads := by
    intro hnodup record htyped hothers hfields
    refine h.reads hnodup record htyped hothers fun name hname => (hfields name hname).trans ?_
    have hkeys : fields.keys.Nodup := h.nodup_keys hnodup
    have hkeys' : fields'.keys.Nodup := (hperm.map Prod.fst).nodup_iff.mpr hkeys
    refine Option.ext fun tree => ?_
    rw [Entries.get?_eq_some_iff hkeys, Entries.get?_eq_some_iff hkeys', hperm.mem_iff]

section Fields

variable {read : Tree → Option α} {write : α → Tree}

/-- A field that is written whatever its value is. -/
theorem always {read' : Record → Option α} {a : α} (h : Retold read write a)
    (hread : ∀ record : Record, record.fields.get? name = some (write a) →
      read' record = read (write a)) :
    Rereads [name] read' [(name, write a)] others a where
  named := List.Subperm.refl [name]
  readable := by
    intro field hfield
    rw [List.mem_singleton.mp hfield]
    exact h.readable
  reads := by
    intro _ record _ _ hfields
    have hfield := hfields name (List.mem_singleton_self name)
    rw [Entries.get?_cons, if_pos rfl] at hfield
    rw [hread record hfield, h.reads]

/-- A field that has to be there is written and read again. -/
theorem required {a : α} (h : Retold read write a) :
    Rereads [name] (fun record => record.required? name read) [(name, write a)] others a :=
  always h fun record hfield => by rw [required?, hfield, Option.bind_some]

/-- A field with a default is written even if it has the default value. -/
theorem orElse {a default : α} (h : Retold read write a) :
    Rereads [name] (fun record => record.orElse? name default read) [(name, write a)] others a :=
  always h fun record hfield => by rw [orElse?, hfield]

/-- A field that is not written: nothing is read in its place. -/
theorem never {read' : Record → Option α} {a : α}
    (hread : ∀ record : Record, record.fields.get? name = none → read' record = some a) :
    Rereads [name] read' [] others a where
  named := List.nil_subperm
  readable := fun _ h => absurd h List.not_mem_nil
  reads := fun _ record _ _ hfields => hread record (hfields name (List.mem_singleton_self name))

/-- A field that is left out stays out, and one that is there is not written as something absent. -/
theorem optional {value : Option α} (hpresent : ∀ a, value = some a →
      (write a).isAbsent .typed = false) (h : ∀ a, value = some a → Retold read write a) :
    Rereads [name] (fun record => record.optional? name read) (optionalField name write value)
      others value := by
  cases value with
  | none => exact never fun record hfield => by rw [optional?, hfield]
  | some a =>
    have hretold := h a rfl
    refine ⟨List.Subperm.refl [name], fun field hfield => ?_, ?_⟩
    · rw [List.mem_singleton.mp hfield]
      exact hretold.readable
    · intro _ record htyped _ hfields
      have hfield := hfields name (List.mem_singleton_self name)
      rw [optionalField, Entries.get?_cons, if_pos rfl] at hfield
      rw [optional?, hfield]
      simp only [htyped, hpresent a rfl, Bool.false_eq_true, if_false]
      rw [hretold.reads, Option.map_some]

/-- A list is left out if it is empty, which is what a reader makes of a list that is left out. -/
theorem list {items : List α} (h : ∀ item ∈ items, Retold read write item) :
    Rereads [name] (fun record => record.orElse? name [] (listOf? .typed read))
      (listField name write items) others items := by
  cases items with
  | nil => exact never fun record hfield => by rw [orElse?, hfield]
  | cons item items => exact orElse (Retold.list h)

/-- A map is left out if it is empty, and has each key once otherwise. -/
theorem entries {m : Entries α} (hkeys : m.keys.Nodup)
    (h : ∀ entry ∈ m, Retold read write entry.2) :
    Rereads [name] (fun record => record.orElse? name [] (entriesOf? .typed read))
      (entriesField name write m) others m := by
  cases m with
  | nil => exact never fun record hfield => by rw [orElse?, hfield]
  | cons entry m => exact orElse (Retold.entries hkeys h)

end Fields

end Rereads

namespace FromJson

variable {α : Type} {known : List String} {record : Record} {name : String}
  {read : Tree → Option α} {write : α → Tree} {others : Entries Tree}

/-- An optional field that has a value was read from a tree of JSON that is not absent. -/
theorem of_optional? (h : FromJson known record) {value : Option α}
    (hread : record.optional? name read = some value) {a : α} (ha : value = some a) :
    ∃ tree : Tree, tree.IsJson ∧ tree.isAbsent .typed = false ∧ read tree = some a := by
  subst ha
  unfold optional? at hread
  split at hread
  · cases hread
  · rename_i tree hfield
    have htree := h.fields _ (Entries.mem_of_get? hfield)
    rw [h.typed] at hread
    split_ifs at hread with habsent
    · cases hread
    · obtain ⟨a', ha', hsame⟩ := Option.map_eq_some_iff.mp hread
      cases hsame
      exact ⟨tree, htree, Bool.eq_false_iff.mpr habsent, ha'⟩

/-- A field with a default has it, or was read from a tree of JSON. -/
theorem of_orElse? (h : FromJson known record) {default a : α}
    (hread : record.orElse? name default read = some a) :
    a = default ∨ ∃ tree : Tree, tree.IsJson ∧ read tree = some a := by
  unfold orElse? at hread
  split at hread
  · exact .inl (Option.some.inj hread).symm
  · rename_i tree hfield
    exact .inr ⟨tree, h.fields _ (Entries.mem_of_get? hfield), hread⟩

/-- An optional field that was read from JSON is read again. -/
theorem optional (h : FromJson known record) (hfaithful : Faithful read write)
    (hpresent : Present write) {value : Option α}
    (hread : record.optional? name read = some value) :
    Rereads [name] (fun record => record.optional? name read) (optionalField name write value)
      others value := by
  refine Rereads.optional (fun a _ => hpresent a) fun a ha => ?_
  obtain ⟨tree, htree, -, hvalue⟩ := h.of_optional? hread ha
  exact hfaithful.retold htree hvalue

/-- A required field that was read from JSON is read again. -/
theorem required (h : FromJson known record) (hfaithful : Faithful read write) {a : α}
    (hread : record.required? name read = some a) :
    Rereads [name] (fun record => record.required? name read) [(name, write a)] others a := by
  obtain ⟨tree, hfield, hvalue⟩ := Option.bind_eq_some_iff.mp hread
  exact Rereads.required (hfaithful.retold (h.fields _ (Entries.mem_of_get? hfield)) hvalue)

/-- A field with a default that was read from JSON is read again, if the default is. -/
theorem orElse (h : FromJson known record) (hfaithful : Faithful read write) {default a : α}
    (hdefault : Retold read write default)
    (hread : record.orElse? name default read = some a) :
    Rereads [name] (fun record => record.orElse? name default read) [(name, write a)] others a := by
  rcases h.of_orElse? hread with rfl | ⟨tree, htree, hvalue⟩
  · exact Rereads.orElse hdefault
  · exact Rereads.orElse (hfaithful.retold htree hvalue)

/-- A list that was read from JSON is read again. -/
theorem list (h : FromJson known record) (hfaithful : Faithful read write) {items : List α}
    (hread : record.orElse? name [] (listOf? .typed read) = some items) :
    Rereads [name] (fun record => record.orElse? name [] (listOf? .typed read))
      (listField name write items) others items := by
  refine Rereads.list fun item hitem => ?_
  rcases h.of_orElse? hread with rfl | ⟨tree, htree, hvalue⟩
  · exact absurd hitem List.not_mem_nil
  · obtain ⟨tree', htree', hvalue'⟩ := htree.of_listOf? hvalue hitem
    exact hfaithful.retold htree' hvalue'

/-- A map that was read from JSON is read again, for a reader leaves each key once. -/
theorem entries (h : FromJson known record) (hfaithful : Faithful read write) {m : Entries α}
    (hread : record.orElse? name [] (entriesOf? .typed read) = some m) :
    Rereads [name] (fun record => record.orElse? name [] (entriesOf? .typed read))
      (entriesField name write m) others m := by
  rcases h.of_orElse? hread with rfl | ⟨tree, htree, hvalue⟩
  · exact Rereads.entries List.nodup_nil fun entry hentry => absurd hentry List.not_mem_nil
  · refine Rereads.entries (entriesOf?_nodup hvalue) fun entry hentry => ?_
    obtain ⟨tree', htree', hvalue'⟩ := htree.of_entriesOf? hvalue hentry
    exact hfaithful.retold htree' hvalue'

end FromJson

/-- A record is written under the names of its fields and of its extensions. -/
theorem keys_written (fields : Entries Tree) (extensions : Extensions) :
    Entries.keys (fields ++ extensionFields extensions) =
      fields.keys ++ Entries.keys extensions := by
  rw [Entries.keys_append, ← Entries.keys_mapValues ofJson extensions]
  rfl

section Whole

variable {α : Type} {known names : List String} {body : Record → Option α}
  {fields : Entries Tree} {extensions : Extensions} {a : α}

/-- The names in a written record are those of its fields and of its extensions. -/
theorem Rereads.mem_keys (h : Rereads names body fields (extensionFields extensions) a)
    (hkept : Kept known extensions) {key : String}
    (hkey : key ∈ Entries.keys (fields ++ extensionFields extensions)) :
    key ∈ names ∨ isExtension key = true := by
  rw [keys_written] at hkey
  rcases List.mem_append.mp hkey with hfield | hextension
  · exact .inl (h.named.subset hfield)
  · obtain ⟨entry, hentry, rfl⟩ := List.mem_map.mp hextension
    exact .inr (hkept.named entry hentry)

/-- No name is written twice: extensions that are kept have no known name. -/
theorem Rereads.nodup_written (h : Rereads names body fields (extensionFields extensions) a)
    (hkept : Kept known extensions) (hnames : names.Nodup) (hknown : names ⊆ known) :
    (Entries.keys (fields ++ extensionFields extensions)).Nodup := by
  rw [keys_written]
  refine List.nodup_append.mpr ⟨h.nodup_keys hnames, hkept.distinct, ?_⟩
  rintro key hfield key' hextension rfl
  obtain ⟨entry, hentry, rfl⟩ := List.mem_map.mp hextension
  exact hkept.unknown entry hentry (hknown (h.named.subset hfield))

/-- The fields and the extensions are told apart when a written record is read. -/
theorem Rereads.reads_written (h : Rereads names body fields (extensionFields extensions) a)
    (hkept : Kept known extensions) (hnames : names.Nodup) (hknown : names ⊆ known) :
    (ofOpen? .typed known (ofFields (fields ++ extensionFields extensions)) >>= body) =
      some a := by
  rw [ofOpen?_ofFields known (h.nodup_written hkept hnames hknown)]
  refine h.reads hnames _ rfl ?_ fun name hname => ?_
  · have hfields : fields.filter (fun field => !known.contains field.1) = [] := by
      refine List.filter_eq_nil_iff.mpr fun field hfield => ?_
      have hmem := hknown (h.named.subset (List.mem_map_of_mem hfield))
      simp [hmem]
    have hothers : (extensionFields extensions).filter (fun field => !known.contains field.1) =
        extensionFields extensions := by
      refine List.filter_eq_self.mpr fun field hfield => ?_
      obtain ⟨entry, hentry, rfl⟩ := List.mem_map.mp hfield
      simp [hkept.unknown entry hentry]
    change (fields ++ extensionFields extensions).filter (fun field => !known.contains field.1) = _
    rw [List.filter_append, hfields, hothers, List.nil_append]
  · have hmem : known.contains name = true := List.contains_iff_mem.mpr (hknown hname)
    have hnone : Entries.get? (extensionFields extensions) name = none := by
      refine Entries.get?_eq_none_iff.mpr fun hkey => ?_
      obtain ⟨field, hfield, rfl⟩ := List.mem_map.mp hkey
      obtain ⟨entry, hentry, rfl⟩ := List.mem_map.mp hfield
      exact hkept.unknown entry hentry (hknown hname)
    rw [Entries.get?_filter hmem, Entries.get?_append, hnone, Option.or_none]

/-- A record whose fields are readable is readable with its extensions. -/
theorem Rereads.isReadable_written
    (h : Rereads names body fields (extensionFields extensions) a)
    (hkept : Kept known extensions) :
    (ofFields (fields ++ extensionFields extensions)).isReadable = true := by
  refine isReadable_ofFields fun field hfield => ?_
  rcases List.mem_append.mp hfield with hown | hextension
  · exact h.readable field hown
  · obtain ⟨entry, hentry, rfl⟩ := List.mem_map.mp hextension
    exact (hkept.values entry hentry).readable

/-- A record without extensions is written as its fields alone. -/
theorem Rereads.reads_fields (h : Rereads names body fields [] a) (hnames : names.Nodup)
    (hknown : names ⊆ known) : (ofOpen? .typed known (ofFields fields) >>= body) = some a := by
  have hkept : Kept known [] :=
    ⟨List.nodup_nil, nofun, nofun, nofun⟩
  have hread : (ofOpen? .typed known (ofFields (fields ++ extensionFields [])) >>= body) = some a :=
    h.reads_written hkept hnames hknown
  rwa [show fields ++ extensionFields [] = fields from List.append_nil fields] at hread

end Whole

end Record

section Whole

open Record

variable {α : Type} {known names : List String} {read : Tree → Option α} {write : α → Tree}
  {body : Record → Option α} {fields : Entries Tree} {extensions : Extensions} {a : α}

/-- An open record is told again when its reader finds again what it asked for, in whatever order
it asks. -/
theorem Tree.Retold.of_names (hread : ∀ tree, read tree = ofOpen? .typed known tree >>= body)
    (hkept : Kept known extensions)
    (reread : Rereads names body fields (extensionFields extensions) a)
    (written : write a = ofFields (fields ++ extensionFields extensions))
    (hnames : names.Nodup) (hknown : names ⊆ known) : Retold read write a where
  reads := by
    rw [hread, written]
    exact reread.reads_written hkept hnames hknown
  readable := written ▸ reread.isReadable_written hkept

/-- **An open record is told again** when its reader asks for the fields in their order. -/
theorem Tree.Retold.of_open (hread : ∀ tree, read tree = ofOpen? .typed known tree >>= body)
    (hknown : known.Nodup) (hkept : Kept known extensions)
    (reread : Rereads known body fields (extensionFields extensions) a)
    (written : write a = ofFields (fields ++ extensionFields extensions)) :
    Retold read write a :=
  .of_names hread hkept reread written hknown (List.Subset.refl known)

/-- **A closed record is told again** when its reader asks for the fields in their order. -/
theorem Tree.Retold.of_positional {needed : Nat}
    (hread : ∀ tree, read tree = ofPositional? .typed known needed tree >>= body)
    (hknown : known.Nodup) (reread : Rereads known body fields [] a)
    (written : write a = ofFields fields) : Retold read write a where
  reads := by
    rw [hread, written, ofPositional?_ofFields]
    exact reread.reads_fields hknown (List.Subset.refl known)
  readable := written ▸ isReadable_ofFields reread.readable

end Whole

end ApiModel
