import ApiModel.Proofs.Links
/-!
# Building the parameters of the host name

The last phase builds parameters after the aliases are settled.  It is harmless because a
variable of an address is a text: its type is an enum or a primitive, which takes no slot
and leaves no alias behind.
-/

namespace ApiModel

namespace Schema

/-- The schema of a text: an enum or a primitive. -/
structure IsText (s : Schema) : Prop where
  types : s.types = some (.single .string)
  allOf : s.allOf = []

variable {s : Schema}

/-- A text is a string. -/
theorem IsText.dataType (hs : s.IsText) : s.dataType? = some .string := by
  simp [dataType?, hs.types]

/-- A text is no reference. -/
theorem IsText.bareReference (hs : s.IsText) : s.bareReference? = none := by
  simp [bareReference?, isStructural, hasShape, hs.types]

/-- A text wraps nothing. -/
theorem IsText.wrapped (hs : s.IsText) : s.wrapped? = none := by
  simp [wrapped?, hs.allOf]

/-- A text is a primitive, whether empty classes are admitted or not. -/
theorem IsText.shape (hs : s.IsText) (empty : Bool) : s.shape empty = .primitive := by
  simp [Schema.shape, hs.dataType]

end Schema

namespace Build

variable {input : BuildInput} {st : BuildState}

/-- What a text leaves behind: a type without handles, and at most one more enum. -/
def TextBuilt (st : BuildState) (type : ModelType) (t : BuildState) : Prop :=
  type.handles = [] ∧ ∃ enums, t = st.withEnums enums

/-- Building a text lists an enum at most, and fails for what is wrong with the text itself. -/
theorem buildPrimitive_text {s : Schema} (hs : s.IsText) (inner : TypeBuilder) (id : Pointer)
    (name : String) (required : Bool) :
    Ensures (buildPrimitive inner s id name required) st (TextBuilt st)
      fun e t => t = st ∧ e.isLocal = true := by
  have harray : ¬ (s.dataType? == some .array) = true := by simp [hs.dataType]
  have hobject : s.admitsType [.object] = false := by simp [Schema.admitsType, hs.dataType]
  unfold buildPrimitive
  rw [if_neg harray, hobject]
  split_ifs
  · exact ⟨rfl, rfl⟩
  · rw [ensures_bind]
    exact (buildEnum_ensures s name st).mono (fun _ _ henums => ⟨rfl, henums⟩) fun _ _ he => he
  · cases hprimitive : s.primitive name with
    | error e => exact ⟨rfl, primitive_error hprimitive⟩
    | ok type => exact ⟨rfl, st.model.enumTypes, rfl⟩

/-- The type of a text holds no handle and takes none. -/
theorem buildType_text {s : Schema} (hs : s.IsText) (id : Pointer) (name : String)
    (required : Bool) :
    Ensures (buildType input s id name required) st (TextBuilt st)
      fun e t => t = st ∧ e.isLocal = true := by
  have hunwrap : input.components.unwrap s id = .ok ⟨id, s⟩ :=
    Components.unwrap_self id hs.bareReference hs.wrapped
  have hdocumented : documentedBy s s = s := by
    simp [documentedBy, Schema.isBareReference, hs.bareReference]
  have hlayers : ∃ layers, layersFor input.components s = layers + 1 :=
    Nat.exists_eq_succ_of_ne_zero (Nat.mul_ne_zero (by omega) (by omega))
  obtain ⟨layers, hlayers⟩ := hlayers
  unfold buildType
  rw [hlayers, typeBuilder, layer]
  simp only [hunwrap, resolving, pure_bind, hdocumented, hs.shape]
  split_ifs
  · exact ⟨rfl, rfl⟩
  · exact buildPrimitive_text hs _ _ _ _

/-- A parameter of the host name: its type has no handles, and it may name a property of the
client. -/
def HostBuilt (clientProperties : Nat) (p : MethodParameter) : Prop :=
  p.type.handles = [] ∧
    ∀ index, p.clientProperty = some index → index < clientProperties

/-- A text with a declared enum is a text. -/
theorem withEnumExtension_text {s : Schema} (hs : s.IsText) (declared : Extensions) :
    (withEnumExtension s declared).IsText := by
  unfold withEnumExtension
  split
  · split_ifs
    · exact hs
    · exact ⟨hs.types, hs.allOf⟩
  · exact hs

/-- A parameter of the host name holds no handle, and a client property that it names is there. -/
theorem buildHostParameter_ensures (name : String) (v : ServerVariable) :
    Ensures (buildHostParameter input name v) st
      (fun p t => HostBuilt st.model.properties.length p ∧ ∃ enums, t = st.withEnums enums)
      fun e t => t = st ∧ e.isLocal = true := by
  obtain ⟨schema, hschema, htext⟩ : ∃ schema,
      (hostSource name v).parameter.schema.map
        (withEnumExtension · (hostSource name v).parameter.extensions) = some schema ∧
      schema.IsText :=
    ⟨_, rfl, withEnumExtension_text ⟨rfl, rfl⟩ _⟩
  have hunwrap : input.components.unwrap schema (hostSource name v).schemaId =
      .ok ⟨(hostSource name v).schemaId, schema⟩ :=
    Components.unwrap_self _ htext.bareReference htext.wrapped
  unfold buildHostParameter buildParameter buildParameterType
  simp only [hschema, hunwrap, resolving, pure_bind, bind_assoc]
  rw [ensures_bind]
  refine (buildType_text htext _ _ _).mono ?_ fun _ _ he => he
  rintro type t ⟨htype, enums, rfl⟩
  refine ⟨⟨htype, ?_⟩, enums, rfl⟩
  intro index hindex
  exact lt_of_findIdx? hindex

end Build

namespace CodeModel

/-- The parameters of the host name lead into the arena. -/
theorem Closed.hostHandles {m : CodeModel} (hm : m.Closed) {p : MethodParameter}
    (hp : p ∈ m.hostParametersFront ++ m.hostParametersBack) :
    Within m.types.size p.type.handles := by
  have hhandles := hm.handles
  simp only [CodeModel.handles, Within.append_iff, Within.flatMap_iff] at hhandles
  exact hhandles.1.1.1.1.2 p hp

/-- Parameters of the host name, new ones or those that were there, keep the model closed. -/
theorem Closed.withHostParameters {m : CodeModel} (hm : m.Closed)
    {front back : List MethodParameter}
    (hps : ∀ p ∈ front ++ back, p ∈ m.hostParametersFront ++ m.hostParametersBack ∨
      Build.HostBuilt m.properties.length p) :
    Closed { m with hostParametersFront := front, hostParametersBack := back } := by
  refine { hm with handles := ?_, clientProperties := ?_ }
  · have hhandles := hm.handles
    simp only [CodeModel.handles, Within.append_iff] at hhandles ⊢
    have hhost : Within m.types.size ((front ++ back).flatMap (·.type.handles)) := by
      rw [Within.flatMap_iff]
      intro p hp
      rcases hps p hp with hold | hnew
      · exact hm.hostHandles hold
      · rw [hnew.1]
        exact Within.nil
    exact ⟨⟨⟨⟨⟨hhandles.1.1.1.1.1, hhost⟩, hhandles.1.1.1.2⟩, hhandles.1.1.2⟩, hhandles.1.2⟩,
      hhandles.2⟩
  · intro p hp
    simp only [allParameters, List.append_assoc] at hp
    have hold : ∀ p ∈ m.allParameters, ∀ index, p.clientProperty = some index →
        index < m.properties.length := hm.clientProperties
    simp only [allParameters, List.append_assoc] at hold
    rcases List.mem_append.mp hp with hmethods | hhost
    · exact hold p (List.mem_append_left _ hmethods)
    · rcases hps p hhost with hhost | hnew
      · exact hold p (List.mem_append_right _ hhost)
      · exact hnew.2

end CodeModel

namespace Build

/-- **The parameters of the host name keep what the wiring has settled.** -/
theorem buildHostParameters_ensures {s t : BuildState} (ht : s.Concluding t ∧ s.Wired t) :
    Ensures (buildHostParameters input) t (fun _ u => s.Concluding u ∧ s.Wired u) Ended := by
  unfold buildHostParameters
  cases input.document.servers.head? with
  | none => exact ht
  | some server =>
    dsimp only
    by_cases hvariables : server.templateVariables.isEmpty = true
    · rw [if_pos hvariables]
      exact ht
    rw [if_neg hvariables, ensures_bind, ensures_modifyModel, ensures_bind]
    set flagged : BuildState := { t with model := { t.model with
      extensions := Entries.insert t.model.extensions Extensions.parameterizedHostKey
        (.bool true) } } with hflagged
    have hclosed : flagged.model.Closed := { ht.1.closed with }
    refine (ensures_mapM (I := fun u => ∃ enums, u = flagged.withEnums enums)
      (R := HostBuilt t.model.properties.length) (E := Ended)
      ⟨flagged.model.enumTypes, rfl⟩ ?_).mono ?_ fun _ _ he => he
    · rintro ⟨name, v⟩ - _ ⟨enums, rfl⟩
      refine (buildHostParameter_ensures name v).mono ?_ ?_
      · rintro p _ ⟨hp, enums', rfl⟩
        exact ⟨⟨enums', rfl⟩, hp⟩
      · rintro e _ ⟨rfl, he⟩
        exact ⟨ht.1.stray, he⟩
    · rintro built _ ⟨⟨enums, rfl⟩, hbuilt⟩
      have hclosed' : (flagged.withEnums enums).model.Closed := { hclosed with }
      split_ifs
      · refine ⟨{ ht.1 with closed := hclosed'.withHostParameters fun p hp => ?_ }, ht.2⟩
        rcases List.mem_append.mp hp with hnew | hold
        · exact .inr (hbuilt p (List.mem_reverse.mp hnew))
        · exact .inl (List.mem_append_right _ hold)
      · refine ⟨{ ht.1 with closed := hclosed'.withHostParameters fun p hp => ?_ }, ht.2⟩
        rcases List.mem_append.mp hp with hold | hnew
        · exact .inl (List.mem_append_left _ hold)
        · exact .inr (hbuilt p hnew)
      · exact ⟨ht.1.stray, rfl⟩

end Build

end ApiModel
