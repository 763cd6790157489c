import ApiModel.Proofs.Abreast
import ApiModel.Proofs.ErrorBodies
/-!
# Building methods abreast

Parameters, headers, responses and methods are built alike, whether empty classes are admitted or
not, but for two checks of the types of responses.  A body that cannot be read into a model may not
be a composite without bytes, and a hollow body is one if empty classes are admitted.  The schemas
for all headers of a response have to be one composite in the end, and composites that are merged
without empty classes may be apart with them.
-/

namespace ApiModel

namespace Document

/-- The schema for all headers of a response of the operation. -/
def HeadersSchema (d : Document) (site : OperationSite) (x : Located) : Prop :=
  ∃ entry ∈ site.operation.responses, ∃ response,
    d.components.resolveResponse entry.2 = .ok response ∧
    response.headersSchema? = some x.schema ∧
    x.id = site.pointer.descend ["responses", entry.1, Extensions.headersKey]

/-- The body of a response of the operation, where the operation produces nothing that can be read
into a model. -/
def RawBody (d : Document) (site : OperationSite) (x : Located) : Prop :=
  ∃ entry ∈ site.operation.responses, ∃ response produced,
    d.components.resolveResponse entry.2 = .ok response ∧
    response.schema? = some x.schema ∧ x.id = response.bodyPointer site.pointer entry.1 ∧
    Text.sameLetters entry.1 "default" = false ∧
    d.components.producedTypes site.operation = .ok produced ∧ produced ≠ [] ∧
    Build.isDeserializable produced = false

/-- What may keep a build from its end once empty classes are admitted, where the build without
them ends in `last`, and the one with them in `t`. -/
inductive Barred (d : Document) (last : BuildState) : BuildError → BuildState → Prop
  /-- A hollow body stands for binary data, and has no property for it. -/
  | body {t : BuildState} {site : OperationSite} {x y : Located} {operationId name : String}
    (hsite : site ∈ Build.documentSites d) (hid : site.operation.operationId = some operationId)
    (hbody : d.RawBody site x) (hy : d.components.unwrap x.schema x.id = .ok y)
    (hhollow : y.schema.IsHollow) : Barred d last (.missingByteArrayProperty operationId name) t
  /-- Two responses have different composites for all their headers. -/
  | headers {t : BuildState} {site : OperationSite} {x x' y y' : Located} {operationId : String}
    {h h' : CompositeId} (hsite : site ∈ Build.documentSites d)
    (hid : site.operation.operationId = some operationId)
    (hx : d.HeadersSchema site x) (hx' : d.HeadersSchema site x')
    (hy : d.components.unwrap x.schema x.id = .ok y)
    (hy' : d.components.unwrap x'.schema x'.id = .ok y')
    (hlookup : t.builtNodes.lookup y.id = some h) (hlookup' : t.builtNodes.lookup y'.id = some h')
    (hne : h ≠ h') : Barred d last (.invalidResponseHeaders operationId) t
  /-- The name of a parent was proposed for no node, and got by underscores; it is not got now. -/
  | parent {t : BuildState} {b : Begun} {parent : String} (k : Nat) (hb : b ∈ last.begun)
    (hextends : b.node.schema.parentName? = some parent) (hnamed : parent ∈ last.namedTypes.keys)
    (hproposed : ∀ b ∈ last.begun, b.name ≠ parent) (hmissing : parent ∉ t.namedTypes.keys) :
    Barred d last (.invalidAncestors (padded b.name k)) t

end Document

namespace TypePlan

/-- A plan that was carried out stays so while answers are kept. -/
theorem Built.keep {s t : BuildState} {plan : TypePlan} {type : ModelType} (h : plan.Built s type)
    (hst : s.KeepsAnswers t) : plan.Built t type := by
  cases h with
  | plain type => exact .plain type
  | enum hsame => exact .enum hsame
  | sequence x hint element => exact .sequence x hint element
  | dictionary x hint value => exact .dictionary x hint value
  | composite hlookup => exact .composite (hst hlookup)

end TypePlan

namespace Build

open BuildState

/-- The two builds go on abreast, and no composite is under way. -/
abbrev Level (d : Document) (options : Options) (s t : BuildState) : Prop :=
  s.Abreast d options [] [] t

variable {d : Document} {options : Options} {s t : BuildState} {E : BuildError → BuildState → Prop}

section Parameters

/-- A parameter is built if the type of its schema is. -/
theorem buildParameter_relaxed {L : BuildState → BuildState → Prop} {source : SourceParameter}
    (h : L s t)
    (htype : ∀ schema, source.parameter.schema.map
        (withEnumExtension · source.parameter.extensions) = some schema → ∀ name required,
      Relaxed (fun _ _ s' t' => L s' t') E
        (buildType (d.strict options) schema source.schemaId name required)
        (buildType (d.lenient options) schema source.schemaId name required) s t) :
    Relaxed (fun _ _ s' t' => L s' t') E (buildParameter (d.strict options) source)
      (buildParameter (d.lenient options) source) s t := by
  unfold buildParameter
  have hparameterType : Relaxed (fun _ _ s' t' => L s' t') E
      (buildParameterType (d.strict options) source)
      (buildParameterType (d.lenient options) source) s t := by
    unfold buildParameterType
    dsimp only
    cases hschema : source.parameter.schema.map
        (withEnumExtension · source.parameter.extensions) with
    | none =>
      dsimp only
      split_ifs
      · exact .throw
      · exact .pure h
    | some schema =>
      refine (htype schema hschema _ _).bind fun type type' s' t' h' => ?_
      exact .resolving_bind fun target _ => .pure h'
  refine hparameterType.bind fun _ _ s' t' h' => ?_
  exact .get_bind (.pure h')

variable (happart : d.ApartNodes)

include happart

/-- Types are built abreast at the nodes that are visited. -/
theorem buildType_level (h : Level d options s t) {id : Pointer} {schema : Schema}
    (hvisited : d.Visited ⟨id, schema⟩) (name : String) (required : Bool) :
    Relaxed (fun type type' s' t' => Level d options s' t' ∧
        BothBuilt d options ⟨id, schema⟩ name required type type' s' t') E
      (buildType (d.strict options) schema id name required)
      (buildType (d.lenient options) schema id name required) s t :=
  (buildType_relaxed happart h hvisited).mono (fun _ _ _ _ h' => h') fun _ _ he => he.elim

/-- A parameter is built abreast. -/
theorem buildSource_relaxed (h : Level d options s t) {source : SourceParameter}
    (hcall : CalledAt d.VisitedCall source.schemaId source.parameter.valueSchema) :
    Relaxed (fun _ _ s' t' => Level d options s' t') E (buildParameter (d.strict options) source)
      (buildParameter (d.lenient options) source) s t := by
  refine buildParameter_relaxed h fun schema hschema name required => ?_
  obtain ⟨base, hbase, rfl⟩ := Option.map_eq_some_iff.mp hschema
  have hvalue : source.parameter.valueSchema = base := by
    rw [Parameter.valueSchema, hbase, Option.getD_some]
  rw [hvalue] at hcall
  have hvisited := hcall _ name (base.withEnumExtension_dresses source.parameter.extensions)
  exact (buildType_level happart h hvisited name required).mono (fun _ _ _ _ h' => h'.1)
    fun _ _ he => he

omit happart in
/-- The media types of a parameter are chosen alike. -/
theorem chooseContentType_relaxed (h : Level d options s t) (source : SourceParameter)
    (consumed : List String) :
    Relaxed (fun chosen chosen' s' t' => chosen' = chosen ∧ Level d options s' t') E
      (chooseContentType source consumed) (chooseContentType source consumed) s t := by
  unfold chooseContentType
  dsimp only
  split_ifs
  · exact .pure ⟨rfl, h⟩
  · refine .modify_bind (.pure ⟨rfl, ?_⟩)
    exact {
      strict := h.strict.same rfl rfl rfl rfl rfl
      lenient := h.lenient.same rfl rfl rfl rfl rfl
      enumTypes := h.enumTypes
      contentTypes := congrArg (consumed.foldl addNew) h.contentTypes
      methods := h.methods
      begun := h.begun
      others := h.others }
  · exact .pure ⟨rfl, h⟩

theorem buildMethodParameter_relaxed (h : Level d options s t) {source : SourceParameter}
    (hcall : CalledAt d.VisitedCall source.schemaId source.parameter.valueSchema)
    (consumed : List String) :
    Relaxed (fun _ _ s' t' => Level d options s' t') E
      (buildMethodParameter (d.strict options) consumed source)
      (buildMethodParameter (d.lenient options) consumed source) s t := by
  unfold buildMethodParameter
  dsimp only
  split_ifs
  · exact .pure h
  · refine ((chooseContentType_relaxed h source consumed).and_left
      (chooseContentType_ensures source consumed s)).bind ?_
    rintro _ chosen s' t' ⟨⟨-, hid, hdresses⟩, rfl, h'⟩
    have hchosen : CalledAt d.VisitedCall chosen.schemaId chosen.parameter.valueSchema := by
      intro schema name hschema
      rw [hid]
      exact hcall schema name (hschema.trans hdresses)
    exact (buildSource_relaxed happart h' hchosen).bind fun _ _ s' t' h' => .pure h'
  · exact (buildSource_relaxed happart h hcall).bind fun _ _ s' t' h' => .pure h'

theorem buildMethodParameters_relaxed (h : Level d options s t) {sources : List SourceParameter}
    (hcalls : ∀ source ∈ sources,
      CalledAt d.VisitedCall source.schemaId source.parameter.valueSchema)
    (consumed : List String) :
    Relaxed (fun _ _ s' t' => Level d options s' t') E
      (buildMethodParameters (d.strict options) sources consumed)
      (buildMethodParameters (d.lenient options) sources consumed) s t := by
  unfold buildMethodParameters
  refine Relaxed.bind (.mapM (A := fun _ _ => True) (B := fun _ _ => True) h
    fun source hsource s t h => ?_) fun _ _ s' t' ⟨_, _, h'⟩ => .pure h'
  obtain ⟨original, horiginal, hid, hschema⟩ := deduplicate_schema hsource
  refine (buildMethodParameter_relaxed happart h ?_ consumed).mono
    (fun _ _ _ _ h' => ⟨trivial, trivial, h'⟩) fun _ _ he => he
  rw [hid, hschema]
  exact hcalls original horiginal

theorem buildClientProperties_relaxed (h : Level d options s t) :
    Relaxed (fun _ _ s' t' => Level d options s' t') E
      (buildClientProperties (d.strict options)) (buildClientProperties (d.lenient options))
      s t := by
  have hcalls : DocumentCalls (d.strict options) d.VisitedCall := Document.documentCalls_visited
  unfold buildClientProperties
  refine .forM h fun entry hentry s t h => ?_
  dsimp only
  unfold buildClientProperty
  refine .resolving_bind fun target htarget => ?_
  cases target with
  | requestBody body => exact .pure h
  | parameter p =>
    refine (buildSource_relaxed happart h (hcalls.clientProperties entry hentry p htarget)).bind
      fun built built' s' t' h' => ?_
    exact .modify_bind (.pure (h'.unmoved {} {}))

end Parameters

section Contents

/-- What is made of one field is alike in both builds. -/
theorem FieldMade.alike {c : Components} {y : Located} {hint : String} {view : Expanded} {f : Field}
    (hf : f ∈ fields c y hint view) {p p' : Property} (hp : FieldMade (d.strict options) f p)
    (hp' : FieldMade (d.lenient options) f p') :
    p'.serializedName = p.serializedName ∧ p'.forwardTo = p.forwardTo ∧
      p'.type.isKind .byteArray = p.type.isKind .byteArray := by
  obtain ⟨plan, type, hplan, hfits, hfinish⟩ := hp
  obtain ⟨plan', type', hplan', hfits', hfinish'⟩ := hp'
  have hsame : plan'.isBytes = plan.isBytes := by
    rcases planType_lenient hplan with hsame | ⟨y, -, -, rfl, hhollow⟩
    · cases hplan'.symm.trans hsame
      rfl
    · cases hplan'.symm.trans hhollow
      rfl
  obtain ⟨values, -, rfl⟩ | ⟨entry, -, rfl⟩ := field_cases hf
  · cases hfinish
    cases hfinish'
    exact ⟨rfl, rfl, rfl⟩
  · dsimp only at hfinish hfinish'
    unfold finishProperty at hfinish hfinish'
    obtain ⟨target, htarget, rfl⟩ := Except.map_eq_ok_iff.mp hfinish
    obtain ⟨target', htarget', rfl⟩ := Except.map_eq_ok_iff.mp hfinish'
    cases htarget.symm.trans htarget'
    exact ⟨rfl, rfl, by rw [hfits'.isKind_byteArray, hfits.isKind_byteArray, hsame]⟩

/-- The composites of one node are alike in both builds. -/
theorem entered_alike {b b' : Begun} (hb : s.Entered (d.strict options) b)
    (hb' : t.Entered (d.lenient options) b') (hnode : b'.node = b.node) (hname : b'.name = b.name) :
    (t.model.composite b'.slot).aliases = (s.model.composite b.slot).aliases ∧
      (t.model.composite b'.slot).holdsBytes = (s.model.composite b.slot).holdsBytes := by
  obtain ⟨view, hview, hmade⟩ := hb.made
  obtain ⟨view', hview', hmade'⟩ := hb'.made
  rw [hnode] at hview'
  cases hview.symm.trans hview'
  rw [hnode, hname] at hmade'
  have hall (fs : List Field) (hfs : fs ⊆ fields d.components b.node b.name view)
      {ps ps' : List Property} (hps : List.Forall₂ (FieldMade (d.strict options)) fs ps)
      (hps' : List.Forall₂ (FieldMade (d.lenient options)) fs ps') :
      (ps'.map fun p => (p.serializedName, p.forwardTo)) =
        (ps.map fun p => (p.serializedName, p.forwardTo)) ∧
      ps'.any (·.type.isKind .byteArray) = ps.any (·.type.isKind .byteArray) := by
    induction hps generalizing ps' with
    | nil =>
      cases hps'
      exact ⟨rfl, rfl⟩
    | cons hp _ ih =>
      cases hps' with
      | cons hp' hps' =>
        obtain ⟨hf, hrest⟩ := List.cons_subset.mp hfs
        obtain ⟨hserialized, hforward, hbytes⟩ := FieldMade.alike hf hp hp'
        obtain ⟨haliases, hany⟩ := ih hrest hps'
        rw [List.map_cons, List.map_cons, List.any_cons, List.any_cons, haliases, hany,
          hserialized, hforward, hbytes]
        exact ⟨rfl, rfl⟩
  exact hall _ (List.Subset.refl _) hmade hmade'

/-- What the memos answer for one node holds bytes in both builds or in none. -/
theorem Level.holdsBytes_eq (h : Level d options s t) {id : Pointer} {slot slot' : CompositeId}
    (hslot : s.builtNodes.lookup id = some slot) (hslot' : t.builtNodes.lookup id = some slot') :
    (t.model.composite slot').holdsBytes = (s.model.composite slot).holdsBytes := by
  obtain ⟨b, hb, rfl⟩ := h.strict.exists_begun_iff.mpr ⟨slot, hslot⟩
  obtain ⟨b', hb', hnode, hname⟩ := h.begun b hb
  rw [← hnode] at hslot'
  rw [h.strict.holdsBytes_eq hb hslot, h.lenient.holdsBytes_eq hb' hslot']
  exact (entered_alike (h.strict.entered b hb (by simp)) (h.lenient.entered b' hb' (by simp)) hnode
    hname).2

end Contents

section Headers

/-- The type comes of the schema for all headers of a response. -/
def HeaderTyped (d : Document) (options : Options) (site : OperationSite) (type type' : ModelType)
    (t : BuildState) : Prop :=
  ∃ s x name, d.HeadersSchema site x ∧ BothBuilt d options x name false type type' s t

/-- The headers of the responses so far: the classical ones are the same, and each type of a header
schema has one across. -/
structure HeadersAbreast (d : Document) (options : Options) (site : OperationSite)
    (done : Entries (RefOr Response)) (a a' : ResponseHeaders) (t : BuildState) : Prop where
  classical : a'.classical = a.classical
  declared : d.components.classicalHeaders done = .ok a.classical
  nodup : a'.schemas.Nodup
  none_iff : a'.schemas = [] ↔ a.schemas = []
  typed : ∀ type' ∈ a'.schemas, ∃ type ∈ a.schemas, HeaderTyped d options site type type' t

variable {site : OperationSite}

/-- The type of a header schema stays so while answers are kept. -/
theorem HeaderTyped.keep {type type' : ModelType} {u : BuildState}
    (h : HeaderTyped d options site type type' t) (htu : t.KeepsAnswers u) :
    HeaderTyped d options site type type' u := by
  obtain ⟨s, x, name, hx, plan, plan', hplan, hplan', htype, htype'⟩ := h
  exact ⟨s, x, name, hx, plan, plan', hplan, hplan', htype, htype'.keep htu⟩

/-- A list that something was added to is not empty. -/
theorem addNew_ne_nil {α : Type} [DecidableEq α] (l : List α) (a : α) : addNew l a ≠ [] :=
  List.ne_nil_of_mem (mem_addNew.mpr (.inr rfl))

/-- A response with a schema for all its headers adds a type to both. -/
theorem HeadersAbreast.add {done : Entries (RefOr Response)} {entry : String × RefOr Response}
    {a a' : ResponseHeaders} {type type' : ModelType} {u : BuildState}
    (h : HeadersAbreast d options site done a a' t) (htu : t.KeepsAnswers u)
    (hdeclared : d.components.classicalHeaders (done ++ [entry]) = .ok a.classical)
    (htyped : HeaderTyped d options site type type' u) :
    HeadersAbreast d options site (done ++ [entry])
      { a with schemas := addNew a.schemas type } { a' with schemas := addNew a'.schemas type' } u
    where
  classical := h.classical
  declared := hdeclared
  nodup := nodup_addNew h.nodup
  none_iff := iff_of_false (addNew_ne_nil _ _) (addNew_ne_nil _ _)
  typed := by
    intro known hknown
    rcases mem_addNew.mp hknown with hold | rfl
    · obtain ⟨across, hacross, htyped⟩ := h.typed known hold
      exact ⟨across, mem_addNew.mpr (.inl hacross), htyped.keep htu⟩
    · exact ⟨type, mem_addNew.mpr (.inr rfl), htyped⟩

end Headers

section Responses

variable {site : OperationSite} {method : MethodSite} {last : BuildState}
  (happart : d.ApartNodes)

/-- Reading composites moves neither build. -/
theorem composite_bind_relaxed {α β : Type} {Q : α → β → BuildState → BuildState → Prop}
    {id id' : CompositeId} {f : Composite → Build α} {f' : Composite → Build β}
    (h : ∀ s' t', s.Unmoved s' → t.Unmoved t' →
      Relaxed Q E (f (s.model.composite id)) (f' (t.model.composite id')) s' t') :
    Relaxed Q E (composite id >>= f) (composite id' >>= f') s t :=
  h _ _ {} {}

/-- A composite of headers has no aliases. -/
theorem allocate_relaxed (h : Level d options s t) {c c' : Composite}
    (hc : ∀ p ∈ c.properties, p.forwardTo = none) (hc' : ∀ p ∈ c'.properties, p.forwardTo = none) :
    Relaxed (fun _ _ s' t' => Level d options s' t') E (allocate c) (allocate c') s t := by
  intro slot s' hrun
  cases hrun
  exact h.undisturbed (h.strict.allocated hc) (h.lenient.allocated hc') {} {}

include happart

/-- A header is built abreast, and is no alias in either build. -/
theorem buildHeaderProperty_relaxed (h : Level d options s t) {name : String} {header : Header}
    (hcall : CalledAt d.VisitedCall ((method.pointer.child "headers").child name)
      header.valueSchema) :
    Relaxed (fun p p' s' t' => p.forwardTo = none ∧ p'.forwardTo = none ∧ Level d options s' t') E
      (buildHeaderProperty (d.strict options) method name header)
      (buildHeaderProperty (d.lenient options) method name header) s t := by
  unfold buildHeaderProperty
  have hvisited := hcall _ name (Schema.withEnumExtension_dresses _ header.extensions)
  refine (buildType_level happart h hvisited name false).bind fun type type' s' t' ⟨h', _⟩ => ?_
  refine .pure ⟨?_, ?_, h'⟩
  · dsimp only
    split_ifs <;> rfl
  · dsimp only
    split_ifs <;> rfl

/-- The composites of declared headers are built abreast. -/
theorem buildClassicalHeaders_relaxed (h : Level d options s t) {headers : Entries Header}
    (hcalls : ∀ entry ∈ headers, CalledAt d.VisitedCall
      ((method.pointer.child "headers").child entry.1) entry.2.valueSchema) :
    Relaxed (fun _ _ s' t' => Level d options s' t') E
      (buildClassicalHeaders (d.strict options) method headers)
      (buildClassicalHeaders (d.lenient options) method headers) s t := by
  unfold buildClassicalHeaders
  refine Relaxed.bind (.mapM (A := fun _ (p : Property) => p.forwardTo = none)
    (B := fun _ (p : Property) => p.forwardTo = none) h fun entry hentry s t h =>
      buildHeaderProperty_relaxed happart h (hcalls entry hentry)) ?_
  rintro properties properties' s' t' ⟨hproperties, hproperties', h'⟩
  refine allocate_relaxed h' ?_ ?_
  · intro p hp
    obtain ⟨-, -, hnone⟩ := exists_of_forall₂ hproperties p hp
    exact hnone
  · intro p hp
    obtain ⟨-, -, hnone⟩ := exists_of_forall₂ hproperties' p hp
    exact hnone

omit happart in
/-- Headers are followed one by one, or all at once. -/
theorem resolveHeaders_eq (c : Components) (headers : Entries (RefOr Header)) :
    (headers.mapM fun entry => do
      return (entry.1, ← resolving (c.resolveHeader entry.2)) : Build (Entries Header)) =
      resolving (headers.mapM fun entry => do return (entry.1, ← c.resolveHeader entry.2)) := by
  induction headers with
  | nil => rfl
  | cons entry headers ih =>
    rw [List.mapM_cons, List.mapM_cons, ih]
    cases c.resolveHeader entry.2 with
    | error e => rfl
    | ok header =>
      cases headers.mapM fun entry => do return (entry.1, ← c.resolveHeader entry.2) with
      | error e => rfl
      | ok resolved => rfl

/-- Headers of one more response are gathered abreast. -/
theorem addResponseHeaders_relaxed (h : Level d options s t)
    (hsite : site ∈ documentSites d) (hpointer : method.pointer = site.pointer)
    {done : Entries (RefOr Response)} {entry : String × RefOr Response}
    (hentry : entry ∈ site.operation.responses) {response : Response}
    (hresponse : d.components.resolveResponse entry.2 = .ok response) {a a' : ResponseHeaders}
    (ha : HeadersAbreast d options site done a a' t) :
    Relaxed (fun b b' s' t' => HeadersAbreast d options site (done ++ [entry]) b b' t' ∧
        Level d options s' t') E
      (addResponseHeaders (d.strict options) method a entry.1 response)
      (addResponseHeaders (d.lenient options) method a' entry.1 response) s t := by
  have hcalls : DocumentCalls (d.strict options) d.VisitedCall := Document.documentCalls_visited
  have happend := Components.classicalHeaders_append ha.declared hresponse
  unfold addResponseHeaders
  unfold Components.addClassicalHeaders at happend
  cases hextension : Entries.get? response.extensions Extensions.headersKey with
  | some extension =>
    rw [hextension] at happend
    dsimp only at happend ⊢
    cases hschema : Schema.ofTree? .typed (.ofJson extension) with
    | none => exact .throw
    | some schema =>
      have hvisited := hcalls.headerSchemas site hsite entry hentry response hresponse extension
        hextension schema hschema schema (headerTypeName method) (.refl schema)
      rw [← hpointer] at hvisited
      have hspans : BuilderSpans AnyCall KeepsAnswers (buildType (d.lenient options)) :=
        buildType_spans (keepsAnswers_throughout _ AnyCall).toTyping (callsClosed_anyCall _)
      have hkeeps : Spans KeepsAnswers (buildType (d.lenient options) schema
          (method.pointer.descend ["responses", entry.1, Extensions.headersKey])
          (headerTypeName method) false) := hspans false trivial
      refine ((buildType_level happart h hvisited (headerTypeName method) false).and_right
        (hkeeps t)).bind ?_
      rintro type type' s' t' ⟨hkept, h', hbuilt⟩
      refine .pure ⟨ha.add hkept happend ⟨s', _, _, ⟨entry, hentry, response, hresponse, ?_, ?_⟩,
        hbuilt⟩, h'⟩
      · exact Option.bind_eq_some_iff.mpr ⟨extension, hextension, hschema⟩
      · rw [hpointer]
  | none =>
    rw [hextension] at happend
    dsimp only at happend ⊢
    rw [resolveHeaders_eq, resolveHeaders_eq]
    refine .resolving_bind fun resolved hresolved => .pure ⟨?_, h⟩
    exact {
      classical := by rw [ha.classical]
      declared := happend.trans (Except.bind_eq_ok_iff.mpr ⟨resolved, hresolved, rfl⟩)
      nodup := ha.nodup
      none_iff := ha.none_iff
      typed := ha.typed }

omit happart in
/-- A composite comes of a node behind a schema for all headers, in both builds. -/
theorem HeaderTyped.composite {id : CompositeId} {type' : ModelType}
    (h : HeaderTyped d options site (.composite id) type' t) :
    ∃ x y id', d.HeadersSchema site x ∧ d.components.unwrap x.schema x.id = .ok y ∧
      type' = .composite id' ∧ t.builtNodes.lookup y.id = some id' := by
  obtain ⟨s, x, name, hx, plan, plan', hplan, hplan', htype, htype'⟩ := h
  cases htype with
  | composite hlookup =>
    obtain ⟨y, hy, rfl⟩ := composite_of_plan hplan
    rcases planType_lenient hplan with hsame | ⟨-, -, -, hplain, -⟩
    · cases hplan'.symm.trans hsame
      cases htype' with
      | composite hlookup' => exact ⟨x, y, _, hx, hy, rfl, hlookup'⟩
    · cases hplain

omit happart in
/-- Several header types, or one beside classical headers, are refused. -/
theorem headerComposite_fails {input : BuildInput} {a : ResponseHeaders} (hnone : a.schemas ≠ [])
    (hmixed : ∀ id, a.schemas ≠ [.composite id] ∨ a.classical ≠ []) :
    Ensures (headerComposite input method a) s (fun _ _ => False)
      fun e t => e = .invalidResponseHeaders method.serializedName ∧ s.Unmoved t := by
  rw [headerComposite_mixed hnone hmixed]
  exact ⟨rfl, {}⟩

/-- The composite of the headers is found in both builds, or several are in the lenient one. -/
theorem headerComposite_relaxed (h : Level d options s t) (hsite : site ∈ documentSites d)
    (hid : site.operation.operationId = some method.serializedName)
    (hpointer : method.pointer = site.pointer) {a a' : ResponseHeaders}
    (ha : HeadersAbreast d options site site.operation.responses a a' t) :
    Relaxed (fun _ _ s' t' => Level d options s' t') (d.Barred last)
      (headerComposite (d.strict options) method a)
      (headerComposite (d.lenient options) method a') s t := by
  have hcalls : DocumentCalls (d.strict options) d.VisitedCall := Document.documentCalls_visited
  obtain ⟨types, classical⟩ := a
  obtain ⟨types', classical'⟩ := a'
  obtain ⟨rfl, hdeclared, hnodup, hnone, htyped⟩ := ha
  dsimp only at hdeclared hnodup hnone htyped
  cases types with
  | nil =>
    obtain rfl := hnone.mpr rfl
    have hheaders := hcalls.headers site hsite classical' hdeclared
    rw [← hpointer] at hheaders
    exact buildClassicalHeaders_relaxed happart h hheaders
  | cons type types =>
    by_cases hsingle : ∃ id, type :: types = [.composite id] ∧ classical' = []
    · obtain ⟨id, heq, rfl⟩ := hsingle
      rw [heq] at htyped ⊢
      have hcomposite (type' : ModelType) (htype' : type' ∈ types') :
          HeaderTyped d options site (.composite id) type' t := by
        obtain ⟨across, hacross, h⟩ := htyped type' htype'
        rwa [List.mem_singleton.mp hacross] at h
      obtain ⟨first, rest, rfl⟩ :=
        List.exists_cons_of_ne_nil fun hnil => List.cons_ne_nil _ _ (hnone.mp hnil)
      obtain ⟨x, y, id', hx, hy, rfl, hlookup⟩ := (hcomposite first List.mem_cons_self).composite
      cases rest with
      | nil => exact .pure h
      | cons second rest =>
        obtain ⟨x₂, y₂, id₂, hx₂, hy₂, rfl, hlookup₂⟩ :=
          (hcomposite second (.tail _ List.mem_cons_self)).composite
        have hne : id' ≠ id₂ := by
          rintro rfl
          exact (List.nodup_cons.mp hnodup).1 List.mem_cons_self
        intro _ _ _
        refine (headerComposite_fails (List.cons_ne_nil _ _) fun id => ?_).mono
          (fun _ _ hfalse => hfalse.elim) ?_
        · exact .inl (by simp)
        · rintro _ t' ⟨rfl, ht⟩
          rw [← ht.builtNodes] at hlookup hlookup₂
          exact .headers hsite hid hx hx₂ hy hy₂ hlookup hlookup₂ hne
    · have hmixed (id : CompositeId) : type :: types ≠ [.composite id] ∨ classical' ≠ [] := by
        by_contra hboth
        simp only [not_or, not_not] at hboth
        exact hsingle ⟨id, hboth⟩
      intro _ _ hrun
      exact ((headerComposite_fails (List.cons_ne_nil _ _) hmixed).of_run_ok hrun).elim

/-- The headers of a method are built abreast, unless schemas that were merged are apart now. -/
theorem buildResponseHeaders_relaxed (h : Level d options s t) (hsite : site ∈ documentSites d)
    (hoperation : method.operation = site.operation)
    (hid : site.operation.operationId = some method.serializedName)
    (hpointer : method.pointer = site.pointer) :
    Relaxed (fun _ _ s' t' => Level d options s' t') (d.Barred last)
      (buildResponseHeaders (d.strict options) method)
      (buildResponseHeaders (d.lenient options) method) s t := by
  unfold buildResponseHeaders
  rw [hoperation]
  have hinit : HeadersAbreast d options site [] {} {} t :=
    ⟨rfl, rfl, List.nodup_nil, Iff.rfl, by simp⟩
  refine Relaxed.bind (.foldlM (I := fun done a a' s t =>
    HeadersAbreast d options site done a a' t ∧ Level d options s t) ⟨hinit, h⟩ ?_) ?_
  · rintro done entry rest hsplit a a' s t ⟨ha, h⟩
    have hentry : entry ∈ site.operation.responses := by
      rw [hsplit]
      exact List.mem_append_right _ List.mem_cons_self
    exact .resolving_bind fun response hresponse =>
      addResponseHeaders_relaxed happart h hsite hpointer hentry hresponse ha
  · rintro a a' s t ⟨ha, h⟩
    refine (headerComposite_relaxed happart h hsite hid hpointer ha).bind fun id id' s t h => ?_
    refine composite_bind_relaxed fun s' t' hs ht => ?_
    split_ifs
    all_goals exact .pure (h.unmoved hs ht)

/-- A body is built in both builds, but for a hollow one that nothing can be read from. -/
theorem buildResponseBody_relaxed (h : Level d options s t) (hsite : site ∈ documentSites d)
    (hid : site.operation.operationId = some method.serializedName)
    {entry : String × RefOr Response} (hentry : entry ∈ site.operation.responses)
    {response : Response} (hresponse : d.components.resolveResponse entry.2 = .ok response)
    (hdefault : Text.sameLetters entry.1 "default" = false) {produced : List String}
    (hproduced : d.components.producedTypes site.operation = .ok produced) :
    Relaxed (fun _ _ s' t' => Level d options s' t') (d.Barred last)
      (buildResponseBody (d.strict options) method entry.1 response.schema?
        (response.bodyPointer site.pointer entry.1) produced)
      (buildResponseBody (d.lenient options) method entry.1 response.schema?
        (response.bodyPointer site.pointer entry.1) produced) s t := by
  have hcalls : DocumentCalls (d.strict options) d.VisitedCall := Document.documentCalls_visited
  unfold buildResponseBody
  cases hschema : response.schema? with
  | none => exact .pure h
  | some schema =>
    have hvisited := hcalls.bodies site hsite entry hentry response hresponse schema hschema schema
      (schema.typeNameOr (method.name ++ entry.1 ++ "Response")) (.refl schema)
    dsimp only
    split_ifs with hreadable hproduces
    · exact (buildType_level happart h hvisited _ false).bind fun _ _ s' t' ⟨h', _⟩ => .pure h'
    · refine (buildType_level happart h hvisited _ false).bind ?_
      rintro type type' s' t' ⟨h', plan, plan', hplan, hplan', htype, htype'⟩
      rcases planType_lenient hplan with hsame | ⟨y, hy, hhollow, rfl, hcomposite⟩
      · cases hplan'.symm.trans hsame
        cases htype <;> cases htype'
        case composite.composite slot hslot slot' hslot' =>
          refine composite_bind_relaxed fun s'' t'' hs ht => ?_
          have hbytes := h'.holdsBytes_eq hslot hslot'
          unfold Composite.holdsBytes at hbytes
          rw [hbytes]
          split_ifs
          · exact .pure (h'.unmoved hs ht)
          · exact .throw
        all_goals exact .pure h'
      · cases hplan'.symm.trans hcomposite
        cases htype
        cases htype' with
        | composite hslot =>
          have hbody : d.RawBody site ⟨response.bodyPointer site.pointer entry.1, schema⟩ :=
            ⟨entry, hentry, response, produced, hresponse, hschema, rfl, hdefault, hproduced,
              by simpa using hproduces, by simpa using hreadable⟩
          intro _ s'' hrun
          cases hrun
          rw [ensures_bind]
          show Ensures (ite _ _ _) _ _ _
          split_ifs
          · exact h'.unmoved {} {}
          · exact .body hsite hid hbody hy hhollow
    · refine .resolving_bind fun node _ => .resolving_bind fun view _ => ?_
      split_ifs
      · exact .pure h
      · exact .silent_bind (.report _) (.report _) fun _ _ _ _ => .throw

/-- A response is built abreast, unless its body is hollow and has to show bytes. -/
theorem buildResponse_relaxed (h : Level d options s t) (hsite : site ∈ documentSites d)
    (hid : site.operation.operationId = some method.serializedName)
    (hpointer : method.pointer = site.pointer) {entry : String × RefOr Response}
    (hentry : entry ∈ site.operation.responses) {response : Response}
    (hresponse : d.components.resolveResponse entry.2 = .ok response) {produced : List String}
    (hproduced : d.components.producedTypes site.operation = .ok produced)
    (headers headers' : Option CompositeId) (built built' : BuiltResponses) :
    Relaxed (fun _ _ s' t' => Level d options s' t') (d.Barred last)
      (buildResponse (d.strict options) method produced headers built entry.1 response)
      (buildResponse (d.lenient options) method produced headers' built' entry.1 response) s t := by
  have hcalls : DocumentCalls (d.strict options) d.VisitedCall := Document.documentCalls_visited
  unfold buildResponse
  dsimp only
  rw [hpointer]
  by_cases hdefault : Text.sameLetters entry.1 "default" = true
  · rw [if_pos hdefault, if_pos hdefault]
    cases isDeserializable produced with
    | false => exact .pure h
    | true =>
      cases hschema : response.schema? with
      | none => exact .pure h
      | some schema =>
        have hvisited := hcalls.bodies site hsite entry hentry response hresponse schema hschema
          schema (schema.typeNameOr (method.name ++ "ErrorModel")) (.refl schema)
        refine (buildType_level happart h hvisited _ false).bind fun _ _ s' t' ⟨h', _⟩ => ?_
        exact .silent_bind (.addErrorBodies _) (.addErrorBodies _) fun _ _ hs ht =>
          .pure (h'.unmoved hs ht)
  · rw [if_neg hdefault, if_neg hdefault]
    refine (buildResponseBody_relaxed happart h hsite hid hentry hresponse
      (Bool.eq_false_iff.mpr hdefault) hproduced).bind fun _ _ s' t' h' => ?_
    split_ifs
    · exact .silent_bind (.addErrorBodies _) (.addErrorBodies _) fun _ _ hs ht =>
        .pure (h'.unmoved hs ht)
    · exact .pure h'

/-- The responses of a method are built abreast, unless one of them is barred. -/
theorem buildResponses_relaxed (h : Level d options s t) (hsite : site ∈ documentSites d)
    (hoperation : method.operation = site.operation)
    (hid : site.operation.operationId = some method.serializedName)
    (hpointer : method.pointer = site.pointer) {produced : List String}
    (hproduced : d.components.producedTypes site.operation = .ok produced)
    (headers headers' : Option CompositeId) :
    Relaxed (fun _ _ s' t' => Level d options s' t') (d.Barred last)
      (buildResponses (d.strict options) method produced headers)
      (buildResponses (d.lenient options) method produced headers') s t := by
  unfold buildResponses
  rw [hoperation]
  refine .foldlM (I := fun _ _ _ s t => Level d options s t) h ?_
  intro done entry rest hsplit built built' s t h
  have hentry : entry ∈ site.operation.responses := by
    rw [hsplit]
    exact List.mem_append_right _ List.mem_cons_self
  exact .resolving_bind fun response hresponse => buildResponse_relaxed happart h hsite hid
    hpointer hentry hresponse hproduced headers headers' built built'

end Responses

section Methods

variable {last : BuildState} (happart : d.ApartNodes)

include happart

/-- The methods of one operation are twins. -/
theorem buildMethod_relaxed (h : Level d options s t) {site : OperationSite}
    (hsite : site ∈ documentSites d) {operationId : String}
    (hid : site.operation.operationId = some operationId) (group : Option String) (name : String) :
    Relaxed (fun m m' s' t' => m.Twin m' ∧ Level d options s' t') (d.Barred last)
      (buildMethod (d.strict options) site operationId group name)
      (buildMethod (d.lenient options) site operationId group name) s t := by
  have hcalls : DocumentCalls (d.strict options) d.VisitedCall := Document.documentCalls_visited
  unfold buildMethod
  refine .resolving_bind fun consumed _ => .resolving_bind fun produced hproduced =>
    .resolving_bind fun sources hsources => ?_
  refine (buildMethodParameters_relaxed happart h (hcalls.parameters site hsite sources hsources)
    consumed).bind fun _ _ s t h => ?_
  refine (buildResponseHeaders_relaxed happart h hsite rfl hid rfl).bind
    fun headers headers' s t h => ?_
  refine (buildResponses_relaxed happart h hsite rfl hid rfl hproduced headers headers').bind
    fun _ _ s t h => ?_
  refine .get_bind (.silent_bind (.touch _) (.touch _) fun s' t' hs ht => ?_)
  refine .silent_bind (.forM .addHeaderType _) (.forM .addHeaderType _) fun _ _ hs' ht' => ?_
  exact .pure ⟨⟨rfl, rfl, rfl, rfl⟩, h.unmoved (hs.trans hs') (ht.trans ht')⟩

/-- A method is added abreast, unless it is barred. -/
theorem addMethod_relaxed (h : Level d options s t) {site : OperationSite}
    (hsite : site ∈ documentSites d) :
    Relaxed (fun _ _ s' t' => Level d options s' t') (d.Barred last)
      (addMethod (d.strict options) site) (addMethod (d.lenient options) site) s t := by
  unfold addMethod
  split_ifs
  · exact .modify_bind (.pure (h.unmoved {} {}))
  · cases hid : site.operation.operationId.filter (!Text.isBlankText ·) with
    | none => exact .throw
    | some operationId =>
      dsimp only
      refine .get_bind ?_
      rw [taken_eq h.methods]
      split_ifs
      · exact .throw
      · have hdeclared := (Option.filter_eq_some_iff.mp hid).1
        refine (buildMethod_relaxed happart h hsite hdeclared _ _).bind ?_
        rintro m m' s' t' ⟨hm, h'⟩
        refine .modify_bind (.pure ?_)
        exact {
          strict := h'.strict.same rfl rfl rfl rfl rfl
          lenient := h'.lenient.same rfl rfl rfl rfl rfl
          enumTypes := h'.enumTypes
          contentTypes := h'.contentTypes
          methods := List.rel_append h'.methods (.cons hm .nil)
          begun := h'.begun
          others := h'.others }

/-- **The methods are built abreast**, unless one of them is barred. -/
theorem buildMethods_relaxed (h : Level d options s t) :
    Relaxed (fun _ _ s' t' => Level d options s' t') (d.Barred last)
      (buildMethods (d.strict options)) (buildMethods (d.lenient options)) s t :=
  .forM h fun _ hsite _ _ h => addMethod_relaxed happart h hsite

end Methods

end Build

end ApiModel
