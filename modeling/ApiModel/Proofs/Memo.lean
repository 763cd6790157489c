import ApiModel.Proofs.ReachedNodes
import ApiModel.Proofs.Runs
/-!
# What the memo answers

A build notes for every node that it begins which composite it is, by the pointer of the node, and
later takes the answer for the node.  An entry is written for a node when its composite is begun,
and again when an equal composite takes its place; so the answer for a pointer is always the
composite of a node that was handed over with this pointer.  Where component parameters and request
bodies have plain names there is no other node with the pointer.  A slash in such a name breaks
this.
-/

namespace ApiModel

namespace BuildState

/-- The composite is the one that was begun, or the one that has been given its name. -/
def AnswersFor (s : BuildState) (b : Begun) (h : CompositeId) : Prop :=
  b.slot = h ∨ ∃ k, s.namedTypes.get? (padded b.name k) = some h

/-- Composites are begun for nodes of the kind `H` alone, and an answer of the memo is for a node
that was begun under the pointer. -/
structure MemoSound (H : Located → Prop) (s : BuildState) : Prop where
  nodes : ∀ b ∈ s.begun, H b.node
  answers : ∀ {id : Pointer} {h : Nat}, (id, h) ∈ s.builtNodes →
    ∃ b ∈ s.begun, b.node.id = id ∧ s.AnswersFor b h

/-- What was begun stays begun, and the memo stays sound. -/
def KeepsMemo (H : Located → Prop) (s t : BuildState) : Prop :=
  s.begun ⊆ t.begun ∧ (s.MemoSound H → t.MemoSound H)

variable {H : Located → Prop} {s t : BuildState} {b : Begun} {h : CompositeId}

/-- A composite that answers for a node does so as long as names lead where they did. -/
theorem AnswersFor.keep (hs : s.AnswersFor b h)
    (hnamed : ∀ {name : String} {h : Nat}, s.namedTypes.get? name = some h →
      t.namedTypes.get? name = some h) : t.AnswersFor b h :=
  hs.imp_right fun ⟨k, hk⟩ => ⟨k, hnamed hk⟩

/-- Writes that leave the begun composites, the memo and the names alone. -/
theorem KeepsMemo.same (hbegun : t.begun = s.begun) (hbuilt : t.builtNodes = s.builtNodes)
    (hnamed : t.namedTypes = s.namedTypes) : s.KeepsMemo H t := by
  refine ⟨hbegun ▸ List.Subset.refl _, fun hs => ⟨hbegun ▸ hs.nodes, fun {id h} hmem => ?_⟩⟩
  rw [hbuilt] at hmem
  obtain ⟨b, hb, hid, hanswers⟩ := hs.answers hmem
  exact ⟨b, hbegun ▸ hb, hid, hanswers.keep fun hname => hnamed ▸ hname⟩

/-- Beginning a new node keeps the memo sound. -/
theorem MemoSound.reserved (hs : s.MemoSound H) {node : Located} {name : String}
    (hnode : H node) : (s.reserved node name).MemoSound H where
  nodes b hb := by
    rcases List.mem_append.mp hb with hold | hnew
    · exact hs.nodes b hold
    · rw [List.mem_singleton.mp hnew]
      exact hnode
  answers hmem := by
    rcases List.mem_cons.mp hmem with heq | hold
    · cases heq
      exact ⟨⟨s.size, node, name⟩, List.mem_append_right _ List.mem_cons_self, rfl, .inl rfl⟩
    · obtain ⟨b, hb, hid, hanswers⟩ := hs.answers hold
      exact ⟨b, List.mem_append_left _ hb, hid, hanswers⟩

/-- An equal composite takes the place of one that was begun under the name proposed for both. -/
theorem MemoSound.registered (ht : t.MemoSound H) (hb : b ∈ t.begun) {composite : Composite}
    (hname : composite.name = b.name) {parent : Option String} {k : Nat}
    {existing? : Option CompositeId}
    (hfits : Build.Fits t parent (padded composite.name k) existing?) {slot : CompositeId} :
    (t.registered slot b.node.id composite parent (padded composite.name k) existing?).MemoSound
      H where
  nodes := ht.nodes
  answers {id h} hmem := by
    have hcases : (id, h) ∈ t.builtNodes ∨ (id = b.node.id ∧ existing? = some h) := by
      cases existing? with
      | none => exact .inl hmem
      | some existing =>
        rcases List.mem_cons.mp hmem with heq | hold
        · cases heq
          exact .inr ⟨rfl, rfl⟩
        · exact .inl hold
    rcases hcases with hold | ⟨rfl, rfl⟩
    · obtain ⟨b', hb', hid, hanswers⟩ := ht.answers hold
      exact ⟨b', hb', hid, hanswers.keep fun hnamed => named_registered_of_named hfits hnamed⟩
    · exact ⟨b, hb, rfl, .inr ⟨k, hname ▸ named_registered⟩⟩

end BuildState

namespace Build

variable {d : Document} {options : Options}

/-- A call for a node that is reached begins a composite for one that is reached. -/
theorem reached_of_called (hd : d.DistinctNames) {b : Begun}
    (h : b.Called ⟨d, options⟩ (ReachedCall d)) : d.Reached b.node := by
  obtain ⟨x, name, y, hx, hy, hnode, -⟩ := h
  obtain ⟨base, hreaches, hrestates⟩ := (Document.reached_hereditary hd).unwrap hx hy
  rw [hnode]
  exact ⟨base, hreaches, (Schema.documentedBy_restates _ _).trans hrestates⟩

/-- **The memo stays sound** over every stretch of a build, however the stretch ends. -/
theorem keepsMemo_throughout (hd : d.DistinctNames) :
    Throughout ⟨d, options⟩ (ReachedCall d) (BuildState.KeepsMemo d.Reached) where
  trans hst htu := ⟨List.Subset.trans hst.1 htu.1, fun hs => htu.2 (hst.2 hs)⟩
  enum _ _ := .same rfl rfl rfl
  quiet hquiet := .same hquiet.begun hquiet.builtNodes hquiet.namedTypes
  errors _ _ _ := .same rfl rfl rfl
  headers _ _ := .same rfl rfl rfl
  methods _ _ := .same rfl rfl rfl
  reserved _ hcalled :=
    ⟨List.subset_append_left _ _, fun hs => hs.reserved (reached_of_called hd hcalled)⟩
  filled {s t node composite parent k existing?} _ hcalled _ hst hfits := by
    refine ⟨fun b hb => hst.1 (List.mem_append_left _ hb), fun hs => ?_⟩
    have hsound := hst.2 (hs.reserved (reached_of_called hd hcalled))
    have hbegun : ⟨s.size, node, composite.name⟩ ∈ t.begun :=
      hst.1 (List.mem_append_right _ List.mem_cons_self)
    exact hsound.registered hbegun rfl hfits

end Build

namespace Document

variable {d : Document}

/-- A run ends with a sound memo. -/
theorem run_memoSound (hd : d.DistinctNames) (hplain : d.PlainNames) (options : Options) :
    (d.run options).2.MemoSound d.Reached := by
  obtain ⟨m, hkeeps⟩ := run_spans options (Build.keepsMemo_throughout hd)
    ⟨fun _ _ => .same rfl rfl rfl, fun _ _ _ => .same rfl rfl rfl⟩ (fun _ _ => .same rfl rfl rfl)
    (Build.documentCalls_reached hd hplain)
  exact hkeeps.2 ⟨fun _ hb => absurd hb List.not_mem_nil, fun hmem => absurd hmem List.not_mem_nil⟩

/-- **The memo answers for the node that is asked for**, in every document whose component
parameters and request bodies have plain names.  Different paths along which a build reaches
schemas have different pointers.  All the calls that the document makes are for schemas that are
reached, under the pointers of their paths, and this is still so after unwrapping.  An answer that
the memo gives for a schema is the composite that was begun for this very schema, or the one that
has been given its name; and where the run succeeds, what was begun for the schema describes it. -/
theorem memo_sound (hd : d.DistinctNames) (hplain : d.PlainNames) (options : Options) :
    (∀ path path' base base', d.reached? path = some base → d.reached? path' = some base' →
      Pointer.written path = .written path' → path = path') ∧
    Build.DocumentCalls ⟨d, options⟩ (Build.ReachedCall d) ∧
    (∀ x y, d.Reached x → d.components.unwrap x.schema x.id = .ok y → d.Reached y) ∧
    ∀ path base h, d.reached? path = some base →
      (Pointer.written path, h) ∈ (d.run options).2.builtNodes →
      ∃ b ∈ (d.run options).2.begun, b.node.id = .written path ∧ b.node.schema.Restates base ∧
        (d.run options).2.AnswersFor b h ∧
        ((d.run options).1 = .ok () → b.Described ⟨d, options⟩ (d.run options).2) := by
  refine ⟨fun _ _ _ _ => written_reached_inj hplain, Build.documentCalls_reached hd hplain,
    fun x y hx hy => (reached_hereditary hd).unwrap hx hy, fun path base h hpath hmem => ?_⟩
  have hsound := run_memoSound hd hplain options
  obtain ⟨b, hb, hid, hanswers⟩ := hsound.answers hmem
  obtain ⟨base', ⟨path', hpath', hwritten⟩, hrestates⟩ := hsound.nodes b hb
  -- the node was begun under the pointer of its own path, which is the one that is asked for
  obtain rfl : path' = path :=
    written_reached_inj hplain hpath' hpath (hwritten.symm.trans hid)
  obtain rfl : base' = base := Option.some.inj (hpath'.symm.trans hpath)
  exact ⟨b, hb, hid, hrestates, hanswers, fun hok =>
    (run_finished (Prod.ext hok rfl)).described b hb⟩

/-- Two component parameters: the first one has a schema inside a property named `schema`. -/
def nestedSchema (second : String) : Document where
  openapi := "3.0.0"
  info := some { title := some "Names" }
  components := {
    parameters := [
      ("a", .node { name := "p", location := .query, schema := some {
        properties := [("schema", { properties := [("x", .ofType .string)] })] } }),
      (second, .node { name := "q", location := .query, schema := some {
        properties := [("y", .ofType .string)] } })] }

theorem nestedSchema_distinctNames {second : String} (h : second ≠ "a") :
    (nestedSchema second).DistinctNames := by
  have hleaf : (Place.schema (.ofType .string)).Distinct := Schema.distinct_ofType _
  have hinner : (Place.schema { properties := [("x", .ofType .string)] }).Distinct :=
    Schema.distinct_object (by decide) (List.forall_mem_singleton.mpr hleaf)
  have hparameters : (Place.members (nestedSchema second).components.parameters
      (RefOr.place Parameter.place)).Distinct := by
    refine Place.distinct_members ?_ (List.forall_mem_cons.mpr
      ⟨Parameter.distinct_place ?_, List.forall_mem_singleton.mpr (Parameter.distinct_place ?_)⟩)
    · exact List.nodup_cons.mpr ⟨fun hmem => h (List.mem_singleton.mp hmem).symm,
        List.nodup_singleton _⟩
    · rintro s hs
      cases hs
      exact Schema.distinct_object (by decide) (List.forall_mem_singleton.mpr hinner)
    · rintro s hs
      cases hs
      exact Schema.distinct_object (by decide) (List.forall_mem_singleton.mpr hleaf)
  have hcomponents : (nestedSchema second).components.place.Distinct :=
    Components.distinct_place (Place.distinct_empty _) (Place.distinct_empty _) hparameters
      (Place.distinct_empty _) (Place.distinct_empty _)
  exact distinct_place (fun _ h => absurd h List.not_mem_nil) hcomponents (Place.distinct_empty _)
    (Place.distinct_empty _)

theorem nestedSchema_plainNames : (nestedSchema "b").PlainNames where
  parameters := by decide
  requestBodies := by decide
  noBodies := by
    refine List.forall_mem_cons.mpr ⟨?_, List.forall_mem_singleton.mpr ?_⟩
    · intro body h
      cases h
    · intro body h
      cases h

/-- The path to the schema in the first parameter. -/
def nestedPath : List String :=
  ["components", "parameters", "a", "schema", "properties", "schema"]

/-- With a plain name the second parameter has a composite of its own. -/
theorem memo_sound_plainSecond :
    (nestedSchema "b").DistinctNames ∧ (nestedSchema "b").PlainNames ∧
      ∃ b ∈ ((nestedSchema "b").run {}).2.begun,
        b.node.id = .written ["components", "parameters", "b", "schema"] ∧
        b.node.schema.properties.map Prod.fst = ["y"] ∧
        ((nestedSchema "b").run {}).2.AnswersFor b 2 := by
  have hdistinct : (nestedSchema "b").DistinctNames := nestedSchema_distinctNames (by decide)
  have hmemo := (memo_sound hdistinct nestedSchema_plainNames {}).2.2.2
  have hmem : (Pointer.written ["components", "parameters", "b", "schema"], 2) ∈
      ((nestedSchema "b").run {}).2.builtNodes := by decide +kernel
  obtain ⟨b, hb, hid, hrestates, hanswers, -⟩ := hmemo _ _ 2 (by rfl) hmem
  obtain ⟨_, _, _, hschema⟩ := hrestates
  refine ⟨hdistinct, nestedSchema_plainNames, b, hb, hid, ?_, hanswers⟩
  rw [hschema]
  rfl

/-- The name of a component parameter may be a path into another one, and then the parameter gets
the composite of what stands there. -/
theorem memo_astray :
    let d := nestedSchema "a/schema/properties"
    let path := ["components", "parameters", "a/schema/properties", "schema"]
    d.DistinctNames ∧ Pointer.written path = .written nestedPath ∧
      (d.reached? nestedPath).map (·.properties.map Prod.fst) = some ["x"] ∧
      (d.reached? path).map (·.properties.map Prod.fst) = some ["y"] ∧
      (d.run {}).2.builtNodes.lookup (.written path) = some 1 ∧
      ((d.run {}).2.model.composite 1).properties.map Property.name = ["x"] ∧
      (d.run {}).2.model.properties.map Property.type = [.composite 0, .composite 1] := by
  refine ⟨nestedSchema_distinctNames (by decide), ?_, ?_, ?_, ?_, ?_, ?_⟩
  · decide +kernel
  · decide +kernel
  · decide +kernel
  · decide +kernel
  · decide +kernel
  · decide +kernel

end Document

end ApiModel
