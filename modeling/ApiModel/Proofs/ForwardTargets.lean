import ApiModel.Proofs.Operations
/-!
# Where aliases of operations lead

When all methods exist, an operation that stands for another one gets the place of that one.
Operation ids are split into group and name, and no two methods may share both; so no two
methods have the same id, and the place is the only one.  An alias of an operation or of a
property that leads nowhere ends the build.
-/

namespace ApiModel

/-- An alias of a name leads to the only place where the candidates hold the name, and what is no
alias leads nowhere. -/
def ForwardTarget.Leads (candidates : List String) :
    Option String → Option ForwardTarget → Prop
  | none, target => target = none
  | some name, target =>
    ∃ i : Nat, target = some (.resolved i) ∧ ∀ j : Nat, candidates[j]? = some name ↔ j = i

namespace Method

/-- What a method says of itself does not depend on what it is an alias of. -/
theorem Reflects.withTarget {d : Document} {site : OperationSite} {m : Method}
    (h : m.Reflects d site) (target : Option ForwardTarget) :
    Reflects d site { m with forwardTo := target } where
  operationId := h.operationId
  notBlank := h.notBlank
  name := h.name
  verb := h.verb
  url := h.url
  summary := h.summary
  description := h.description
  externalDocsUrl := h.externalDocsUrl
  deprecationMessage := h.deprecationMessage
  tags := h.tags
  security := h.security
  consumed := h.consumed
  produced := h.produced
  extensions := h.extensions

end Method

namespace BuildState

/-- Methods with different groups or names have different operation ids. -/
theorem Reflects.serializedNames_nodup {d : Document} {done : List OperationSite}
    {t : BuildState} (h : t.Reflects d done) :
    (t.model.methods.map (·.serializedName)).Nodup := by
  have hsplit : (t.model.methods.map (·.serializedName)).map Operation.methodName =
      t.model.methods.map fun m => (m.group, m.name) := by
    rw [List.map_map]
    refine List.map_congr_left fun m hm => ?_
    obtain ⟨site, -, hsite⟩ := Build.exists_of_forall₂ h.methods m hm
    exact hsite.1.name.symm
  exact .of_map Operation.methodName (hsplit ▸ h.distinct)

end BuildState

namespace Build

variable {names : List String} {unknown : String → BuildError} {target : Option ForwardTarget}

/-- Among different names the first place of a name is its only place. -/
theorem findIdx?_eq_some_iff_of_nodup (hnodup : names.Nodup) {name : String} {i : Nat}
    (hfind : names.findIdx? (· == name) = some i) (j : Nat) : names[j]? = some name ↔ j = i := by
  obtain ⟨hi, hname, -⟩ := List.findIdx?_eq_some_iff_getElem.mp hfind
  have hplace : names[i]? = some name := by
    rw [List.getElem?_eq_getElem hi, beq_iff_eq.mp hname]
  constructor
  · intro hj
    exact ((List.getElem?_inj hi hnodup).mp (hplace.trans hj.symm)).symm
  · rintro rfl
    exact hplace

/-- Among candidates of different names aliases lead to the only one of their name. -/
theorem settleTarget_leads (hnodup : names.Nodup) {name? : Option String}
    (h : settleTarget (names.map some) unknown (name?.map .pending) = .ok target) :
    ForwardTarget.Leads names name? target := by
  cases name? with
  | none =>
    cases h
    exact rfl
  | some name =>
    rw [Option.map_some, settleTarget] at h
    have hfind : (names.map some).findIdx? (· == some name) = names.findIdx? (· == name) := by
      rw [List.findIdx?_map]
      congr 1
    rw [hfind] at h
    split at h
    · cases h
      exact ⟨_, rfl, findIdx?_eq_some_iff_of_nodup hnodup ‹_›⟩
    · cases h

/-- Settling aliases changes no operation id. -/
theorem settleMethods_serializedNames {ms ms' : List Method} (h : settleMethods ms = .ok ms') :
    ms'.map (·.serializedName) = ms.map (·.serializedName) := by
  have hunlinked := congrArg (List.map Method.serializedName) (settleMethods_unlinked h)
  simpa [List.map_map, Function.comp_def, unlinkedMethod] using hunlinked

/-- The methods of a document before and after their aliases are settled. -/
theorem settleMethods_reflects {d : Document} {t : BuildState}
    (ht : t.Reflects d (documentSites d)) {ms : List Method}
    (hms : settleMethods t.model.methods = .ok ms) :
    List.Forall₂ (fun site m => m.Reflects d site ∧
      ForwardTarget.Leads (ms.map (·.serializedName))
        (Extensions.text? site.operation.extensions Extensions.forwardToKey) m.forwardTo)
      d.operations ms := by
  have hnodup := ht.serializedNames_nodup
  have hmethods := ht.methods
  rw [← Document.operations_eq] at hmethods
  rw [settleMethods_serializedNames hms]
  refine forall₂_comp (fun site m m' hm hsettle => ?_) hmethods (forall₂_of_mapM_ok hms)
  obtain ⟨target, htarget, hm'⟩ := Except.bind_eq_ok_iff.mp hsettle
  cases hm'
  obtain ⟨hreflects, halias⟩ := hm
  refine ⟨hreflects.withTarget target, ?_⟩
  have hcandidates : (t.model.methods.map fun m => some m.serializedName) =
      (t.model.methods.map (·.serializedName)).map some := by
    rw [List.map_map]
    rfl
  rw [halias, hcandidates] at htarget
  exact settleTarget_leads hnodup htarget

end Build

open Build

namespace Groundwork

variable {d : Document} {options : Options} (g : Groundwork ⟨d, options⟩)

/-- Before the first operation there are no methods and no header types. -/
theorem clients_reflects : g.clients.Reflects d [] := by
  have hR := sameInterface_tallying ⟨d, options⟩ AnyCall
  have htypes : BuilderSpans AnyCall BuildState.SameInterface (buildType ⟨d, options⟩) :=
    buildType_spans hR.toTyping (callsClosed_anyCall _)
  have hcalls := documentCalls_anyCall ⟨d, options⟩
  have hcomponents := (buildComponentTypes_spans hR.toStretch htypes hcalls _).of_run_ok
    g.buildComponents
  have hclients := (buildClientProperties_spans hR.toStretch sameInterface_fronting htypes hcalls
    _).of_run_ok g.buildClients
  have hbefore := hR.trans hcomponents hclients
  have hblank := initialModel_blank g.initial
  have hmethods : g.clients.model.methods = [] := hbefore.methods.trans hblank.methods
  have hheaders : g.clients.model.headerTypes = [] :=
    hbefore.headerTypes.trans hblank.headerTypes
  constructor
  case methods => rw [hmethods]; exact .nil
  case distinct => rw [hmethods]; exact .nil
  case headerTypes => rw [hmethods, hheaders]; rfl

theorem clients_methods : g.clients.model.methods = [] :=
  List.forall₂_nil_left_iff.mp g.clients_reflects.methods

/-- The methods reflect the operations before their aliases are settled. -/
theorem reflects : g.methods.Reflects d (documentSites d) :=
  (buildMethods_reflects g.clients_reflects).of_run_ok g.buildMethods

/-- The composites that were made of no schema collect headers, and no header is an alias. -/
theorem unaliased_of_not_begun {h : CompositeId} (hh : h < g.methods.size)
    (hbegun : ¬ ∃ b ∈ g.methods.begun, b.slot = h) :
    ∀ p ∈ (g.methods.model.composite h).properties, p.forwardTo = none :=
  ((g.built.origin h hh).resolve_left hbegun).unaliased

/-- A property waits for a target exactly if its composite was made of a schema and its extensions
name the target. -/
theorem pending_iff {h : CompositeId} (hh : h < g.methods.size) {p : Property}
    (hp : p ∈ (g.methods.model.composite h).properties) {target : String} :
    p.forwardTo = some (.pending target) ↔
      (∃ b ∈ g.methods.begun, b.slot = h) ∧
        Extensions.text? p.extensions Extensions.forwardToKey = some target := by
  by_cases hbegun : ∃ b ∈ g.methods.begun, b.slot = h
  · obtain ⟨b, hb, rfl⟩ := hbegun
    rw [(g.made b hb).waiting p hp, Extensions.alias?, Option.map_eq_some_iff]
    constructor
    · rintro ⟨name, hname, hsame⟩
      cases hsame
      exact ⟨⟨b, hb, rfl⟩, hname⟩
    · rintro ⟨-, hname⟩
      exact ⟨target, hname, rfl⟩
  · rw [g.unaliased_of_not_begun hh hbegun p hp]
    exact iff_of_false nofun fun hnamed => hbegun hnamed.1

/-- Some operation is an alias of an operation id that no operation has, or some property of a
composite, whatever the composite was made for, waits for a wire name that no property of the same
composite has. -/
inductive MissesTarget : Prop
  | operation {site : OperationSite} {target : String} (hsite : site ∈ d.operations)
      (hnamed : Extensions.text? site.operation.extensions Extensions.forwardToKey = some target)
      (hmissing : ∀ other ∈ d.operations, other.operation.operationId ≠ some target)
  | property {h : CompositeId} {p : Property} {target : String} (hh : h < g.methods.size)
      (hp : p ∈ (g.methods.model.composite h).properties)
      (hpending : p.forwardTo = some (.pending target))
      (hmissing : ∀ p' ∈ (g.methods.model.composite h).properties,
        p'.serializedName ≠ some target)

/-- A composite that was made of a schema misses a target if an extension of one of its properties
names a wire name that none of them has. -/
theorem MissesTarget.of_begun {b : Begun} (hb : b ∈ g.methods.begun) {p : Property}
    (hp : p ∈ (g.methods.model.composite b.slot).properties) {target : String}
    (hnamed : Extensions.text? p.extensions Extensions.forwardToKey = some target)
    (hmissing : ∀ p' ∈ (g.methods.model.composite b.slot).properties,
      p'.serializedName ≠ some target) : g.MissesTarget :=
  have hslot := g.methods_progress.1.begunSlots b hb
  .property hslot hp ((g.pending_iff hslot hp).mpr ⟨⟨b, hb, rfl⟩, hnamed⟩) hmissing

/-- Aliases that miss their target are not settled. -/
theorem settle_fails (h : g.MissesTarget) :
    ¬ ∃ m, settleForwardTargets g.methods.model = .ok m := by
  rw [settleForwardTargets_succeeds_iff]
  rintro ⟨hmethods, htypes⟩
  cases h with
  | @operation site target hsite hnamed hmissing =>
    rw [settleMethods_succeeds_iff] at hmethods
    have hreflects := g.reflects.methods
    rw [← Document.operations_eq] at hreflects
    obtain ⟨m, hm, hsame⟩ := exists_of_forall₂ hreflects.flip _ hsite
    have halias : m.forwardTo = some (.pending target) := by
      rw [hsame.2, Extensions.alias?, hnamed, Option.map_some]
    have hfound := hmethods _ (List.mem_map_of_mem hm) _ halias
    obtain ⟨m', hm', hname⟩ := List.mem_map.mp hfound
    obtain ⟨other, hother, hsame'⟩ := exists_of_forall₂ hreflects m' hm'
    exact hmissing other hother (hsame'.1.operationId.trans hname)
  | @property h p target hh hp hpending hmissing =>
    have hproperties := settleProperties_succeeds_iff.mp (htypes _ hh)
    have hfound := hproperties _ (List.mem_map_of_mem hp) _ hpending
    obtain ⟨p', hp', hname⟩ := List.mem_map.mp hfound
    exact hmissing p' hp' hname

/-- A build whose aliases cannot be settled ends there. -/
theorem build_fails (h : ¬ ∃ m, settleForwardTargets g.methods.model = .ok m) :
    ∃ target, d.build options = .error (.unknownMethodTarget target) ∨
      d.build options = .error (.unknownPropertyTarget target) := by
  have hsettles := settleModel_settles g.methods
  unfold Ensures at hsettles
  rcases hsettle : settleModel.run g.methods with ⟨e | ⟨⟩, t⟩
  · rw [hsettle] at hsettles
    have hrun : d.run options = (.error e, t) := by
      unfold Document.run
      simp only [g.initial]
      unfold buildService
      simp only [run_bind, g.buildComponents, g.buildClients, g.buildMethods, hsettle]
    have hbuild := Document.build_eq_error_iff.mpr ⟨_, hrun⟩
    obtain ⟨target, rfl | rfl⟩ := settleForwardTargets_error hsettles
    · exact ⟨target, .inl hbuild⟩
    · exact ⟨target, .inr hbuild⟩
  · rw [hsettle] at hsettles
    exact absurd ⟨_, hsettles⟩ h

end Groundwork

namespace Stages

variable {d : Document} {options : Options} {last : BuildState}
  (stages : Stages ⟨d, options⟩ last)

/-- Settling aliases is all that happens to the methods after they are built. -/
theorem settle_methods : settleMethods stages.methods.model.methods = .ok last.model.methods := by
  have hsettled := (settleModel_settles _).of_run_ok stages.settle
  obtain ⟨methods, types, hmethods, -, hmodel⟩ := settleForwardTargets_ok hsettled
  have hlast : last.model.methods = methods := by
    rw [stages.last_sameInterface.methods, hmodel]
  rw [hlast]
  exact hmethods

include stages

/-- What is said of every method when all are built, and stays true when its alias is settled, can
be said of the methods of a run. -/
theorem methods_settled {Q : OperationSite → Method → Prop}
    (hforward : ∀ {site m} target, Q site m → Q site { m with forwardTo := target })
    (hbuilt : List.Forall₂ Q d.operations stages.methods.model.methods) :
    List.Forall₂ Q d.operations last.model.methods := by
  refine forall₂_comp (fun site m m' hm hsettle => ?_) hbuilt
    (forall₂_of_mapM_ok stages.settle_methods)
  obtain ⟨target, -, hm'⟩ := Except.bind_eq_ok_iff.mp hsettle
  cases hm'
  exact hforward target hm

/-- What every method is built with, whatever was built since the client properties, and keeps when
its alias is settled, the methods of a run have, one for each operation. -/
theorem methods_since {R : BuildState → BuildState → Prop}
    (hR : Throughout ⟨d, options⟩ AnyCall R) {Q : OperationSite → Method → Prop}
    (hforward : ∀ {site m} target, Q site m → Q site { m with forwardTo := target })
    (hQ : ∀ site operationId group name s, R stages.clients s →
      Ensures (buildMethod ⟨d, options⟩ site operationId group name) s (fun m _ => Q site m)
        fun _ _ => True) :
    List.Forall₂ Q d.operations last.model.methods := by
  have hcourse : Course (fun _ => True) R := ⟨hR.refl, fun _ => hR.trans⟩
  have hcalls := documentCalls_anyCall ⟨d, options⟩
  have htypes : BuilderSpans AnyCall R (buildType ⟨d, options⟩) :=
    buildType_spans hR.toTyping hcalls.closed
  refine stages.methods_settled hforward ((buildMethods_each (Q := fun site m _ => Q site m) hcourse
    (fun _ _ hm => hm) (fun _ hm => hm) (fun site hsite t _ => ?_)
    (fun site _ operationId group name t _ ht => hQ site operationId group name t ht) trivial
    stages.clients_methods).of_run_ok stages.buildMethods)
  exact (addMethod_spans hR htypes hcalls hsite t).mono (fun _ _ htu => ⟨trivial, htu⟩)
    fun _ _ _ => trivial

/-- What every method is built with, and keeps when its alias is settled, the methods of a run have,
one for each operation. -/
theorem methods_each {Q : OperationSite → Method → Prop}
    (hforward : ∀ {site m} target, Q site m → Q site { m with forwardTo := target })
    (hQ : ∀ site operationId group name s,
      Ensures (buildMethod ⟨d, options⟩ site operationId group name) s (fun m _ => Q site m)
        fun _ _ => True) :
    List.Forall₂ Q d.operations last.model.methods :=
  stages.methods_since (anything_throughout _ _) hforward
    fun site operationId group name s _ => hQ site operationId group name s

/-- The methods reflect the operations, and their aliases are settled. -/
theorem methods_reflect :
    List.Forall₂ (fun site m => m.Reflects d site ∧
      ForwardTarget.Leads (last.model.methods.map (·.serializedName))
        (Extensions.text? site.operation.extensions Extensions.forwardToKey) m.forwardTo)
      d.operations last.model.methods :=
  settleMethods_reflects stages.reflects stages.settle_methods

/-- No two methods of a run have the same operation id. -/
theorem serializedNames_nodup : (last.model.methods.map (·.serializedName)).Nodup := by
  rw [settleMethods_serializedNames stages.settle_methods]
  exact stages.reflects.serializedNames_nodup

/-- No two methods of a run have the same group and name. -/
theorem methodNames_nodup : (last.model.methods.map fun m => (m.group, m.name)).Nodup := by
  have hunlinked := congrArg (List.map fun m => (m.group, m.name))
    (settleMethods_unlinked stages.settle_methods)
  have hpairs : last.model.methods.map (fun m => (m.group, m.name)) =
      stages.methods.model.methods.map fun m => (m.group, m.name) := by
    simpa [List.map_map, Function.comp_def, unlinkedMethod] using hunlinked
  rw [hpairs]
  exact stages.reflects.distinct

end Stages

namespace Document

variable {d : Document} {options : Options}

/-- **Methods mirror operations.**  The methods of a model stand for the operations of its
document, one for one and in order, and each one leads where its operation is an alias of: to the
only method with that operation id.  No two methods share group and name, and no two share their
operation ids.  When an alias of an operation or of a property leads nowhere, there is no model. -/
theorem methods_mirror_operations :
    (∀ m, d.build options = .ok m →
      List.Forall₂ (fun site method => method.Reflects d site ∧
        ForwardTarget.Leads (m.methods.map (·.serializedName))
          (Extensions.text? site.operation.extensions Extensions.forwardToKey) method.forwardTo)
        d.operations m.methods ∧
      (m.methods.map fun method => (method.group, method.name)).Nodup ∧
      (m.methods.map (·.serializedName)).Nodup) ∧
    ∀ g : Groundwork ⟨d, options⟩, g.MissesTarget →
      ∃ target, d.build options = .error (.unknownMethodTarget target) ∨
        d.build options = .error (.unknownPropertyTarget target) := by
  refine ⟨?_, fun g h => g.build_fails (g.settle_fails h)⟩
  intro m hbuild
  obtain ⟨t, hrun, rfl⟩ := build_eq_ok_iff.mp hbuild
  obtain ⟨stages⟩ := stages hrun
  exact ⟨stages.methods_reflect, stages.methodNames_nodup, stages.serializedNames_nodup⟩

/-- Operations on pets, one of them an alias of `target`, under both kinds of paths. -/
def petOperations (target : String) : Document where
  openapi := "3.0.0"
  info := some { title := some "Pets", version := "1" }
  paths := [
    ("/pets", {
      post := some {
        operationId := some "pets_find"
        responses := [("200", .node {})]
        extensions := [("x-ms-forward-to", .string target)] }
      options := some {}
      get := some { operationId := some "pets_list", responses := [("200", .node {})] } })]
  customPaths := [
    ("/pets?all", {
      get := some { operationId := some "_list", responses := [("200", .node {})] } })]

/-- The alias is settled or ends the build. -/
theorem methods_mirror_operations_pets :
    (∃ m, (petOperations "_list").build {} = .ok m ∧
      m.methods.map (fun m => (m.group, m.name, m.forwardTo)) =
        [(some "pets", "list", none), (some "pets", "find", some (.resolved 2)),
          (none, "list", none)] ∧
      (m.methods.map (·.serializedName)).Nodup) ∧
    ∃ target, (petOperations "list").build {} = .error (.unknownMethodTarget target) ∨
      (petOperations "list").build {} = .error (.unknownPropertyTarget target) := by
  constructor
  · have hok : ((petOperations "_list").run {}).1 = .ok () := by decide +kernel
    have hbuild := build_of_run_ok hok
    refine ⟨_, hbuild, ?_, (methods_mirror_operations.1 _ hbuild).2.2⟩
    decide +kernel
  · obtain ⟨g⟩ : Nonempty (Groundwork ⟨petOperations "list", {}⟩) :=
      nonempty_groundwork rfl (by decide +kernel)
    have hsites : ∃ site ∈ (petOperations "list").operations,
        Extensions.text? site.operation.extensions Extensions.forwardToKey = some "list" := by
      decide +kernel
    have hmissing : ∀ other ∈ (petOperations "list").operations,
        other.operation.operationId ≠ some "list" := by decide +kernel
    obtain ⟨site, hsite, hnamed⟩ := hsites
    exact methods_mirror_operations.2 g (.operation hsite hnamed hmissing)

end Document

end ApiModel
