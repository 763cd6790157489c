import ApiModel.Proofs.CompositesInUse
import ApiModel.Proofs.ForwardTargets
import Mathlib.Data.List.Pairwise
/-!
# The names of header types

The headers of a method form a composite.  Where the document gives a schema for all of them, it is
a model type, and so has a name of its own.  Where the headers are declared one by one, a composite
is made for the method and named after its group and its name, and nobody asks whether that name is
taken.  So no two methods share such a composite, but two of them may have the same name, and a
model type may have it too: all depends on the texts that are glued together.
-/

namespace ApiModel

namespace Method

/-- The name of a header type that is made for the method. -/
def headerName (m : Method) : String :=
  Text.trim (· == '-') (m.group.getD "" ++ "-" ++ m.name ++ "-Headers")

end Method

section Glue

/-- The characters of group and name, each with a hyphen behind it and none in front. -/
def gluedName (group : Option String) (name : String) : List Char :=
  ((group.getD "").toList ++ '-' :: (name.toList ++ ['-'])).dropWhile (· == '-')

/-- The name of the headers begins with the glued name. -/
theorem Method.toList_headerName (m : Method) :
    m.headerName.toList = gluedName m.group m.name ++ "Headers".toList := by
  have hglued : (m.group.getD "" ++ "-" ++ m.name ++ "-Headers").toList =
      ((m.group.getD "").toList ++ '-' :: (m.name.toList ++ ['-'])) ++ "Headers".toList := by
    simp [String.toList_append]
  have hfront (glued : List Char) : (glued ++ "Headers".toList).dropWhile (· == '-') =
      glued.dropWhile (· == '-') ++ "Headers".toList := by
    rw [List.dropWhile_append]
    split_ifs with hnone
    · rw [List.isEmpty_iff.mp hnone]
      rfl
    · rfl
  unfold Method.headerName Text.trim Text.trimEnd
  rw [hglued, hfront, String.toList_ofList, String.toList_ofList, List.reverse_append]
  -- the last character is no hyphen
  rw [show ("Headers".toList).reverse = 's' :: "redaeH".toList from rfl, List.cons_append,
    List.dropWhile_cons_of_neg (by decide), ← List.cons_append, List.reverse_append,
    List.reverse_reverse]
  rfl

/-- With a group, the name is glued behind the first hyphen. -/
theorem gluedName_some {group : String} (hne : group ≠ "") (hgroup : '-' ∉ group.toList)
    (name : String) :
    (gluedName (some group) name).takeWhile (· != '-') = group.toList ∧
      (gluedName (some group) name).dropWhile (· != '-') = '-' :: (name.toList ++ ['-']) := by
  have hall : ∀ c ∈ group.toList, (c != '-') = true := by
    intro c hc
    rw [bne_iff_ne]
    rintro rfl
    exact hgroup hc
  have hglued : gluedName (some group) name = group.toList ++ '-' :: (name.toList ++ ['-']) := by
    unfold gluedName
    rw [Option.getD_some]
    cases hlist : group.toList with
    | nil => exact absurd (String.toList_eq_nil_iff.mp hlist) hne
    | cons c cs =>
      rw [hlist] at hall
      exact List.dropWhile_cons_of_neg (by simpa using hall c List.mem_cons_self)
  rw [hglued, List.takeWhile_append_of_pos hall, List.dropWhile_append_of_pos hall]
  simp

/-- Without a group, there is at most one hyphen. -/
theorem gluedName_none {name : String} (hname : '-' ∉ name.toList) :
    (gluedName none name).takeWhile (· != '-') = name.toList ∧
      ((gluedName none name).dropWhile (· != '-')).length ≤ 1 := by
  have hall : ∀ c ∈ name.toList, (c != '-') = true := by
    intro c hc
    rw [bne_iff_ne]
    rintro rfl
    exact hname hc
  unfold gluedName
  cases hlist : name.toList with
  | nil => decide
  | cons c cs =>
    rw [hlist] at hall
    have hglued : ((none : Option String).getD "").toList ++ '-' :: (c :: cs ++ ['-']) =
        '-' :: c :: (cs ++ ['-']) := rfl
    rw [hglued, List.dropWhile_cons_of_pos (by decide),
      List.dropWhile_cons_of_neg (by simpa using hall c List.mem_cons_self),
      ← List.cons_append, List.takeWhile_append_of_pos hall, List.dropWhile_append_of_pos hall]
    simp

/-- A group is not empty, and group and name are made of the characters of the operation id. -/
theorem methodName_parts {id name : String} {group : Option String}
    (h : (group, name) = Operation.methodName id) :
    (∀ g, group = some g → g ≠ "" ∧ g.toList ⊆ id.toList) ∧ name.toList ⊆ id.toList := by
  unfold Operation.methodName at h
  split at h
  · rename_i before after hsplit
    unfold Text.splitFirst? at hsplit
    dsimp only at hsplit
    split at hsplit
    · cases hsplit
    rename_i c rest hrest
    cases hsplit
    cases h
    constructor
    · intro g hg
      split_ifs at hg with hempty
      cases hg
      refine ⟨?_, ?_⟩
      · rintro heq
        rw [heq] at hempty
        exact hempty rfl
      · rw [String.toList_ofList]
        exact (List.takeWhile_prefix _).subset
    · rw [String.toList_ofList]
      have hsuffix := (List.dropWhile_suffix (l := id.toList) (· != '_')).subset
      rw [hrest] at hsuffix
      exact fun x hx => hsuffix (List.mem_cons_of_mem _ hx)
  · cases h
    exact ⟨nofun, List.Subset.refl _⟩

/-- **Without hyphens, group and name can be told from the name of the header type.** -/
theorem headerName_injective {m m' : Method}
    (hm : (m.group, m.name) = Operation.methodName m.serializedName)
    (hm' : (m'.group, m'.name) = Operation.methodName m'.serializedName)
    (hplain : '-' ∉ m.serializedName.toList) (hplain' : '-' ∉ m'.serializedName.toList)
    (h : m.headerName = m'.headerName) : (m.group, m.name) = (m'.group, m'.name) := by
  have hglued : gluedName m.group m.name = gluedName m'.group m'.name := by
    have hlists := congrArg String.toList h
    rw [m.toList_headerName, m'.toList_headerName] at hlists
    exact List.append_cancel_right hlists
  obtain ⟨hgroup, hname⟩ := methodName_parts hm
  obtain ⟨hgroup', hname'⟩ := methodName_parts hm'
  have hplainName := fun hmem => hplain (hname hmem)
  have hplainName' := fun hmem => hplain' (hname' hmem)
  cases hg : m.group with
  | none =>
    cases hg' : m'.group with
    | none =>
      rw [hg, hg'] at hglued
      have hfront := (gluedName_none hplainName).1
      rw [hglued, (gluedName_none hplainName').1] at hfront
      rw [String.toList_inj.mp hfront]
    | some g' =>
      obtain ⟨hne', hsubset'⟩ := hgroup' g' hg'
      rw [hg, hg'] at hglued
      have hback := (gluedName_none hplainName).2
      rw [hglued, (gluedName_some hne' (fun hmem => hplain' (hsubset' hmem)) m'.name).2] at hback
      simp at hback
  | some g =>
    obtain ⟨hne, hsubset⟩ := hgroup g hg
    have hsome := gluedName_some hne (fun hmem => hplain (hsubset hmem)) m.name
    cases hg' : m'.group with
    | none =>
      rw [hg, hg'] at hglued
      have hback := (gluedName_none hplainName').2
      rw [← hglued, hsome.2] at hback
      simp at hback
    | some g' =>
      obtain ⟨hne', hsubset'⟩ := hgroup' g' hg'
      have hsome' := gluedName_some hne' (fun hmem => hplain' (hsubset' hmem)) m'.name
      rw [hg, hg'] at hglued
      rw [← hglued] at hsome'
      have hgroups : g = g' := String.toList_inj.mp (hsome.1.symm.trans hsome'.1)
      have hnames := hsome.2.symm.trans hsome'.2
      have hnames : m.name = m'.name := String.toList_inj.mp (by simpa using hnames)
      rw [hgroups, hnames]

end Glue

namespace CodeModel

/-- The methods whose header types are no model types. -/
def looseMethods (m : CodeModel) : List Method :=
  m.methods.filter fun method => method.returnType.headers.any fun h => decide (h ∉ m.modelTypes)

/-- Header types are told by their names, from each other and from the model types. -/
structure HeadersTold (m : CodeModel) : Prop where
  apart : ∀ h ∈ m.headerTypes, ∀ h' ∈ m.headerTypes,
    (m.composite h).name = (m.composite h').name → h = h'
  model : ∀ h ∈ m.headerTypes, ∀ c ∈ m.modelTypes,
    (m.composite h).name = (m.composite c).name → h = c

variable {m : CodeModel}

/-- A method is loose if its headers have a composite that is no model type. -/
theorem mem_looseMethods_iff {method : Method} : method ∈ m.looseMethods ↔
    method ∈ m.methods ∧ ∃ h, method.returnType.headers = some h ∧ h ∉ m.modelTypes := by
  unfold looseMethods
  rw [List.mem_filter, Option.any_eq_true]
  simp only [decide_eq_true_eq]

/-- Header types that are told by their names are found by them. -/
theorem HeadersTold.headerType? (hm : m.HeadersTold) {h : CompositeId} (hh : h ∈ m.headerTypes) :
    m.headerType? (m.composite h).name = some (m.composite h) := by
  unfold CodeModel.headerType?
  have hfound : ((m.headerTypes.map m.composite).find?
      fun c => c.name == (m.composite h).name).isSome := by
    rw [List.find?_isSome]
    exact ⟨_, List.mem_map_of_mem hh, by simp⟩
  obtain ⟨c, hc⟩ := Option.isSome_iff_exists.mp hfound
  obtain ⟨h', hh', rfl⟩ := List.mem_map.mp (List.mem_of_find?_eq_some hc)
  have hname : (m.composite h').name = (m.composite h).name := by
    simpa using List.find?_some hc
  rw [hc, hm.apart h' hh' h hh hname]

end CodeModel

namespace BuildState

/-- Nothing is under construction in a sound state. -/
structure Resting (s : BuildState) : Prop where
  sound : s.Sound
  known : s.AtRest ∧ Build.Uses Known s

/-- The handle is that of a named composite, or that of one which was made since `s` and has the
given name. -/
def HeadedSince (s : BuildState) (name : String) (t : BuildState) (h : CompositeId) : Prop :=
  h < t.size ∧ (t.Listed h ∨ s.size ≤ h ∧ (t.model.composite h).name = name)

/-- The header types of the methods are named composites or have the names of their methods, and
methods share no others than named ones. -/
structure Headed (s : BuildState) : Prop where
  named : ∀ m ∈ s.model.methods, ∀ h, m.returnType.headers = some h →
    h < s.size ∧ (s.Listed h ∨ (s.model.composite h).name = m.headerName)
  shared : s.model.methods.Pairwise fun m m' => ∀ h, m.returnType.headers = some h →
    m'.returnType.headers = some h → s.Listed h

variable {s t u : BuildState}

/-- A handle that has a name keeps it. -/
theorem Listed.grow {h : CompositeId} (hs : s.Listed h) (hst : s.Grows t) : t.Listed h := by
  obtain ⟨name, hname⟩ := hs
  exact ⟨name, hst.named hname⟩

/-- What heads a method goes on heading it. -/
theorem HeadedSince.grow {name : String} {h : CompositeId} (hh : s.HeadedSince name t h)
    (htu : t.Grows u) : s.HeadedSince name u h := by
  obtain ⟨hlt, hlisted | ⟨hle, hname⟩⟩ := hh
  · exact ⟨hlt.trans_le htu.size_le, .inl (hlisted.grow htu)⟩
  · refine ⟨hlt.trans_le htu.size_le, .inr ⟨hle, ?_⟩⟩
    rw [htu.kept h hlt]
    exact hname

/-- What is new to a later state is new to an earlier one. -/
theorem HeadedSince.of_le {name : String} {h : CompositeId} (hh : t.HeadedSince name u h)
    (hst : s.size ≤ t.size) : s.HeadedSince name u h :=
  ⟨hh.1, hh.2.imp_right fun hnew => ⟨hst.trans hnew.1, hnew.2⟩⟩

/-- A composite that is made is new and has its name. -/
theorem headedSince_allocated {name : String} {c : Composite} (hst : s.size ≤ t.size)
    (hc : c.name = name) : s.HeadedSince name (t.allocated c) t.size := by
  refine ⟨?_, .inr ⟨hst, ?_⟩⟩
  · rw [size_allocated]
    exact Nat.lt_succ_self _
  · rw [composite_allocated]
    exact hc

/-- Methods keep their header types while others are built. -/
theorem Headed.grow (hs : s.Headed) (hst : s.Grows t)
    (hmethods : t.model.methods = s.model.methods) : t.Headed where
  named := by
    rw [hmethods]
    intro m hm h hh
    obtain ⟨hlt, hlisted | hname⟩ := hs.named m hm h hh
    · exact ⟨hlt.trans_le hst.size_le, .inl (hlisted.grow hst)⟩
    · refine ⟨hlt.trans_le hst.size_le, .inr ?_⟩
      rw [hst.kept h hlt]
      exact hname
  shared := by
    rw [hmethods]
    exact hs.shared.imp fun hmm' h hh hh' => (hmm' h hh hh').grow hst

/-- What a build leaves of its methods and composites when it settles aliases. -/
theorem Headed.conclude (hs : s.Headed) (hst : s.Concluding t)
    (hmethods : t.model.methods.map Build.unlinkedMethod =
      s.model.methods.map Build.unlinkedMethod) : t.Headed where
  named := by
    intro m hm h hh
    have hmem := List.mem_map_of_mem (f := Build.unlinkedMethod) hm
    rw [hmethods] at hmem
    obtain ⟨m', hm', heq⟩ := List.mem_map.mp hmem
    have hname := congrArg Method.headerName heq
    have hheaders := congrArg (fun m => m.returnType.headers) heq
    change m'.headerName = m.headerName at hname
    change m'.returnType.headers = m.returnType.headers at hheaders
    obtain ⟨hlt, hnamed⟩ := hs.named m' hm' h (hheaders.trans hh)
    rw [hname, ← Composite.name_of_unlinked (hst.unlinked h hlt)] at hnamed
    refine ⟨hlt.trans_eq hst.size_eq.symm, ?_⟩
    unfold Listed
    rw [hst.namedTypes]
    exact hnamed
  shared := by
    have hshared : (s.model.methods.map Build.unlinkedMethod).Pairwise fun m m' =>
        ∀ h, m.returnType.headers = some h → m'.returnType.headers = some h → s.Listed h :=
      List.pairwise_map.mpr hs.shared
    rw [← hmethods, List.pairwise_map] at hshared
    unfold Listed
    rw [hst.namedTypes]
    exact hshared

/-- A method is added whose header type is as old as the method. -/
theorem Headed.addMethod (hs : s.Headed) (hst : s.Grows t)
    (hmethods : t.model.methods = s.model.methods) {m : Method}
    (hm : ∀ h, m.returnType.headers = some h → s.HeadedSince m.headerName t h) :
    Headed { t with model := { t.model with methods := t.model.methods ++ [m] } } := by
  have ht := hs.grow hst hmethods
  constructor
  case named =>
    intro m' hm' h hh
    obtain hold | hnew := List.mem_append.mp hm'
    · exact ht.named m' hold h hh
    · obtain rfl := List.mem_singleton.mp hnew
      obtain ⟨hlt, hname⟩ := hm h hh
      exact ⟨hlt, hname.imp_right And.right⟩
  case shared =>
    refine List.pairwise_append.mpr ⟨ht.shared, List.pairwise_singleton _ _, ?_⟩
    intro m' hm' new hnew h hh' hh
    obtain rfl := List.mem_singleton.mp hnew
    rw [hmethods] at hm'
    obtain ⟨hlt, -⟩ := hs.named m' hm' h hh'
    obtain ⟨-, hlisted | ⟨hle, -⟩⟩ := hm h hh
    · exact hlisted
    · exact absurd hlt (Nat.not_lt.mpr hle)

end BuildState

namespace Build

open BuildState

variable {input : BuildInput} {s : BuildState}

/-- Growing leads from one state at rest to the next. -/
theorem resting_course : Course Resting Grows where
  refl := .refl
  trans _ := .trans

/-- A step from rest to rest. -/
abbrev Walks {α : Type} (m : Build α) (s : BuildState) (R : α → BuildState → Prop) : Prop :=
  Carries Resting Grows (fun _ _ => True) m s R

/-- Steps that are steady and let only known types into use lead from rest to rest. -/
theorem Walks.of_steady {α : Type} {m : Build α} {R R' : α → BuildState → Prop}
    (h : Steady input AnyCall (fun _ => True) m s R) (h' : Vouching AtRest Known m s R') :
    Walks m s fun a t => R a t ∧ R' a t := by
  refine (Ensures.and h h').mono ?_ fun _ _ _ => trivial
  intro a t ht
  obtain ⟨⟨hsound, hprogress, hR⟩, hknown, -, hR'⟩ := ht
  exact ⟨⟨hsound, hknown⟩, hprogress.grows, hR, hR'⟩

section Responses

variable {site : MethodSite}

/-- The composite of headers that are declared one by one is new and named after the method. -/
theorem buildClassicalHeaders_headed (hs : s.Sound) (headers : Entries Header) :
    Ensures (buildClassicalHeaders input site headers) s
      (fun h t => s.HeadedSince (headerTypeName site) t h) fun _ _ => True := by
  unfold buildClassicalHeaders
  rw [ensures_bind]
  refine Ensures.mono (Steady.mapM (R := fun _ _ _ => True) (A := fun _ => True) hs
    (fun _ _ _ => trivial) fun entry _ t ht _ =>
      (buildHeaderProperty_steady (builderSteady_anyCall input) ht site entry.1 entry.2).mono
        fun _ _ _ _ _ => trivial) ?_ fun _ _ _ => trivial
  intro properties t ht
  obtain ⟨-, hst, -⟩ := ht
  rw [ensures_allocate]
  exact headedSince_allocated hst.grows.size_le rfl

/-- The schemas that the headers of a method have so far lead to named composites. -/
def SchemasKnown (headers : ResponseHeaders) (t : BuildState) : Prop :=
  ∀ type ∈ headers.schemas, Within t.size type.handles ∧ t.Known type

/-- What collects the headers has a name in the tables, or is new and named after the method. -/
theorem headerComposite_headed (hs : s.Sound) {headers : ResponseHeaders}
    (hheaders : SchemasKnown headers s) :
    Ensures (headerComposite input site headers) s
      (fun h t => s.HeadedSince (headerTypeName site) t h) fun _ _ => True := by
  unfold headerComposite
  split
  · exact buildClassicalHeaders_headed hs _
  · rename_i id hschemas _
    obtain ⟨hwithin, hknown⟩ := hheaders (.composite id) (by rw [hschemas]; exact .head _)
    exact ⟨hwithin id (List.mem_singleton_self id), .inl (hknown id (List.mem_singleton_self id))⟩
  · exact trivial

/-- The headers of a method form a named composite, or a new one that is named after it. -/
theorem buildResponseHeaders_headed (hs : s.Resting) :
    Ensures (buildResponseHeaders input site) s
      (fun result t => ∀ h, result = some h → s.HeadedSince (headerTypeName site) t h)
      fun _ _ => True := by
  unfold buildResponseHeaders
  rw [ensures_bind]
  refine Ensures.mono (Carries.foldlM (I := SchemasKnown) (E := fun _ _ => True) resting_course hs
    nofun fun headers entry _ t ht _ hheaders => ?_) ?_ fun _ _ _ => trivial
  · refine Carries.resolving_bind (fun _ => trivial) fun response _ => ?_
    have hsteady := addResponseHeaders_steady (A := fun _ => True) (fun _ _ => trivial)
      (builderSteady_anyCall input) ht.sound site (fun type htype => (hheaders type htype).1)
      entry.1 response
    have hvouching := (known_vouched input).addResponseHeaders site headers entry.1 response
      ht.known fun type htype => (hheaders type htype).2
    refine (Walks.of_steady hsteady hvouching).mono fun headers u _ _ hu type htype => ?_
    exact ⟨hu.1 type htype, hu.2 type htype⟩
  · intro headers t ht
    obtain ⟨hrest, hst, hheaders⟩ := ht
    rw [ensures_bind]
    refine (headerComposite_headed hrest.sound hheaders).mono ?_ fun _ _ _ => trivial
    intro h u hh
    rw [ensures_bind, ensures_composite]
    have hsince := hh.of_le hst.size_le
    split_ifs
    · exact nofun
    · rintro h' ⟨⟩
      exact hsince

/-- Every response that is kept has the headers of the method, but for a default response that is
empty. -/
structure RespondsWith (headers : Option CompositeId) (built : BuiltResponses) : Prop where
  responses : ∀ entry ∈ built.responses, entry.2.headers = headers
  defaultResponse : built.defaultResponse = {} ∨ built.defaultResponse.headers = headers

/-- A response joins the others with the headers of the method. -/
theorem RespondsWith.insert {headers : Option CompositeId} {built : BuiltResponses}
    (h : RespondsWith headers built) (status : String) {response : MethodResponse}
    (hresponse : response.headers = headers) (candidates : List ModelType) :
    RespondsWith headers { built with
      responses := built.responses.insert status response
      candidates := candidates } where
  responses entry hentry := by
    rcases Entries.mem_insert hentry with hold | ⟨-, hnew⟩
    · exact h.responses entry hold
    · rw [hnew]
      exact hresponse
  defaultResponse := h.defaultResponse

/-- The responses share the headers of the method. -/
theorem buildResponses_headers (produced : List String) (headers : Option CompositeId) :
    Ensures (buildResponses input site produced headers) s
      (fun built _ => RespondsWith headers built) fun _ _ => True := by
  unfold buildResponses
  refine ensures_foldlM (I := fun _ built _ => RespondsWith headers built)
    ⟨List.forall_mem_nil _, .inl rfl⟩ ?_
  intro _ entry _ _ built t hbuilt
  rw [ensures_bind, ensures_resolving]
  refine ⟨fun response _ => ?_, fun _ _ => trivial⟩
  refine ensures_buildResponse (fun _ _ schema _ type => ⟨hbuilt.responses, .inr rfl⟩)
    (fun _ _ => hbuilt) ?_
  exact fun _ _ _ _ _ => hbuilt.insert entry.1 rfl

end Responses

section Methods

/-- The header type of a method is a named composite, or a new one that is named after it. -/
theorem buildMethod_headed (hs : s.Resting) (site : OperationSite) (operationId : String)
    (group : Option String) (name : String) :
    Ensures (buildMethod input site operationId group name) s
      (fun m t => ∀ h, m.returnType.headers = some h → s.HeadedSince m.headerName t h)
      fun _ _ => True := by
  have hV := known_vouched input
  have htypes : BuilderSteady input AnyCall (fun _ => True) (buildType input) :=
    builderSteady_anyCall input
  refine ensures_buildMethod (fun _ => trivial) fun consumed produced sources _ _ _ => ?_
  refine Ensures.mono (Walks.of_steady
    (buildMethodParameters_steady (fun _ _ => trivial) htypes hs.sound sources consumed)
    (hV.buildMethodParameters sources consumed hs.known)) ?_ fun _ _ _ => trivial
  intro parameters t ht
  obtain ⟨hrest, hst, -⟩ := ht
  refine ((buildResponseHeaders_headed hrest).and (buildResponseHeaders_steady
    (A := fun _ => True) (fun _ _ => trivial) htypes hrest.sound _)).mono ?_ fun _ _ _ => trivial
  intro headers u hu
  obtain ⟨hheaded, hsound, htu, hwithin⟩ := hu
  refine ((buildResponses_headers produced headers).and (buildResponses_steady
    (A := fun _ => True) (fun _ _ => trivial) (fun _ _ => trivial) htypes hsound _ produced
    hwithin)).mono ?_ fun _ _ _ => trivial
  intro built v hv strays
  obtain ⟨hresponds, -, huv, -⟩ := hv
  have hsince : ∀ h, headers = some h → s.HeadedSince
      (headerTypeName ⟨name, group, operationId, site.operation, site.pointer⟩) v h :=
    fun h hh => ((hheaded h hh).grow huv.grows).of_le hst.size_le
  intro h hh
  dsimp only [assembled, returned] at hh
  split_ifs at hh
  · obtain hempty | hheaders := hresponds.defaultResponse
    · rw [hempty] at hh
      cases hh
    · exact hsince h (hheaders.symm.trans hh)
  · exact hsince h hh

/-- One more method has its header type. -/
theorem addMethod_headed (hs : s.Resting) (hheaded : s.Headed) {site : OperationSite}
    (hsite : site ∈ documentSites input.document) :
    Ensures (addMethod input site) s (fun _ t => t.Headed) fun _ _ => True := by
  refine ensures_addMethod (fun _ => ⟨hheaded.named, hheaded.shared⟩) trivial (fun _ => trivial)
    fun _ operationId group name hid hblank hname _ => ?_
  have hsteady := buildMethod_steady (A := fun _ => True) (fun _ _ => trivial) (fun _ _ => trivial)
    (builderSteady_anyCall input) hs.sound site operationId
  have hreflects := buildMethod_reflects hsite hid hblank hname s
  refine ((buildMethod_headed hs site operationId _ _).and (hreflects.and (hsteady _ _))).mono ?_
    fun _ _ _ => trivial
  intro m t ht
  obtain ⟨hm, ⟨-, hmethods, -⟩, -, hst, -⟩ := ht
  exact hheaded.addMethod hst.grows hmethods hm

/-- **Methods have their header types to themselves, or share model types.** -/
theorem buildMethods_headed (hs : s.Resting) (hheaded : s.Headed) :
    Ensures (buildMethods input) s (fun _ t => t.Headed) fun _ _ => True := by
  have hV := known_vouched input
  have hinit : s.Resting ∧ s.Headed := ⟨hs, hheaded⟩
  unfold buildMethods
  refine (ensures_forM (I := fun _ t => t.Resting ∧ t.Headed) (E := fun _ _ => True) hinit
    ?_).mono (fun _ _ ht => ht.2) fun _ _ _ => trivial
  intro done site rest hsplit t ht
  have hsite : site ∈ documentSites input.document := by
    rw [hsplit]
    exact List.mem_append_right _ List.mem_cons_self
  have hwalks := Walks.of_steady (addMethod_steady (A := fun _ => True) (fun _ _ => trivial)
    (fun _ _ => trivial) (builderSteady_anyCall input) ht.1.sound site)
    (hV.addMethod site ht.1.known)
  refine ((addMethod_headed ht.1 ht.2 hsite).and hwalks).mono ?_ fun _ _ _ => trivial
  intro _ u hu
  exact ⟨hu.2.1, hu.1⟩

end Methods

end Build

open Build BuildState

namespace Groundwork

variable {input : BuildInput} (g : Groundwork input)

/-- Between the phases nothing is under construction. -/
theorem clients_resting : g.clients.Resting := by
  have hV := known_vouched input
  have huses : Uses Known { model := g.model } := uses_start (initialModel_blank g.initial)
  obtain ⟨hcomponents, -⟩ :=
    (hV.buildComponentTypes ⟨atRest_start g.model, huses⟩).of_run_ok g.buildComponents
  obtain ⟨hclients, -⟩ := (hV.buildClientProperties hcomponents).of_run_ok g.buildClients
  exact ⟨g.clients_progress.1, hclients⟩

/-- When all methods are built each has a composite of its own for its headers, or a model type. -/
theorem headed : g.methods.Headed := by
  have hmethods := g.clients_reflects.methods
  have hnone : g.clients.model.methods = [] := by simpa using hmethods
  have hclients : g.clients.Headed := by
    constructor
    · simp [hnone]
    · simp [hnone]
  exact (buildMethods_headed g.clients_resting hclients).of_run_ok g.buildMethods

end Groundwork

namespace Stages

variable {d : Document} {options : Options} {last : BuildState}
  (stages : Stages ⟨d, options⟩ last)
include stages

/-- What heads the methods heads them to the end. -/
theorem last_headed : last.Headed :=
  stages.headed.conclude stages.last_concluding.1 (settleMethods_unlinked stages.settle_methods)

/-- The header types are those of the return types, in the order of the methods. -/
theorem last_headerTypes : last.model.headerTypes =
    (last.model.methods.flatMap fun m => m.returnType.headers.toList).foldl addNew [] := by
  have hunlinked (ms : List Method) : ms.flatMap (fun m => m.returnType.headers.toList) =
      (ms.map unlinkedMethod).flatMap fun m => m.returnType.headers.toList := by
    rw [List.flatMap_map]
    rfl
  have hsettled := (settleModel_settles _).of_run_ok stages.settle
  obtain ⟨methods, types, -, -, hmodel⟩ := settleForwardTargets_ok hsettled
  have hkept : stages.settled.model.headerTypes = stages.methods.model.headerTypes := by
    rw [hmodel]
  rw [stages.last_sameInterface.headerTypes, hkept, stages.reflects.headerTypes, hunlinked,
    ← settleMethods_unlinked stages.settle_methods, ← hunlinked]

/-- The header types are what the return types of the methods name. -/
theorem mem_headerTypes_iff {h : CompositeId} :
    h ∈ last.model.headerTypes ↔ ∃ m ∈ last.model.methods, m.returnType.headers = some h := by
  rw [stages.last_headerTypes, mem_foldl_addNew]
  simp [List.mem_flatMap]

/-- No header type is listed twice. -/
theorem headerTypes_nodup : last.model.headerTypes.Nodup := by
  rw [stages.last_headerTypes]
  exact nodup_foldl_addNew .nil

/-- A header type that is no model type has the name of its method and no other method. -/
theorem looseMethods_headed {m : Method} (hm : m ∈ last.model.looseMethods) {h : CompositeId}
    (hh : m.returnType.headers = some h) :
    h ∉ last.model.modelTypes ∧ (last.model.composite h).name = m.headerName ∧
      ∀ other ∈ last.model.methods, other.returnType.headers = some h → other = m := by
  obtain ⟨hmem, h', hh', hloose⟩ := CodeModel.mem_looseMethods_iff.mp hm
  obtain rfl : h' = h := Option.some.inj (hh'.symm.trans hh)
  have hlisted : ¬ last.Listed h' := mt stages.mem_modelTypes_iff_listed.mpr hloose
  have hheaded := stages.last_headed
  refine ⟨hloose, (hheaded.named m hmem h' hh).2.resolve_left hlisted, ?_⟩
  intro other hother hshared
  by_contra hne
  have hsymm : Std.Symm fun m m' : Method => ∀ h, m.returnType.headers = some h →
      m'.returnType.headers = some h → last.Listed h := ⟨fun _ _ hR h hh hh' => hR h hh' hh⟩
  exact hlisted (hheaded.shared.forall hother hmem hne h' hshared hh)

/-- A header type is a model type, or the one of a method whose header type is none. -/
theorem mem_modelTypes_or_loose {h : CompositeId} (hh : h ∈ last.model.headerTypes) :
    h ∈ last.model.modelTypes ∨
      ∃ m ∈ last.model.looseMethods, m.returnType.headers = some h := by
  obtain ⟨m, hm, hheaders⟩ := stages.mem_headerTypes_iff.mp hh
  by_cases hmodel : h ∈ last.model.modelTypes
  · exact .inl hmodel
  · exact .inr ⟨m, CodeModel.mem_looseMethods_iff.mpr ⟨hm, h, hheaders, hmodel⟩, hheaders⟩

/-- No loose method is listed twice. -/
theorem looseMethods_nodup : last.model.looseMethods.Nodup :=
  (List.Nodup.of_map _ stages.serializedNames_nodup).filter _

/-- Whether header types are told by their names is a matter of the names that are glued. -/
theorem headersTold_iff : last.model.HeadersTold ↔
    (last.model.looseMethods.map Method.headerName).Nodup ∧
      ∀ m ∈ last.model.looseMethods, ∀ c ∈ last.model.modelTypes,
        (last.model.composite c).name ≠ m.headerName := by
  constructor
  · intro htold
    constructor
    · refine stages.looseMethods_nodup.map_on ?_
      intro m hm m' hm' hname
      obtain ⟨hmem, h, hh, -⟩ := CodeModel.mem_looseMethods_iff.mp hm
      obtain ⟨hmem', h', hh', -⟩ := CodeModel.mem_looseMethods_iff.mp hm'
      obtain ⟨-, hnamed, honly⟩ := stages.looseMethods_headed hm hh
      obtain ⟨-, hnamed', -⟩ := stages.looseMethods_headed hm' hh'
      have hsame : h = h' := htold.apart h (stages.mem_headerTypes_iff.mpr ⟨m, hmem, hh⟩) h'
        (stages.mem_headerTypes_iff.mpr ⟨m', hmem', hh'⟩) (hnamed.trans (hname.trans hnamed'.symm))
      exact (honly m' hmem' (hsame ▸ hh')).symm
    · intro m hm c hc hname
      obtain ⟨hmem, h, hh, hloose⟩ := CodeModel.mem_looseMethods_iff.mp hm
      obtain ⟨-, hnamed, -⟩ := stages.looseMethods_headed hm hh
      have hsame : h = c := htold.model h (stages.mem_headerTypes_iff.mpr ⟨m, hmem, hh⟩) c hc
        (hnamed.trans hname.symm)
      exact hloose (hsame ▸ hc)
  · intro hglued
    obtain ⟨hnodup, hforeign⟩ := hglued
    have hmodel : ∀ h ∈ last.model.headerTypes, ∀ c ∈ last.model.modelTypes,
        (last.model.composite h).name = (last.model.composite c).name → h = c := by
      intro h hh c hc hname
      obtain hmodel | ⟨m, hm, hheaders⟩ := stages.mem_modelTypes_or_loose hh
      · have hfound := stages.named_of_mem_modelTypes hmodel
        rw [hname, stages.named_of_mem_modelTypes hc] at hfound
        exact (Option.some.inj hfound).symm
      · obtain ⟨-, hnamed, -⟩ := stages.looseMethods_headed hm hheaders
        exact absurd (hname.symm.trans hnamed) (hforeign m hm c hc)
    refine ⟨?_, hmodel⟩
    intro h hh h' hh' hname
    obtain hmem | ⟨m, hm, hheaders⟩ := stages.mem_modelTypes_or_loose hh
    · exact (hmodel h' hh' h hmem hname.symm).symm
    obtain hmem' | ⟨m', hm', hheaders'⟩ := stages.mem_modelTypes_or_loose hh'
    · exact hmodel h hh h' hmem' hname
    obtain ⟨-, hnamed, -⟩ := stages.looseMethods_headed hm hheaders
    obtain ⟨-, hnamed', -⟩ := stages.looseMethods_headed hm' hheaders'
    have hsame : m = m' := List.inj_on_of_nodup_map hnodup hm hm'
      (hnamed.symm.trans (hname.trans hnamed'))
    rw [hsame] at hheaders
    exact Option.some.inj (hheaders.symm.trans hheaders')

/-- Names that are glued without other hyphens are different. -/
theorem headerNames_nodup
    (hplain : ∀ m ∈ last.model.looseMethods, '-' ∉ m.serializedName.toList) :
    (last.model.looseMethods.map Method.headerName).Nodup := by
  refine stages.looseMethods_nodup.map_on ?_
  intro m hm m' hm' hname
  have hmem := (CodeModel.mem_looseMethods_iff.mp hm).1
  have hmem' := (CodeModel.mem_looseMethods_iff.mp hm').1
  obtain ⟨site, -, hsite, -⟩ := exists_of_forall₂ stages.methods_reflect m hmem
  obtain ⟨site', -, hsite', -⟩ := exists_of_forall₂ stages.methods_reflect m' hmem'
  have hpair := headerName_injective hsite.name hsite'.name (hplain m hm) (hplain m' hm') hname
  exact List.inj_on_of_nodup_map stages.methodNames_nodup hmem hmem' hpair

end Stages

namespace Document

variable {d : Document} {options : Options} {m : CodeModel}

/-- **The names of header types.**  The header types are those of the methods.  One that is no
model type belongs to a single method and has the name that is glued from group and name of the
method.  So header types are told by their names, from each other and from model types, exactly if
these glued names are pairwise different and none of them is the name of a model type; and then they
are found by their names.  Glued names that are equal come of operation ids with hyphens. -/
theorem header_names (hbuild : d.build options = .ok m) :
    (∀ h, h ∈ m.headerTypes ↔ ∃ method ∈ m.methods, method.returnType.headers = some h) ∧
    m.headerTypes.Nodup ∧
    (∀ method ∈ m.looseMethods, ∀ h, method.returnType.headers = some h →
      (m.composite h).name = method.headerName ∧
        ∀ other ∈ m.methods, other.returnType.headers = some h → other = method) ∧
    (m.HeadersTold ↔ (m.looseMethods.map Method.headerName).Nodup ∧
      ∀ method ∈ m.looseMethods, ∀ c ∈ m.modelTypes, (m.composite c).name ≠ method.headerName) ∧
    (m.HeadersTold →
      ∀ h ∈ m.headerTypes, m.headerType? (m.composite h).name = some (m.composite h)) ∧
    ((∀ method ∈ m.looseMethods, '-' ∉ method.serializedName.toList) →
      (m.looseMethods.map Method.headerName).Nodup) := by
  obtain ⟨t, hrun, rfl⟩ := build_eq_ok_iff.mp hbuild
  obtain ⟨stages⟩ := stages hrun
  refine ⟨fun h => stages.mem_headerTypes_iff, stages.headerTypes_nodup, ?_,
    stages.headersTold_iff, fun htold h hh => htold.headerType? hh, ?_⟩
  · intro method hmethod h hh
    exact (stages.looseMethods_headed hmethod hh).2
  · exact stages.headerNames_nodup

/-- An operation whose response has a header. -/
def headedOperation (operationId header : String) : Operation where
  operationId := some operationId
  responses := [("200", .node { headers := [(header, .node {})] })]

/-- Two operations whose groups and names are cut at different hyphens. -/
def hyphenated : Document where
  openapi := "3.0.0"
  info := some { title := some "Hyphens", version := "1" }
  paths := [
    ("/a", { get := some (headedOperation "a_b-c" "X-Count") }),
    ("/b", { get := some (headedOperation "a-b_c" "X-Total") })]

/-- Their header types have the same name. -/
theorem header_names_hyphenated :
    ∃ m, hyphenated.build {} = .ok m ∧ m.headerTypes.length = 2 ∧ ¬ m.HeadersTold := by
  have hok : (hyphenated.run {}).1 = .ok () := by decide +kernel
  have hbuild := build_of_run_ok hok
  have hcount : (hyphenated.run {}).2.model.headerTypes.length = 2 := by decide +kernel
  have hclash : ¬ ((hyphenated.run {}).2.model.looseMethods.map Method.headerName).Nodup := by
    decide +kernel
  refine ⟨_, hbuild, hcount, ?_⟩
  rw [(header_names hbuild).2.2.2.1]
  exact fun hglued => hclash hglued.1

/-- A schema has the name that is glued for the header type of an operation. -/
def gluedSchema : Document where
  openapi := "3.0.0"
  info := some { title := some "Names", version := "1" }
  paths := [("/f", { get := some (headedOperation "f" "X-Count") })]
  components := {
    schemas := [("f-Headers", { properties := [("x", Schema.ofType .string)] })] }

/-- Header types need not be told by their names. -/
theorem header_names_clash :
    ¬ ∀ (d : Document) (options : Options) (m : CodeModel), d.build options = .ok m →
      m.HeadersTold := by
  intro hall
  have hok : (gluedSchema.run {}).1 = .ok () := by decide +kernel
  have htold := hall gluedSchema {} _ (build_of_run_ok hok)
  have hclash : ¬ ∀ h ∈ (gluedSchema.run {}).2.model.headerTypes,
      ∀ c ∈ (gluedSchema.run {}).2.model.modelTypes,
        ((gluedSchema.run {}).2.model.composite h).name =
          ((gluedSchema.run {}).2.model.composite c).name → h = c := by decide +kernel
  exact hclash htold.model

end Document

end ApiModel
