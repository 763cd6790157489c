import ApiModel.Build.Service
import ApiModel.Proofs.Walks
/-!
# Components in another order

References find components by their names, and the counts of the walks depend on how many
components there are and how large they are.  So in what order the component schemas stand makes no
difference to the walks, and none to the steps that build anything but the components themselves.
-/

namespace ApiModel

namespace Components

/-- The same components, with the schemas in another order. -/
structure Reordered (c c' : Components) : Prop where
  keys : c.schemas.keys.Nodup
  schemas : c'.schemas.Perm c.schemas
  others : c' = { c with schemas := c'.schemas }

namespace Reordered

variable {c c' : Components}

/-- Names do not repeat in the other order either. -/
theorem keys' (h : Reordered c c') : c'.schemas.keys.Nodup :=
  (h.schemas.map Prod.fst).nodup_iff.mpr h.keys

theorem symm (h : Reordered c c') : Reordered c' c where
  keys := h.keys'
  schemas := h.schemas.symm
  others := by rw [h.others]

/-- The same components stand in both orders. -/
theorem mem_schemas_iff (h : Reordered c c') {entry : String × Schema} :
    entry ∈ c'.schemas ↔ entry ∈ c.schemas :=
  h.schemas.mem_iff

/-- References are looked up by name, so they find the same in either order. -/
theorem dereference_eq (h : Reordered c c') : c'.dereference = c.dereference := by
  funext reference
  unfold dereference lookup
  have hget (name : String) : c'.schemas.get? name = c.schemas.get? name := by
    refine Option.ext fun s => ?_
    rw [Entries.get?_eq_some_iff h.keys, Entries.get?_eq_some_iff h.keys', h.mem_schemas_iff]
  rw [hget]

/-- The bounded walk takes the same steps in either order. -/
theorem unwrapFrom_eq (h : Reordered c c') (seen : List String) (steps : Nat) (x : Located) :
    c'.unwrapFrom seen steps x = c.unwrapFrom seen steps x := by
  induction steps generalizing seen x with
  | zero => rw [unwrapFrom_zero, unwrapFrom_zero, h.dereference_eq]
  | succ steps ih => simp only [unwrapFrom_succ, h.dereference_eq, ih]

/-- The count of `unwrap` is the number of components, which both orders have. -/
theorem unwrap_eq (h : Reordered c c') : c'.unwrap = c.unwrap := by
  funext s id
  unfold unwrap
  rw [h.schemas.length_eq, h.unwrapFrom_eq]

/-- Members are collected by what their references lead to, whatever the order. -/
theorem collect_eq (h : Reordered c c') (visiting : List Pointer) (takeParent : Bool)
    (depth : Nat) (x : Located) (view : Expanded) :
    c'.collect visiting takeParent depth x view = c.collect visiting takeParent depth x view := by
  induction depth generalizing visiting takeParent x view with
  | zero => rfl
  | succ depth ih =>
    have hmember : c'.collectMember visiting takeParent depth x =
        c.collectMember visiting takeParent depth x := by
      funext view member
      unfold collectMember
      simp only [h.unwrap_eq, ih]
    rw [collect_succ, collect_succ, hmember]

/-- The sizes of the components add up to the same in either order. -/
theorem schemaCount_eq (h : Reordered c c') : c'.schemaCount = c.schemaCount := by
  unfold schemaCount
  rw [Schema.sizeOfEntries_eq_sum, Schema.sizeOfEntries_eq_sum]
  exact (h.schemas.map _).sum_nat

/-- A node has the same view in either order. -/
theorem expand_eq (h : Reordered c c') : c'.expand = c.expand := by
  funext x
  unfold expand
  rw [h.schemaCount_eq, h.collect_eq]

theorem expandComponent_eq (h : Reordered c c') : c'.expandComponent = c.expandComponent := by
  funext name
  unfold expandComponent
  rw [h.dereference_eq, h.unwrap_eq, h.expand_eq]

/-- A component has the same parent in either order. -/
theorem parentOf_eq (h : Reordered c c') : c'.parentOf = c.parentOf := by
  funext name
  unfold parentOf
  rw [h.expandComponent_eq]

theorem ancestors_eq (h : Reordered c c') : c'.ancestors = c.ancestors := by
  have hfrom (steps : Nat) (chain : List String) (name : String) :
      c'.ancestorsFrom steps chain name = c.ancestorsFrom steps chain name := by
    induction steps generalizing chain name with
    | zero => unfold ancestorsFrom; rw [h.parentOf_eq]
    | succ steps ih => unfold ancestorsFrom; simp only [h.parentOf_eq, ih]
  funext name
  unfold ancestors
  rw [h.schemas.length_eq, hfrom]

/-- The check of the ancestors has the same outcome in either order. -/
theorem ancestorsHaveProperties_eq (h : Reordered c c') :
    c'.ancestorsHaveProperties = c.ancestorsHaveProperties := by
  have hany (names : List String) : c'.anyHasProperties names = c.anyHasProperties names := by
    induction names with
    | nil => rfl
    | cons name names ih => unfold anyHasProperties; rw [h.expandComponent_eq, ih]
  funext name
  unfold ancestorsHaveProperties
  simp only [h.ancestors_eq, hany]

/-- The component parameters are the same ones. -/
theorem parameters_eq (h : Reordered c c') : c'.parameters = c.parameters := by
  rw [h.others]

/-- Request bodies are found among the other components. -/
theorem resolveRequestBody_eq (h : Reordered c c') :
    c'.resolveRequestBody = c.resolveRequestBody := by
  funext body
  rw [h.others]
  rfl

theorem resolveResponse_eq (h : Reordered c c') : c'.resolveResponse = c.resolveResponse := by
  funext response
  rw [h.others]
  rfl

theorem resolveHeader_eq (h : Reordered c c') : c'.resolveHeader = c.resolveHeader := by
  funext header
  rw [h.others]
  rfl

/-- Parameters are found among the other components, also those that are request bodies. -/
theorem resolveParameter_eq (h : Reordered c c') : c'.resolveParameter = c.resolveParameter := by
  have hfollow (seen : List String) (steps : Nat) (x : RefOr Parameter) :
      c'.followParameter seen steps x = c.followParameter seen steps x := by
    induction steps generalizing seen x with
    | zero =>
      cases x with
      | node value => rfl
      | reference path =>
        unfold followParameter
        rw [h.resolveRequestBody_eq, h.parameters_eq]
        cases lookup c.parameters .parameters path with
        | error e => rfl
        | ok next => rfl
    | succ steps ih =>
      cases x with
      | node value => rfl
      | reference path =>
        unfold followParameter
        rw [h.resolveRequestBody_eq, h.parameters_eq]
        cases lookup c.parameters .parameters path with
        | error e => rfl
        | ok next => simp only [ih]
  funext x
  unfold resolveParameter
  rw [h.parameters_eq, hfollow]

theorem consumedTypes_eq (h : Reordered c c') : c'.consumedTypes = c.consumedTypes := by
  funext operation
  unfold consumedTypes
  rw [h.resolveRequestBody_eq]

theorem producedTypes_eq (h : Reordered c c') : c'.producedTypes = c.producedTypes := by
  funext operation
  unfold producedTypes
  rw [h.resolveResponse_eq]

theorem collectParameters_eq (h : Reordered c c') :
    c'.collectParameters = c.collectParameters := by
  have hrecast : c'.recast = c.recast := by
    funext body pointer
    unfold recast
    rw [h.unwrap_eq, h.expand_eq]
  have hsources : c'.sourceParameters = c.sourceParameters := by
    funext declared pointer
    unfold sourceParameters sourceParameter
    rw [h.resolveParameter_eq, hrecast]
  funext item operation pathPointer operationPointer
  unfold collectParameters
  rw [hsources, hrecast, h.resolveRequestBody_eq]

end Reordered

end Components

namespace Build

/-- The same input, with the component schemas in another order. -/
structure Reordered (input input' : BuildInput) : Prop where
  components : input.components.Reordered input'.components
  document : input'.document = { input.document with components := input'.components }
  options : input'.options = input.options

namespace Reordered

variable {input input' : BuildInput}

theorem symm (h : Reordered input input') : Reordered input' input where
  components := h.components.symm
  document := by
    rw [h.document]
    rfl
  options := h.options.symm

/-- A type is built in the same steps in either order. -/
theorem buildType_eq (h : Reordered input input') : buildType input' = buildType input := by
  have hlayer : layer input' = layer input := by
    funext inner s id name required
    unfold layer buildComposite buildProperties buildProperty
    simp only [h.components.unwrap_eq, h.components.expand_eq, h.options]
  have hbuilder (layers : Nat) : typeBuilder input' layers = typeBuilder input layers := by
    induction layers with
    | zero => rfl
    | succ layers ih => rw [typeBuilder, typeBuilder, hlayer, ih]
  funext s id name required
  unfold buildType layersFor
  rw [h.components.schemaCount_eq, hbuilder]

theorem buildParameter_eq (h : Reordered input input') :
    buildParameter input' = buildParameter input := by
  funext source
  unfold buildParameter buildParameterType
  simp only [h.buildType_eq, h.components.unwrap_eq, h.options]

theorem buildClientProperties_eq (h : Reordered input input') :
    buildClientProperties input' = buildClientProperties input := by
  unfold buildClientProperties buildClientProperty
  simp only [h.buildParameter_eq, h.components.parameters_eq, h.components.resolveParameter_eq]

theorem buildMethods_eq (h : Reordered input input') : buildMethods input' = buildMethods input := by
  have hparameters : buildMethodParameters input' = buildMethodParameters input := by
    funext sources consumed
    unfold buildMethodParameters buildMethodParameter
    simp only [h.buildParameter_eq]
  have hheaders : buildResponseHeaders input' = buildResponseHeaders input := by
    funext site
    unfold buildResponseHeaders addResponseHeaders headerComposite buildClassicalHeaders
      buildHeaderProperty
    simp only [h.buildType_eq, h.components.resolveResponse_eq, h.components.resolveHeader_eq]
  have hresponses : buildResponses input' = buildResponses input := by
    funext site produced headers
    unfold buildResponses buildResponse buildResponseBody
    simp only [h.buildType_eq, h.components.resolveResponse_eq, h.components.unwrap_eq,
      h.components.expand_eq]
  have hmethod : buildMethod input' = buildMethod input := by
    funext site operationId group name
    unfold buildMethod
    simp only [h.components.consumedTypes_eq, h.components.producedTypes_eq,
      h.components.collectParameters_eq, hparameters, hheaders, hresponses, h.document]
  have hsites : documentSites input'.document = documentSites input.document := by
    rw [h.document]
    rfl
  unfold buildMethods addMethod
  rw [hmethod, hsites]

theorem buildHostParameters_eq (h : Reordered input input') :
    buildHostParameters input' = buildHostParameters input := by
  unfold buildHostParameters buildHostParameter
  simp only [h.buildParameter_eq, h.document]

end Reordered

end Build

end ApiModel
