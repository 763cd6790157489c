import ApiModel.Build.Parameter
import ApiModel.Proofs.Types
import Mathlib.Data.List.ReduceOption
/-!
# Building parameters keeps the state sound

A parameter may name a property of the client by its place.  The properties only grow, so a
place that is found is good for the rest of the build.
-/

namespace ApiModel

namespace BuildState

variable {s : BuildState}

/-- A client property without an alias may be added to a sound state. -/
theorem Sound.addProperty (hs : s.Sound) {p : Property} (hp : Within s.size p.type.handles)
    (htarget : p.forwardTo = none) :
    Sound { s with model := { s.model with properties := s.model.properties ++ [p] } } := by
  refine { hs with properties := ?_, methods := ?_ }
  · intro p' hp'
    rcases List.mem_append.mp hp' with hold | hnew
    · exact hs.properties p' hold
    · rw [List.mem_singleton.mp hnew]
      exact ⟨hp, htarget⟩
  · intro m hm
    have hdraft := hs.methods m hm
    refine { hdraft with clientProperty := fun p' hp' index hindex => ?_ }
    have hlt := hdraft.clientProperty p' hp' index hindex
    simp only [List.length_append]
    omega

end BuildState

namespace Build

/-- All calls. -/
abbrev AnyCall : Located → String → Prop :=
  fun _ _ => True

/-- All calls are closed under going down. -/
theorem callsClosed_anyCall (input : BuildInput) : CallsClosed input AnyCall :=
  fun _ _ => ⟨fun _ _ => trivial, fun _ _ => trivial, fun _ _ _ _ => trivial⟩

/-- What is true of every parameter that is built. -/
def ParameterBuilt (p : MethodParameter) (t : BuildState) : Prop :=
  Within t.size p.type.handles ∧
    ∀ index, p.clientProperty = some index → index < t.model.properties.length

/-- A parameter that is built stays so. -/
theorem ParameterBuilt.grow {p : MethodParameter} {t u : BuildState} (h : ParameterBuilt p t)
    (htu : t.Grows u) : ParameterBuilt p u :=
  ⟨h.1.mono htu.size_le, fun index hindex => (h.2 index hindex).trans_le htu.properties_le⟩

/-- A place that is found is a place of the list. -/
theorem lt_of_findIdx? {α : Type} {p : α → Bool} {l : List α} {index : Nat}
    (h : l.findIdx? p = some index) : index < l.length :=
  (List.findIdx?_eq_some_iff_findIdx_eq.mp h).1

section Parameters

variable {input : BuildInput} {A : BuildError → Prop} {st : BuildState}

theorem buildParameterType_steady (hA : ∀ e, e.isLocal = true → A e)
    (htypes : BuilderSteady input AnyCall A (buildType input)) (hst : st.Sound)
    (source : SourceParameter) :
    Steady input AnyCall A (buildParameterType input source) st
      fun result t => Within t.size result.1.handles := by
  unfold buildParameterType
  dsimp only
  cases source.parameter.schema.map (withEnumExtension · source.parameter.extensions) with
  | some schema =>
    refine (htypes hst trivial).bind fun type t ht _ htype => ?_
    refine .resolving_bind ht (fun e => hA _ rfl) fun target _ => ?_
    exact .pure ht htype
  | none =>
    simp only
    split_ifs
    · exact .throw hst (hA _ rfl)
    · exact .pure hst (by simp [ModelType.object, ModelType.ofKind, ModelType.handles])

/-- A parameter is built steadily, and a client property that it names is there. -/
theorem buildParameter_steady (hA : ∀ e, e.isLocal = true → A e)
    (htypes : BuilderSteady input AnyCall A (buildType input)) (hst : st.Sound)
    (source : SourceParameter) :
    Steady input AnyCall A (buildParameter input source) st ParameterBuilt := by
  unfold buildParameter
  refine (buildParameterType_steady hA htypes hst source).bind fun result t ht _ htype => ?_
  refine .get_bind (.pure ht ⟨htype, fun index hindex => ?_⟩)
  simp only at hindex
  split_ifs at hindex
  exact lt_of_findIdx? hindex

theorem chooseContentType_steady (hst : st.Sound) (source : SourceParameter)
    (consumed : List String) :
    Steady input AnyCall A (chooseContentType source consumed) st fun _ _ => True := by
  unfold chooseContentType
  simp only
  split_ifs
  · exact .pure hst trivial
  · refine (Steady.write (R := fun _ _ => True) ?_ ?_ trivial).bind fun _ t ht _ _ => ?_
    · exact { hst with }
    · exact .same rfl rfl rfl rfl rfl le_rfl
    · exact .pure ht trivial
  · exact .pure hst trivial

/-- A method parameter is built steadily, with one for its content type before it where there is a
choice. -/
theorem buildMethodParameter_steady (hA : ∀ e, e.isLocal = true → A e)
    (htypes : BuilderSteady input AnyCall A (buildType input)) (hst : st.Sound)
    (consumed : List String) (source : SourceParameter) :
    Steady input AnyCall A (buildMethodParameter input consumed source) st
      fun result t => ∀ p ∈ result, ParameterBuilt p t := by
  unfold buildMethodParameter
  simp only
  split_ifs
  · exact .pure hst (by simp)
  · refine (chooseContentType_steady hst source consumed).bind fun source' t ht _ _ => ?_
    refine (buildParameter_steady hA htypes ht source').bind fun p u hu _ hp => ?_
    exact .pure hu (by simpa using hp)
  · refine (buildParameter_steady hA htypes hst source).bind fun p u hu _ hp => ?_
    exact .pure hu (by simpa using hp)

theorem buildMethodParameters_steady (hA : ∀ e, e.isLocal = true → A e)
    (htypes : BuilderSteady input AnyCall A (buildType input)) (hst : st.Sound)
    (sources : List SourceParameter) (consumed : List String) :
    Steady input AnyCall A (buildMethodParameters input sources consumed) st
      fun ps t => ∀ p ∈ ps, ParameterBuilt p t := by
  unfold buildMethodParameters
  refine (Steady.mapM_forall (R := fun result t => ∀ p ∈ result, ParameterBuilt p t) hst
    (fun _ hgrows h p hp => (h p hp).grow hgrows) fun source _ t ht _ =>
      buildMethodParameter_steady hA htypes ht consumed source).bind fun built t ht _ hbuilt => ?_
  refine .pure ht fun p hp => ?_
  exact hbuilt (some p) (List.reduceOption_mem_iff.mp hp) p rfl

/-- A client property is built steadily, or left out. -/
theorem buildClientProperty_steady (hA : ∀ e, e.isLocal = true → A e)
    (htypes : BuilderSteady input AnyCall A (buildType input)) (hst : st.Sound) (name : String)
    (declared : RefOr Parameter) :
    Steady input AnyCall A (buildClientProperty input name declared) st fun _ _ => True := by
  unfold buildClientProperty
  refine .resolving_bind hst (fun e => hA _ rfl) fun target _ => ?_
  cases target with
  | requestBody _ => exact .pure hst trivial
  | parameter parameter =>
    refine (buildParameter_steady hA htypes hst _).bind fun p t ht _ hp => ?_
    exact .write (ht.addProperty hp.1 rfl) (.same rfl rfl rfl rfl rfl (by simp)) trivial

/-- The client properties are built steadily. -/
theorem buildClientProperties_steady (hA : ∀ e, e.isLocal = true → A e)
    (htypes : BuilderSteady input AnyCall A (buildType input)) (hst : st.Sound) :
    Steady input AnyCall A (buildClientProperties input) st fun _ _ => True := by
  unfold buildClientProperties
  exact Steady.each hst fun entry _ t ht _ =>
    buildClientProperty_steady hA htypes ht entry.1 entry.2

end Parameters

end Build

end ApiModel
