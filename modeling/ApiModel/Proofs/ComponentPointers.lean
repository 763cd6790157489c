import ApiModel.Proofs.Designation
import ApiModel.Proofs.Following
/-!
# Pointers of components as references

The pointer of a component schema carries the name escaped, and it designates the component.  A
reference is read otherwise: what stands behind the marker of the section is the name, as it is,
and no escape is undone.  So a pointer taken for a reference asks for the component that has the
escaped name.  That is the component of the pointer as long as its name has no special character,
and never otherwise.  The reference that leads to every component spells the name out.
-/

namespace ApiModel

/-- What follows a marker, where the text before it lacks the first character of the marker. -/
theorem Text.afterFirst?_marked {c : Char} {before : List Char} (h : c ∉ before)
    (marker after : List Char) :
    Text.afterFirst? (c :: marker) (before ++ (c :: marker ++ after)) = some after := by
  induction before with
  | nil =>
    have hhead : (c :: marker).isPrefixOf (c :: (marker ++ after)) = true :=
      List.isPrefixOf_iff_prefix.mpr (List.prefix_append (c :: marker) after)
    have hrest : (c :: (marker ++ after)).drop (c :: marker).length = after := by simp
    rw [List.nil_append, List.cons_append, Text.afterFirst?, if_pos hhead, hrest]
  | cons d before ih =>
    have hdc : c ≠ d := fun hd => h (hd ▸ List.mem_cons_self)
    have hbefore : c ∉ before := fun hc => h (List.mem_cons_of_mem d hc)
    have hhead : (c :: marker).isPrefixOf (d :: (before ++ (c :: marker ++ after))) = false := by
      rw [List.isPrefixOf_cons_cons, beq_false_of_ne hdc, Bool.false_and]
    rw [List.cons_append, Text.afterFirst?, hhead, if_neg Bool.false_ne_true, ih hbefore]

/-- A reference that spells a name out names it, whatever characters the name has. -/
theorem Reference.componentName_spelled (target : ComponentSection) (name : String) :
    Reference.componentName ("#/components/" ++ target.name ++ "/" ++ name) target.name = name := by
  have hmarker : (ComponentSection.marker target.name).toList =
      'c' :: ("omponents/".toList ++ target.name.toList ++ ['/']) := by
    simp [ComponentSection.marker]
  have htext : ("#/components/" ++ target.name ++ "/" ++ name).toList =
      ['#', '/'] ++ ('c' :: ("omponents/".toList ++ target.name.toList ++ ['/']) ++ name.toList) := by
    simp
  unfold Reference.componentName
  rw [htext, hmarker, Text.afterFirst?_marked (by decide)]
  exact String.ofList_toList

namespace Pointer

/-- A name whose characters stand for themselves in a pointer. -/
def IsPlain (name : String) : Prop :=
  '~' ∉ name.toList ∧ '/' ∉ name.toList

instance (name : String) : Decidable (IsPlain name) :=
  inferInstanceAs (Decidable (_ ∧ _))

/-- Escaping adds one character for every special one. -/
theorem length_flatMap_escapeChar (cs : List Char) :
    (cs.flatMap escapeChar).length = cs.length + cs.count '~' + cs.count '/' := by
  induction cs with
  | nil => rfl
  | cons c cs ih =>
    rw [List.flatMap_cons, List.length_append, ih, List.length_cons, List.count_cons,
      List.count_cons]
    by_cases htilde : c = '~'
    · simp [escapeChar, htilde]
      omega
    · by_cases hslash : c = '/'
      · simp [escapeChar, hslash]
        omega
      · simp [escapeChar, htilde, hslash]
        omega

/-- A name is its own escaped form exactly if it is plain. -/
theorem escape_eq_self_iff {name : String} : escape name = name ↔ IsPlain name := by
  constructor
  · intro h
    have hlength := length_flatMap_escapeChar name.toList
    have hchars : name.toList.flatMap escapeChar = name.toList := by
      simpa [escape] using congrArg String.toList h
    rw [hchars] at hlength
    exact ⟨List.count_eq_zero.mp (by omega), List.count_eq_zero.mp (by omega)⟩
  · rintro ⟨htilde, hslash⟩
    have hchar (c : Char) (hc : c ∈ name.toList) : escapeChar c = [c] := by
      have hctilde : c ≠ '~' := fun h => htilde (h ▸ hc)
      have hcslash : c ≠ '/' := fun h => hslash (h ▸ hc)
      simp [escapeChar, hctilde, hcslash]
    unfold escape
    rw [List.flatMap_congr hchar, List.flatMap_singleton', String.ofList_toList]

/-- Taken for a reference, the pointer of a component names the escaped name. -/
theorem schemaName_component (name : String) :
    Reference.schemaName (component name).text = escape name :=
  Reference.componentName_spelled .schemas (escape name)

/-- Naming what a pointer names gives the pointer back exactly if the name is plain. -/
theorem component_schemaName_iff {name : String} :
    component (Reference.schemaName (component name).text) = component name ↔ IsPlain name := by
  rw [schemaName_component, ← escape_eq_self_iff]
  constructor
  · intro h
    rw [← descend_nil (component (escape name))] at h
    exact (component_of_descend h).1
  · intro h
    rw [h]

end Pointer

namespace Document

variable {d : Document} {name : String} {schema : Schema}

/-- The reference that spells the name of a component out leads to it. -/
theorem dereference_spelled (h : d.components.schemas.get? name = some schema) :
    d.components.dereference ("#/components/schemas/" ++ name) = .ok schema := by
  have hname : Reference.schemaName ("#/components/schemas/" ++ name) = name :=
    Reference.componentName_spelled .schemas name
  rw [Components.dereference_eq_ok_iff, hname, h]

/-- **A pointer of a component is a reference to it if the name is plain.**  The pointer designates
the component in any case.  As a reference it leads to the component that has the escaped name, or
nowhere if there is none; a plain name is its own escaped form, and no other name is.  The
reference with the name spelled out leads to the component whatever the name is. -/
theorem component_pointers (h : d.components.schemas.get? name = some schema) :
    d.schemaAt? (.component name) = some schema ∧
    (Pointer.IsPlain name →
      d.components.dereference (Pointer.component name).text = .ok schema) ∧
    (Pointer.component (Reference.schemaName (Pointer.component name).text) =
      Pointer.component name ↔ Pointer.IsPlain name) ∧
    (¬ Pointer.IsPlain name → Pointer.escape name ≠ name ∧
      (∀ other, d.components.dereference (Pointer.component name).text = .ok other ↔
        d.components.schemas.get? (Pointer.escape name) = some other) ∧
      (d.components.dereference (Pointer.component name).text =
          .error (.unresolved (Pointer.component name).text) ↔
        Pointer.escape name ∉ d.components.schemas.keys)) ∧
    d.components.dereference ("#/components/schemas/" ++ name) = .ok schema := by
  have hleads (other : Schema) :
      d.components.dereference (Pointer.component name).text = .ok other ↔
        d.components.schemas.get? (Pointer.escape name) = some other := by
    rw [Components.dereference_eq_ok_iff, Pointer.schemaName_component]
  refine ⟨schemaAt?_component h, fun hplain => ?_, Pointer.component_schemaName_iff,
    fun hspecial => ⟨fun hself => ?_, hleads, ?_⟩, dereference_spelled h⟩
  · rw [hleads, Pointer.escape_eq_self_iff.mpr hplain, h]
  · exact hspecial (Pointer.escape_eq_self_iff.mp hself)
  · rw [Components.dereference_eq_error_iff, Pointer.schemaName_component]
    exact and_iff_right rfl

/-- Component schemas of four names, three of which have special characters. -/
def pencilCase : Document :=
  { openapi := "3.0.0"
    components := { schemas := [
      ("Pen", { types := some (.single .string) }),
      ("a/b", { types := some (.single .string) }),
      ("a~1b", { types := some (.single .integer) }),
      ("m~n", { types := some (.single .boolean) })] } }

/-- `Pen` is plain; the pointer of `a/b` leads to `a~1b`, and that of `m~n` leads nowhere. -/
theorem component_pointers_pencilCase :
    pencilCase.components.dereference "#/components/schemas/Pen" =
      .ok { types := some (.single .string) } ∧
    pencilCase.components.dereference "#/components/schemas/a~1b" =
      .ok { types := some (.single .integer) } ∧
    pencilCase.components.dereference "#/components/schemas/a/b" =
      .ok { types := some (.single .string) } ∧
    pencilCase.components.dereference "#/components/schemas/m~0n" =
      .error (.unresolved "#/components/schemas/m~0n") := by
  have hpen : pencilCase.components.schemas.get? "Pen" =
      some { types := some (.single .string) } := rfl
  have hslash : pencilCase.components.schemas.get? "a/b" =
      some { types := some (.single .string) } := rfl
  have htilde : pencilCase.components.schemas.get? "m~n" =
      some { types := some (.single .boolean) } := rfl
  obtain ⟨-, hpen, -⟩ := component_pointers hpen
  obtain ⟨-, -, -, hslash, hspelled⟩ := component_pointers hslash
  obtain ⟨-, -, -, htilde, -⟩ := component_pointers htilde
  obtain ⟨-, hother, -⟩ := hslash (by decide)
  obtain ⟨-, -, hlost⟩ := htilde (by decide)
  exact ⟨hpen (by decide), (hother _).mpr rfl, hspelled, hlost.mpr (by decide)⟩

/-- The pointer of a component does not lead to it, and naming what it names gives another
pointer. -/
theorem component_pointers_astray :
    pencilCase.components.schemas.get? "m~n" = some { types := some (.single .boolean) } ∧
    (∀ schema, pencilCase.components.dereference (Pointer.component "m~n").text ≠ .ok schema) ∧
    Pointer.component (Reference.schemaName (Pointer.component "m~n").text) ≠
      Pointer.component "m~n" := by
  refine ⟨rfl, fun schema h => ?_, by decide⟩
  have hlost : pencilCase.components.dereference (Pointer.component "m~n").text =
      .error (.unresolved "#/components/schemas/m~0n") := by rfl
  rw [hlost] at h
  cases h

end Document
end ApiModel
