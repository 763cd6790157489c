import ApiModel.Model
/-!
# Structural equality

The comparisons of types look at some of what a type says and pass over the rest.  What they
look at is the *outline* of a type: two types are the same exactly if their outlines are equal.
So every comparison is an equivalence, and structurally equal composites have one name.
-/

namespace ApiModel

/-- Two names have the same letters if they are the same in lower case. -/
theorem Text.sameLetters_iff {a b : String} :
    Text.sameLetters a b = true ↔ Text.lowerCase a = Text.lowerCase b := by
  unfold Text.sameLetters Text.lowerCase
  rw [beq_iff_eq]
  exact String.ofList_inj.symm

/-- A comparison that looks at outlines is an equivalence. -/
theorem equivalence_of_outline {α β : Type} {same : α → α → Bool} {outline : α → β}
    (h : ∀ a b, same a b = true ↔ outline a = outline b) :
    Equivalence fun a b => same a b = true where
  refl a := (h a a).mpr rfl
  symm {a b} hab := (h b a).mpr ((h a b).mp hab).symm
  trans {a b c} hab hbc := (h a c).mpr (((h a b).mp hab).trans ((h b c).mp hbc))

namespace CodeModel

variable {m : CodeModel}

/-- Enums are looked up in any letter case. -/
theorem enumType?_of_sameLetters {a b : String} (h : Text.sameLetters a b = true) :
    m.enumType? a = m.enumType? b := by
  have hlower := Text.sameLetters_iff.mp h
  unfold enumType?
  congr 1
  funext e
  rw [Bool.eq_iff_iff, Text.sameLetters_iff, Text.sameLetters_iff, hlower]

/-- An enum that is found is found by its own name. -/
theorem enumType?_self {name : String} {e : EnumType} (h : m.enumType? name = some e) :
    m.enumType? e.name = some e := by
  have hfound := h
  unfold enumType? at hfound
  have hsame := List.find?_some hfound
  rw [enumType?_of_sameLetters hsame, h]

end CodeModel

namespace EnumValue

/-- What the comparison of enums looks at. -/
def outline (v : EnumValue) : EnumValue :=
  { name := v.name, serializedName := v.serializedName }

/-- Of an enum value the outline keeps its name and what is on the wire. -/
theorem outline_eq_iff {v w : EnumValue} :
    v.outline = w.outline ↔ (v.serializedName, v.name) = (w.serializedName, w.name) := by
  simp only [outline, EnumValue.mk.injEq, Prod.mk.injEq, and_true]
  exact and_comm

end EnumValue

namespace EnumType

/-- What the comparison of enums looks at: the name up to letter case, the kind, openness and
the literals. -/
def outline (e : EnumType) : EnumType :=
  { name := Text.lowerCase e.name
    underlying := e.underlying
    values := e.values.map EnumValue.outline
    modelAsString := e.modelAsString }

/-- The literals agree in order when their outlines do. -/
theorem map_outline_eq_iff {vs ws : List EnumValue} :
    vs.map EnumValue.outline = ws.map EnumValue.outline ↔
      vs.map (fun v => (v.serializedName, v.name)) =
        ws.map (fun v => (v.serializedName, v.name)) := by
  induction vs generalizing ws with
  | nil => cases ws <;> simp
  | cons v vs ih =>
    cases ws with
    | nil => simp
    | cons w ws =>
      rw [List.map_cons, List.map_cons, List.map_cons, List.map_cons, List.cons.injEq,
        List.cons.injEq, ih, EnumValue.outline_eq_iff]

/-- Enums are the same if their outlines are. -/
theorem sameShape_iff {a b : EnumType} : a.sameShape b = true ↔ a.outline = b.outline := by
  have houtline : a.outline = b.outline ↔ Text.lowerCase a.name = Text.lowerCase b.name ∧
      a.underlying = b.underlying ∧
      a.values.map EnumValue.outline = b.values.map EnumValue.outline ∧
      a.modelAsString = b.modelAsString := by
    simp [outline]
  rw [houtline, map_outline_eq_iff, ← Text.sameLetters_iff]
  unfold sameShape
  simp only [Bool.and_eq_true, beq_iff_eq]
  constructor
  · rintro ⟨⟨⟨hname, hopen⟩, hkind⟩, hvalues⟩
    exact ⟨hname, hkind, hvalues, hopen⟩
  · rintro ⟨hname, hkind, hvalues, hopen⟩
    exact ⟨⟨⟨hname, hopen⟩, hkind⟩, hvalues⟩

end EnumType

namespace ModelType

/-- What the comparison by shape looks at: no formats, no documentation, and composites by
handle. -/
def outline : ModelType → ModelType
  | .primitive type => .primitive { kind := type.kind }
  | .enum type => .enum type.outline
  | .sequence element => .sequence element.outline
  | .dictionary value _ => .dictionary value.outline false
  | .composite id => .composite id

/-- Types are the same if their outlines are. -/
theorem sameShape_iff {a b : ModelType} : a.sameShape b = true ↔ a.outline = b.outline := by
  induction a generalizing b with
  | primitive type => cases b <;> simp [sameShape, outline]
  | enum type =>
    cases b with
    | enum type' => simpa [sameShape, outline] using EnumType.sameShape_iff
    | _ => simp [sameShape, outline]
  | sequence element ih =>
    cases b with
    | sequence element' => simpa [sameShape, outline] using ih
    | _ => simp [sameShape, outline]
  | dictionary value additional ih =>
    cases b with
    | dictionary value' additional' => simpa [sameShape, outline] using ih
    | _ => simp [sameShape, outline]
  | composite id => cases b <;> simp [sameShape, outline]

end ModelType

namespace Property

/-- What the comparison of properties looks at. -/
def outline (p : Property) : Property :=
  { name := p.name
    serializedName := p.serializedName
    type := p.type.outline
    defaultValue := p.defaultValue
    isRequired := p.isRequired
    isConstant := p.isConstant
    isReadOnly := p.isReadOnly }

/-- Properties are the same if their outlines are. -/
theorem sameShape_iff {a b : Property} : a.sameShape b = true ↔ a.outline = b.outline := by
  unfold sameShape outline
  simp only [Bool.and_eq_true, beq_iff_eq, ModelType.sameShape_iff, Property.mk.injEq]
  constructor
  · rintro ⟨⟨⟨⟨⟨⟨hname, hwire⟩, hrequired⟩, hconstant⟩, hread⟩, hdefault⟩, htype⟩
    exact ⟨hname, hwire, htype, trivial, trivial, hdefault, hrequired, hconstant, hread, trivial,
      trivial, trivial, trivial⟩
  · rintro ⟨hname, hwire, htype, -, -, hdefault, hrequired, hconstant, hread, -⟩
    exact ⟨⟨⟨⟨⟨⟨hname, hwire⟩, hrequired⟩, hconstant⟩, hread⟩, hdefault⟩, htype⟩

end Property

namespace Composite

/-- What the comparison of composites looks at. -/
def outline (c : Composite) : Composite :=
  { name := c.name
    serializedName := c.serializedName
    baseType := c.baseType
    discriminator := c.discriminator
    properties := c.properties.map Property.outline }

/-- Properties are compared one by one, in their order. -/
theorem sameProperties_iff {as bs : List Property} :
    sameProperties as bs = true ↔ as.map Property.outline = bs.map Property.outline := by
  induction as generalizing bs with
  | nil => cases bs <;> simp [sameProperties]
  | cons a as ih =>
    cases bs with
    | nil => simp [sameProperties]
    | cons b bs =>
      rw [sameProperties, Bool.and_eq_true, Property.sameShape_iff, ih, List.map_cons,
        List.map_cons, List.cons.injEq]

/-- Composites are the same if their outlines are. -/
theorem sameShape_iff {a b : Composite} : a.sameShape b = true ↔ a.outline = b.outline := by
  unfold sameShape outline
  simp only [Bool.and_eq_true, beq_iff_eq, sameProperties_iff, Composite.mk.injEq]
  constructor
  · rintro ⟨⟨⟨⟨hname, hwire⟩, hdiscriminator⟩, hbase⟩, hproperties⟩
    exact ⟨hname, hwire, trivial, trivial, trivial, trivial, hbase, hdiscriminator, hproperties,
      trivial, trivial⟩
  · rintro ⟨hname, hwire, -, -, -, -, hbase, hdiscriminator, hproperties, -⟩
    exact ⟨⟨⟨⟨hname, hwire⟩, hdiscriminator⟩, hbase⟩, hproperties⟩

/-- Composites that are the same agree in name, parent and discriminator, and their properties in
name and order. -/
theorem agree_of_sameShape {a b : Composite} (h : a.sameShape b = true) :
    a.name = b.name ∧ a.baseType = b.baseType ∧ a.discriminator = b.discriminator ∧
      a.properties.map (·.name) = b.properties.map (·.name) := by
  have houtline := sameShape_iff.mp h
  simp only [outline, Composite.mk.injEq] at houtline
  obtain ⟨hname, -, -, -, -, -, hbase, hdiscriminator, hproperties, -⟩ := houtline
  have hnames := congrArg (List.map Property.name) hproperties
  rw [List.map_map, List.map_map] at hnames
  exact ⟨hname, hbase, hdiscriminator, hnames⟩

end Composite

namespace ModelType

/-- What the comparison of types looks at: of a composite its outline, of any other type its
own. -/
def outlineIn (arena : Arena) : ModelType → Composite ⊕ ModelType
  | .composite id => .inl (arena.get id).outline
  | type => .inr type.outline

variable {arena : Arena} {a b c : ModelType}

/-- **Types are the same exactly if their outlines are equal.** -/
theorem sameIn_iff : a.sameIn arena b = true ↔ a.outlineIn arena = b.outlineIn arena := by
  cases a with
  | composite id =>
    cases b with
    | composite id' =>
      rw [sameIn, Bool.or_eq_true, beq_iff_eq, Composite.sameShape_iff, outlineIn, outlineIn,
        Sum.inl.injEq]
      constructor
      · rintro (rfl | houtline)
        · rfl
        · exact houtline
      · exact .inr
    | _ => simp [sameIn, sameShape, outlineIn]
  | _ =>
    cases b with
    | composite id' => simp [sameIn, sameShape, outlineIn]
    | _ => rw [sameIn, sameShape_iff, outlineIn, outlineIn, Sum.inr.injEq] <;> simp

/-- The comparison of types in an arena is an equivalence. -/
theorem sameIn_equivalence (arena : Arena) :
    Equivalence fun a b : ModelType => a.sameIn arena b = true :=
  equivalence_of_outline fun _ _ => sameIn_iff

theorem sameIn_refl (arena : Arena) (a : ModelType) : a.sameIn arena a = true :=
  (sameIn_equivalence arena).refl a

theorem sameIn_symm (h : a.sameIn arena b = true) : b.sameIn arena a = true :=
  (sameIn_equivalence arena).symm h

theorem sameIn_trans (hab : a.sameIn arena b = true) (hbc : b.sameIn arena c = true) :
    a.sameIn arena c = true :=
  (sameIn_equivalence arena).trans hab hbc

/-- Handles are the same type exactly if their composites are the same. -/
theorem sameIn_composite {id id' : CompositeId} :
    (ModelType.composite id).sameIn arena (.composite id') =
      (arena.get id).sameShape (arena.get id') := by
  rw [Bool.eq_iff_iff, sameIn_iff, Composite.sameShape_iff, outlineIn, outlineIn, Sum.inl.injEq]

/-- Structurally equal composites have one name. -/
theorem name_eq_of_sameIn {id id' : CompositeId}
    (h : (ModelType.composite id).sameIn arena (.composite id') = true) :
    (arena.get id).name = (arena.get id').name :=
  (Composite.agree_of_sameShape (sameIn_composite ▸ h)).1

/-- Only a type of a kind is the same as one of that kind. -/
theorem isKind_of_sameIn {kind : PrimitiveKind} (h : a.sameIn arena b = true)
    (ha : a.isKind kind = true) : b.isKind kind = true := by
  cases a with
  | primitive type =>
    cases b with
    | primitive type' =>
      have hkind : type.kind = type'.kind := by simpa [sameIn, sameShape] using h
      simpa [isKind, hkind] using ha
    | _ => simp [sameIn, sameShape] at h
  | _ => simp [isKind] at ha

/-- All types of a kind are the same. -/
theorem sameIn_of_isKind {kind : PrimitiveKind} (ha : a.isKind kind = true)
    (hb : b.isKind kind = true) : a.sameIn arena b = true := by
  cases a with
  | primitive type =>
    cases b with
    | primitive type' =>
      have hkind : type.kind = kind := by simpa [isKind] using ha
      have hkind' : type'.kind = kind := by simpa [isKind] using hb
      simp [sameIn, sameShape, hkind, hkind']
    | _ => simp [isKind] at hb
  | _ => simp [isKind] at ha

/-- **Structural equality is an equivalence** on the types of any arena, and so are the comparisons
that it is made of.  On handles it is the comparison of their composites, and composites that it
relates agree in name, parent, discriminator and the names of their properties. -/
theorem structural_equality :
    (∀ arena : Arena, Equivalence fun a b : ModelType => a.sameIn arena b = true) ∧
    (Equivalence fun a b : ModelType => a.sameShape b = true) ∧
    (Equivalence fun a b : Composite => a.sameShape b = true) ∧
    (Equivalence fun a b : Property => a.sameShape b = true) ∧
    (Equivalence fun a b : EnumType => a.sameShape b = true) ∧
    (∀ (arena : Arena) (id id' : CompositeId),
      (ModelType.composite id).sameIn arena (.composite id') =
        (arena.get id).sameShape (arena.get id')) ∧
    (∀ a b : Composite, a.sameShape b = true →
      a.name = b.name ∧ a.baseType = b.baseType ∧ a.discriminator = b.discriminator ∧
        a.properties.map (·.name) = b.properties.map (·.name)) := by
  refine ⟨sameIn_equivalence, ?_, ?_, ?_, ?_, fun _ _ _ => sameIn_composite,
    fun _ _ => Composite.agree_of_sameShape⟩
  · exact equivalence_of_outline fun _ _ => sameShape_iff
  · exact equivalence_of_outline fun _ _ => Composite.sameShape_iff
  · exact equivalence_of_outline fun _ _ => Property.sameShape_iff
  · exact equivalence_of_outline fun _ _ => EnumType.sameShape_iff

/-- A pet whose kind is an enum, with a name for the enum and a text about the pet. -/
def pet (enumName about : String) : Composite :=
  { Composite.named "Pet" with
    documentation := some about
    properties := [
      { Property.ofType "kind" (.sequence (.enum {
          name := enumName
          values := [.ofLiteral "cat", .ofLiteral "dog"]
          documentation := some about })) with documentation := some about },
      Property.ofType "mother" (.composite 0)] }

/-- The same pet three times. -/
def pets : Arena :=
  ⟨#[pet "Kind" "A pet.", pet "KIND" "An animal.", pet "kind" ""]⟩

/-- Three pets with enums that differ in case and documentation are the same. -/
theorem structural_equality_pets :
    (ModelType.composite 0).sameIn pets (.composite 1) = true ∧
    (ModelType.composite 1).sameIn pets (.composite 2) = true ∧
    (ModelType.composite 0).sameIn pets (.composite 2) = true ∧
    (pets.get 0).properties.map (·.name) = (pets.get 2).properties.map (·.name) := by
  obtain ⟨hequivalence, -, -, -, -, hcomposite, hagree⟩ := structural_equality
  have hfirst : (ModelType.composite 0).sameIn pets (.composite 1) = true := by decide
  have hsecond : (ModelType.composite 1).sameIn pets (.composite 2) = true := by decide
  have hboth := (hequivalence pets).trans hfirst hsecond
  have hshapes : (pets.get 0).sameShape (pets.get 2) = true := by
    rw [← hcomposite, hboth]
  exact ⟨hfirst, hsecond, hboth, (hagree _ _ hshapes).2.2.2⟩

end ModelType

end ApiModel
