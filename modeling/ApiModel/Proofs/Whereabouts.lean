import ApiModel.Proofs.DistinctNames
import ApiModel.Proofs.Following
/-!
# Where the resolver leads

The resolver hands out nodes together with pointers, and the rest of a build takes the pointer
for the node.  It may: a reference is answered with the pointer of a component, a wrapper is
opened with the pointer of its member, and a flattened property keeps the pointer of the schema
that declares it, so that node and pointer never part.
-/

namespace ApiModel.Document

variable {d : Document}

/-- Following references comes to nodes that their pointers designate. -/
theorem schemaAt?_of_follows {x y : Located} {names : List String}
    (h : d.components.Follows x names y) (hx : d.schemaAt? x.id = some x.schema) :
    d.schemaAt? y.id = some y.schema := by
  induction h with
  | refl => exact hx
  | wrapper hwrapped hrest ih =>
    exact ih (schemaAt?_member hx (by simp [Schema.allOf_of_wrapped hwrapped]))
  | reference hbare htarget hrest ih =>
    exact ih (schemaAt?_component (Components.dereference_eq_ok_iff.mp htarget))

/-- The nodes that their pointers designate are closed under going down. -/
theorem designated_hereditary (hd : d.DistinctNames) :
    Hereditary d.components fun x => d.schemaAt? x.id = some x.schema where
  component hs :=
    schemaAt?_component ((Entries.get?_eq_some_iff hd.nodup_schemas).mpr hs)
  child hx hy := by
    obtain ⟨path, -, hplace⟩ := schemaAt?_eq_some_iff.mp hx
    exact schemaAt?_child hx (Schema.nodup_properties (hd.at hplace)) hy

/-- **Pointers and nodes stay together.**  Let a node stand at a pointer.  What `unwrap` makes of
the two is a node with content of its own, which stands at the pointer that comes with it and to
which `unwrap` has nothing to add; and the properties that `expand` lists stand at theirs.  The
walk takes no more steps than it has.  It reports a circle exactly when following references comes
back to a component that it has come through, and a reference without a component exactly when it
comes to one. -/
theorem unwrap_designates (d : Document) {s : Schema} {id : Pointer}
    (hs : d.schemaAt? id = some s) :
    (∀ t, d.components.unwrap s id = .ok t →
      t.schema.isBareReference = false ∧ t.schema.wrapped? = none ∧
      d.schemaAt? t.id = some t.schema ∧ d.components.unwrap t.schema t.id = .ok t ∧
      (d.DistinctNames → ∀ view, d.components.expand t = .ok view →
        ∀ entry ∈ view.properties, d.schemaAt? entry.2.id = some entry.2.schema)) ∧
    (∀ steps, d.components.schemas.length ≤ steps →
      d.components.unwrapFrom [] steps ⟨id, s⟩ = d.components.unwrap s id) ∧
    (∀ reference, d.components.unwrap s id = .error (.circular reference) ↔
      ∃ names y, d.components.Follows ⟨id, s⟩ names y ∧ names.Nodup ∧
        y.schema.bareReference? = some reference ∧ Reference.schemaName reference ∈ names) ∧
    (∀ reference, d.components.unwrap s id = .error (.unresolved reference) ↔
      ∃ names y, d.components.Follows ⟨id, s⟩ names y ∧
        y.schema.bareReference? = some reference ∧
        Reference.schemaName reference ∉ d.components.schemas.keys) := by
  refine ⟨fun t ht => ?_, fun steps hsteps => Components.unwrapFrom_eq_unwrap hsteps s id,
    fun reference => Components.unwrap_eq_circular_iff,
    fun reference => Components.unwrap_eq_unresolved_iff⟩
  obtain ⟨names, hfollows, hwrapped, hbare⟩ := Components.unwrap_eq_ok_iff.mp ht
  have hplace : d.schemaAt? t.id = some t.schema := schemaAt?_of_follows hfollows hs
  have hnot : t.schema.isBareReference = false := by
    rw [Schema.isBareReference, hbare]
    rfl
  refine ⟨hnot, hwrapped, hplace, Components.unwrap_self t.id hbare hwrapped, ?_⟩
  intro hd view hview entry hentry
  obtain ⟨x, hx, hbelow⟩ := (designated_hereditary hd).expand hplace hview entry hentry
  exact (designated_hereditary hd).child hx hbelow

/-- A component with a slash in its name and a tilde in that of its property, and another one
that stands for it. -/
def slashed : Document where
  openapi := "3.0.0"
  components := { schemas := [
    ("Alias", { allOf := [{ reference := some "#/components/schemas/a/b" }] }),
    ("a/b", { properties := [("x~y", .ofType .string)] })] }

theorem slashed_distinctNames : slashed.DistinctNames := by
  have halias : (Place.schema
      { allOf := [{ reference := some "#/components/schemas/a/b" }] }).Distinct := by
    refine Schema.distinct_of_parts List.nodup_nil (by simp) ?_ (by simp)
      (by simp [Schema.valueSchema?])
    intro member hmember
    rw [List.mem_singleton.mp hmember]
    exact Schema.distinct_leaf rfl rfl rfl rfl
  have hcomponent : (Place.schema { properties := [("x~y", .ofType .string)] }).Distinct :=
    Schema.distinct_object (by decide)
      (List.forall_mem_singleton.mpr (Schema.distinct_leaf rfl rfl rfl rfl))
  have hschemas : (Place.members slashed.components.schemas .schema).Distinct :=
    Place.distinct_members (by decide)
      (List.forall_mem_cons.mpr ⟨halias, List.forall_mem_singleton.mpr hcomponent⟩)
  have hcomponents : slashed.components.place.Distinct :=
    Components.distinct_place hschemas (Place.distinct_empty _) (Place.distinct_empty _)
      (Place.distinct_empty _) (Place.distinct_empty _)
  exact distinct_place (fun _ h => absurd h List.not_mem_nil) hcomponents (Place.distinct_empty _)
    (Place.distinct_empty _)

/-- The alias comes to the component with the slash in its name, whose pointer tells the slash
from a separator. -/
theorem unwrap_designates_slashed :
    ∃ s t view, slashed.schemaAt? (.component "Alias") = some s ∧ slashed.DistinctNames ∧
      slashed.components.unwrap s (.component "Alias") = .ok t ∧
      t.id.text = "#/components/schemas/a~1b" ∧ slashed.schemaAt? t.id = some t.schema ∧
      slashed.components.expand t = .ok view ∧
      view.properties.map (·.2.id.text) = ["#/components/schemas/a~1b/properties/x~0y"] ∧
      ∀ entry ∈ view.properties, slashed.schemaAt? entry.2.id = some entry.2.schema := by
  have hs : slashed.schemaAt? (.component "Alias") =
      some { allOf := [{ reference := some "#/components/schemas/a/b" }] } := by rfl
  have hname : Reference.schemaName "#/components/schemas/a/b" = "a/b" := by decide +kernel
  have htarget : slashed.components.dereference "#/components/schemas/a/b" =
      .ok { properties := [("x~y", .ofType .string)] } := by
    rw [Components.dereference_eq_ok_iff, hname]
    rfl
  have hwrapped : Schema.wrapped? { allOf := [{ reference := some "#/components/schemas/a/b" }] } =
      some { reference := some "#/components/schemas/a/b" } := rfl
  have hbare : Schema.bareReference? { reference := some "#/components/schemas/a/b" } =
      some "#/components/schemas/a/b" := rfl
  have hfollows : slashed.components.Follows ⟨.component "Alias", _⟩ _ _ :=
    .wrapper hwrapped (.reference hbare htarget (.refl _))
  rw [hname] at hfollows
  have ht := Components.unwrap_eq_ok_iff.mpr ⟨_, hfollows, rfl, rfl⟩
  have hsound := (unwrap_designates slashed hs).1 _ ht
  exact ⟨_, _, _, hs, slashed_distinctNames, ht, by decide, hsound.2.2.1, rfl, by decide,
    hsound.2.2.2.2 slashed_distinctNames _ rfl⟩

end ApiModel.Document
