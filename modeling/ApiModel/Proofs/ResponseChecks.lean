import ApiModel.Proofs.BodyChecks
import ApiModel.Proofs.Flattening
/-!
# What the checks of bodies see

A run that ends with the error of a check has refused a body, and a run that ends well has passed
all of them.  Both checks look at the view of a node, and so do not see what comes by way of its
parent.  A composite whose bytes are all inherited is refused, and where an operation produces
nothing, a body is dropped although it has properties, if it inherits all of them.
-/

namespace ApiModel

namespace Components

variable {c : Components} {x y : Located} {nodes : List Located} {view : Expanded} {name : String}

/-- What a node extends leads to another one. -/
def HasParent (c : Components) (x y : Located) : Prop :=
  ∃ parent s, x.schema.parentName? = some parent ∧ c.schemas.get? parent = some s ∧
    c.Leads ⟨.component parent, s⟩ y

/-- A node whose view is empty comes by the names of its parent. -/
theorem inherits_iff_of_empty (hview : c.expand x = .ok view) (hempty : view.properties = []) :
    c.Inherits x name ↔ ∃ y, c.HasParent x y ∧ c.Inherits y name := by
  obtain ⟨nodes, hflattened⟩ := flattened_of_expand hview
  rw [hflattened.inherits_iff, hempty, hflattened.parent]
  constructor
  · rintro (hname | ⟨parent, s, hparent, hs, y, hleads, hy⟩)
    · cases hname
    · exact ⟨y, ⟨parent, s, hparent, hs, hleads⟩, hy⟩
  · rintro ⟨y, ⟨parent, s, hparent, hs, hleads⟩, hy⟩
    exact .inr ⟨parent, s, hparent, hs, y, hleads, hy⟩

end Components

namespace MethodResponse

/-- Every response that is declared, save the default one, is there without a body. -/
def Bodiless (declared : List (String × RefOr Response)) (responses : Entries MethodResponse) :
    Prop :=
  ∀ entry ∈ declared, Text.sameLetters entry.1 "default" = false →
    ∃ response, responses.get? entry.1 = some response ∧ response.body = none

variable {declared : List (String × RefOr Response)} {responses : Entries MethodResponse}
  {entry : String × RefOr Response}

/-- A default response is not one of those that are asked for. -/
theorem Bodiless.concat_default (h : Bodiless declared responses)
    (hdefault : Text.sameLetters entry.1 "default" = true) :
    Bodiless (declared ++ [entry]) responses := by
  intro entry' hentry' hother
  rcases List.mem_append.mp hentry' with hold | hnew
  · exact h entry' hold hother
  · rw [List.mem_singleton.mp hnew, hdefault] at hother
    cases hother

/-- A response that is built without a body is listed without one. -/
theorem Bodiless.concat (h : Bodiless declared responses) {response : MethodResponse}
    (hbody : response.body = none) :
    Bodiless (declared ++ [entry]) (responses.insert entry.1 response) := by
  intro entry' hentry' hother
  rw [Entries.get?_insert]
  split_ifs with hsame
  · exact ⟨response, rfl, hbody⟩
  · rcases List.mem_append.mp hentry' with hold | hnew
    · exact h entry' hold hother
    · rw [List.mem_singleton.mp hnew] at hsame
      exact absurd rfl hsame

end MethodResponse

namespace Build

variable {input : BuildInput} {method : MethodSite} {s : BuildState}

/-- Where an operation produces nothing no response has a body. -/
theorem buildResponseBody_none (status : String) (body : Option Schema) (id : Pointer) :
    Ensures (buildResponseBody input method status body id []) s (fun type _ => type = none)
      fun _ _ => True := by
  unfold buildResponseBody
  cases body with
  | none => exact rfl
  | some schema =>
    have hunread : isDeserializable [] = false := rfl
    dsimp only
    rw [hunread, if_neg Bool.false_ne_true, if_neg (by simp), ensures_bind, ensures_resolving]
    refine ⟨fun node _ => ?_, fun _ _ => trivial⟩
    rw [ensures_bind, ensures_resolving]
    refine ⟨fun view _ => ?_, fun _ _ => trivial⟩
    split_ifs
    · exact rfl
    · rw [ensures_bind, ensures_report]
      exact trivial

/-- The responses of an operation that produces nothing have no bodies. -/
theorem buildResponses_bodiless (headers : Option CompositeId) :
    Ensures (buildResponses input method [] headers) s
      (fun built _ => MethodResponse.Bodiless method.operation.responses built.responses)
      fun _ _ => True := by
  unfold buildResponses
  refine ensures_foldlM (E := fun _ _ => True) (I := fun done (built : BuiltResponses) _ =>
    MethodResponse.Bodiless done built.responses) (by nofun) ?_
  intro done entry rest _ built t hdone
  rw [ensures_bind, ensures_resolving]
  refine ⟨fun response _ => ?_, fun _ _ => trivial⟩
  refine ensures_buildResponse (fun _ hread => ?_) (fun hdefault _ => hdone.concat_default hdefault)
    fun _ id body u hbody _ => hdone.concat ?_
  · cases hread
  · exact (buildResponseBody_none entry.1 _ id).of_run_ok hbody

/-- A method that produces nothing has no bodies, whatever its responses declare. -/
theorem buildMethod_bodiless (input : BuildInput) (site : OperationSite) (operationId : String)
    (group : Option String) (name : String) (s : BuildState) :
    Ensures (buildMethod input site operationId group name) s
      (fun m _ => input.components.producedTypes site.operation = .ok [] →
        MethodResponse.Bodiless site.operation.responses m.responses)
      fun _ _ => True := by
  refine (buildMethod_stages input site operationId group name s).mono ?_ fun _ _ _ => trivial
  rintro m _ ⟨stages⟩ hnothing
  have hbuilt := stages.buildBodies
  rw [Except.ok.inj (stages.produces.symm.trans hnothing)] at hbuilt
  rw [stages.responses_eq, ← stages.operation_eq]
  exact (buildResponses_bodiless stages.headers).of_run_ok hbuilt

end Build

open Build

namespace Document

/-- **What the checks of bodies see.**  A run ends with the error of a check only if a body is
refused, and a run that ends well has checked all bodies.  Where an operation produces what cannot
be read into a model, the composite of a body was begun for a node that shows bytes.  Where it
produces nothing, its methods have no bodies, and the node of a body comes by no names but those of
its parent. -/
theorem response_checks (d : Document) (options : Options) :
    (∀ e t, d.run options = (.error e, t) → e.refusesBody = true → d.Refused options e t) ∧
    ∀ t, d.run options = (.ok (), t) →
      (∀ site ∈ d.operations, ∀ x y, d.RawBody site x →
        d.components.unwrap x.schema x.id = .ok y →
        y.schema.shape options.generateEmptyClasses = .composite →
        ∃ b, t.Embodies ⟨d, options⟩ x b ∧ d.components.ShowsBytes b.node) ∧
      (∀ site ∈ d.operations, ∀ status x, d.SilentBody site status x →
        ∃ y view, d.components.unwrap x.schema x.id = .ok y ∧ d.components.expand y = .ok view ∧
          view.properties = [] ∧ ∀ name, d.components.Inherits y name ↔
            ∃ z, d.components.HasParent y z ∧ d.components.Inherits z name) ∧
      List.Forall₂ (fun site m => d.components.producedTypes site.operation = .ok [] →
        MethodResponse.Bodiless site.operation.responses m.responses) d.operations
        t.model.methods := by
  have hservice (m : CodeModel) (hinitial : initialModel ⟨d, options⟩ = .ok m) :=
    buildService_passes (quiescent_start hinitial)
  obtain ⟨hpasses, hexcuses⟩ := run_of_phases hservice
  constructor
  · intro e t hrun he
    obtain hlocal | hexcuse := hexcuses e t hrun
    · rw [BuildError.not_refusesBody_of_local hlocal] at he
      cases he
    · exact hexcuse he
  · intro t hrun
    obtain ⟨stages⟩ := stages hrun
    refine ⟨?_, ?_, ?_⟩
    · intro site hsite x y hraw hy hshape
      obtain ⟨entry, hentry, hx, produced, hproduced, hne, hread⟩ := rawBody_iff.mp hraw
      exact (hpasses t hrun site hsite entry hentry).raw hx hproduced hne hread hy hshape
    · rintro site hsite status x ⟨entry, hentry, -, hx, hproduced⟩
      obtain ⟨y, view, hy, hview, hempty⟩ :=
        (hpasses t hrun site hsite entry hentry).silent hx hproduced
      exact ⟨y, view, hy, hview, hempty, fun name => Components.inherits_iff_of_empty hview hempty⟩
    · exact stages.methods_each (Q := fun site m => d.components.producedTypes site.operation =
        .ok [] → MethodResponse.Bodiless site.operation.responses m.responses) (fun _ hm => hm)
        (buildMethod_bodiless ⟨d, options⟩)

/-- An operation with a response that has the component of the name for its body. -/
def fetching (operationId : String) (produces : Option (List String)) (mediaType name : String) :
    Operation where
  operationId := some operationId
  produces := produces
  responses := [("200", .node { content := [(mediaType, {
    schema := some { reference := some ("#/components/schemas/" ++ name) } })] })]

/-- The only body of such an operation is the reference. -/
theorem schema_of_bodyAt {d : Document} {site : OperationSite} {operationId : String}
    {produces : Option (List String)} {mediaType name : String}
    (hoperation : site.operation = fetching operationId produces mediaType name)
    {entry : String × RefOr Response} (hentry : entry ∈ site.operation.responses) {x : Located}
    (hx : d.BodyAt site entry x) :
    x.schema = { reference := some ("#/components/schemas/" ++ name) } := by
  rw [hoperation] at hentry
  obtain rfl := List.mem_singleton.mp hentry
  obtain ⟨response, hresponse, hschema, -, -⟩ := hx
  cases hresponse
  exact (Option.some.inj hschema).symm

/-- An operation that produces nothing has a silent body. -/
theorem silentBody_fetching {d : Document} {site : OperationSite}
    {operationId mediaType name : String}
    (hoperation : site.operation = fetching operationId (some []) mediaType name) :
    ∃ x, d.SilentBody site "200" x := by
  let response : Response := { content := [(mediaType, {
    schema := some { reference := some ("#/components/schemas/" ++ name) } })] }
  have hdefault : Text.sameLetters "200" "default" = false := by decide +kernel
  refine ⟨⟨response.bodyPointer site.pointer "200", _⟩, ("200", .node response), ?_, rfl,
    ⟨response, rfl, rfl, rfl, hdefault⟩, ?_⟩
  · rw [hoperation]
    exact List.mem_singleton_self _
  · rw [hoperation]
    rfl

/-- A picture holds bytes. -/
def picture : Located where
  id := .component "Picture"
  schema := {
    properties := [("content", { Schema.ofType .string with format := some "byte" })] }

/-- A photo is a picture with a title. -/
def photo : Located where
  id := .component "Photo"
  schema := {
    allOf := [{ reference := some "#/components/schemas/Picture" }]
    properties := [("title", .ofType .string)] }

/-- An operation that produces a photo. -/
def album : Document where
  openapi := "3.0.0"
  info := some { title := some "Album", version := "1" }
  paths := [("/photo", { get := some (fetching "photo" none "image/png" "Photo") })]
  components := { schemas := [("Picture", picture.schema), ("Photo", photo.schema)] }

/-- A box has a label. -/
def box : Located where
  id := .component "Box"
  schema := { properties := [("label", .ofType .string)] }

/-- A drawer is a box. -/
def drawer : Located where
  id := .component "Drawer"
  schema := { Schema.ofType .object with
    allOf := [{ reference := some "#/components/schemas/Box" }] }

/-- An operation that produces nothing, and whose response is a drawer. -/
def closet : Document where
  openapi := "3.0.0"
  info := some { title := some "Closet", version := "1" }
  paths := [("/drawer", { get := some (fetching "drawer" (some []) "application/json" "Drawer") })]
  components := { schemas := [("Box", box.schema), ("Drawer", drawer.schema)] }

theorem album_run : album.run {} =
    (.error (.missingByteArrayProperty "photo" "Photo"), (album.run {}).2) :=
  Prod.ext (by decide +kernel) rfl

theorem closet_run : closet.run {} = (.ok (), (closet.run {}).2) :=
  Prod.ext (by decide +kernel) rfl

theorem album_operation {site : OperationSite} (h : site ∈ album.operations) :
    site.operation = fetching "photo" none "image/png" "Photo" := by
  have hall : album.operations.map OperationSite.operation =
      [fetching "photo" none "image/png" "Photo"] := rfl
  exact List.mem_singleton.mp (hall ▸ List.mem_map_of_mem h)

theorem closet_operation : ∃ site ∈ closet.operations,
    site.operation = fetching "drawer" (some []) "application/json" "Drawer" := by
  have hall : closet.operations.map OperationSite.operation =
      [fetching "drawer" (some []) "application/json" "Drawer"] := rfl
  exact List.mem_map.mp (hall ▸ List.mem_singleton_self _)

/-- A photo is a picture. -/
theorem photo_hasParent : album.components.HasParent photo picture := by
  have hparent : photo.schema.parentName? = some "Picture" := by decide +kernel
  exact ⟨"Picture", picture.schema, hparent, rfl, .own rfl rfl⟩

/-- A drawer is a box. -/
theorem drawer_hasParent : closet.components.HasParent drawer box := by
  have hparent : drawer.schema.parentName? = some "Box" := by decide +kernel
  exact ⟨"Box", box.schema, hparent, rfl, .own rfl rfl⟩

/-- A bare reference leads where the component leads. -/
theorem leads_component {c : Components} {name : String} {schema : Schema} {x y : Located}
    (hx : x.schema = { reference := some ("#/components/schemas/" ++ name) })
    (hname : Reference.schemaName ("#/components/schemas/" ++ name) = name)
    (hschema : c.schemas.get? name = some schema)
    (hleads : c.Leads ⟨.component name, schema⟩ y) : c.Leads x y := by
  have hbare : x.schema.bareReference? = some ("#/components/schemas/" ++ name) := by
    rw [hx]
    rfl
  rw [← hname] at hschema hleads
  exact .reference hbare (Components.dereference_eq_ok_iff.mpr hschema) hleads

/-- The body of the album is the photo. -/
theorem album_unwrap {site : OperationSite} (hsite : site ∈ album.operations) {x : Located}
    (hx : album.RawBody site x) : album.components.unwrap x.schema x.id = .ok photo := by
  obtain ⟨entry, hentry, hbody, -⟩ := rawBody_iff.mp hx
  exact Components.unwrap_eq_ok_iff_leads.mpr (leads_component
    (schema_of_bodyAt (album_operation hsite) hentry hbody) (by decide +kernel) rfl (.own rfl rfl))

/-- The drawer is the body of a response of an operation that produces nothing. -/
theorem closet_body : ∃ site ∈ closet.operations, ∃ x, closet.SilentBody site "200" x ∧
    closet.components.unwrap x.schema x.id = .ok drawer := by
  obtain ⟨site, hsite, hoperation⟩ := closet_operation
  obtain ⟨x, hx⟩ := silentBody_fetching (d := closet) hoperation
  obtain ⟨entry, hentry, -, hbody, -⟩ := id hx
  exact ⟨site, hsite, x, hx, Components.unwrap_eq_ok_iff_leads.mpr (leads_component
    (schema_of_bodyAt hoperation hentry hbody) (by decide +kernel) rfl (.own rfl rfl))⟩

/-- A picture shows its bytes itself. -/
theorem picture_showsBytes : album.components.ShowsBytes picture := by
  obtain ⟨view, hview, entry, hentry, y, hy, hbytes⟩ :
      ∃ view ∈ (album.components.expand picture).toOption.toList,
        ∃ entry ∈ picture.schema.modelled view,
          ∃ y ∈ (album.components.unwrap entry.2.schema entry.2.id).toOption.toList,
            y.schema.primitiveKind? = some .byteArray ∧
              (y.schema.enumValues.isSome &&
                Build.isEnumerable y.schema (view.isRequired entry.1)) = false := by
    decide +kernel
  exact ⟨view, Except.toOption_eq_some_iff.mp (Option.mem_toList.mp hview), entry, hentry, y,
    Except.toOption_eq_some_iff.mp (Option.mem_toList.mp hy), hbytes⟩

/-- The photo is refused although it is a picture, and the drawer is dropped although it is a
box. -/
theorem response_checks_inherited :
    album.Refused {} (.missingByteArrayProperty "photo" "Photo") (album.run {}).2 ∧
    ∃ site ∈ closet.operations, ∃ x y view, closet.SilentBody site "200" x ∧
      closet.components.unwrap x.schema x.id = .ok y ∧ closet.components.expand y = .ok view ∧
      view.properties = [] ∧ closet.components.Inherits y "label" ∧
      List.Forall₂ (fun site m => closet.components.producedTypes site.operation = .ok [] →
        MethodResponse.Bodiless site.operation.responses m.responses) closet.operations
        (closet.run {}).2.model.methods := by
  obtain ⟨hrefused, -⟩ := response_checks album {}
  obtain ⟨-, hpassed⟩ := response_checks closet {}
  obtain ⟨-, hsilent, hmethods⟩ := hpassed _ closet_run
  obtain ⟨site, hsite, x, hx, hdrawer⟩ := closet_body
  obtain ⟨y, view, hy, hview, hempty, hnames⟩ := hsilent site hsite "200" x hx
  cases hdrawer.symm.trans hy
  have hlabel : closet.components.Inherits drawer "label" :=
    (hnames "label").mpr ⟨box, drawer_hasParent, .own List.mem_cons_self⟩
  exact ⟨hrefused _ _ album_run rfl, site, hsite, x, drawer, view, hx, hy, hview, hempty, hlabel,
    hmethods⟩

/-- Neither check sees what is inherited. -/
theorem inherited_unseen :
    (¬ ∀ (d : Document) (options : Options) (operationId name : String) (t : BuildState),
      d.run options = (.error (.missingByteArrayProperty operationId name), t) →
        ∃ site ∈ d.operations, site.operation.operationId = some operationId ∧
          ∃ x y, d.RawBody site x ∧ d.components.unwrap x.schema x.id = .ok y ∧
            ¬ d.components.ShowsBytes y ∧
            ∀ z, d.components.HasParent y z → ¬ d.components.ShowsBytes z) ∧
    ¬ ∀ (d : Document) (options : Options) (t : BuildState), d.run options = (.ok (), t) →
      ∀ site ∈ d.operations, ∀ status x, d.SilentBody site status x →
        ∀ y, d.components.unwrap x.schema x.id = .ok y → ∀ name, ¬ d.components.Inherits y name := by
  constructor
  · intro hall
    obtain ⟨site, hsite, -, x, y, hx, hy, -, hparents⟩ := hall album {} _ _ _ album_run
    cases (album_unwrap hsite hx).symm.trans hy
    exact hparents picture photo_hasParent picture_showsBytes
  · intro hall
    obtain ⟨site, hsite, x, hx, hdrawer⟩ := closet_body
    refine hall closet {} _ closet_run site hsite "200" x hx drawer hdrawer "label" ?_
    have hm : _ ∈ drawer.memberNodes := List.mem_singleton_self _
    exact .member hm (leads_component rfl (by decide +kernel) rfl (.own rfl rfl))
      (.own List.mem_cons_self : closet.components.Inherits box "label")

end Document

end ApiModel
