import ApiModel.Build.Parameter
import ApiModel.Proofs.Entries
import ApiModel.Proofs.Outcomes
import ApiModel.Proofs.Steady
/-!
# What references into a section come to

A reference to a parameter, a request body, a response or a header comes to a node that stands
in its section, and what it comes to is a matter of the component that it names: the rest of the
walk is the walk from that component.
-/

namespace ApiModel

namespace Components

section Follow

variable {α : Type} {entries : Entries (RefOr α)} {target : ComponentSection}
  {seen seen' : List String} {steps steps' : Nat} {x : RefOr α} {value : α} {path : String}

/-- A reference is looked up by its last segment. -/
theorem lookup_eq_ok_iff {β : Type} {entries : Entries β} {value : β} :
    lookup entries target path = .ok value ↔
      entries.get? (Reference.componentName path target.name) = some value := by
  unfold lookup
  cases entries.get? (Reference.componentName path target.name) <;> simp

/-- A walk that ends with a node ends in its section, if it does not start at the node. -/
theorem mem_of_follow (h : follow entries target seen steps x = .ok value) :
    x = .node value ∨ ∃ key, (key, RefOr.node value) ∈ entries := by
  induction steps generalizing seen x with
  | zero =>
    cases x with
    | node v =>
      cases h
      exact .inl rfl
    | reference path => cases h
  | succ steps ih =>
    cases x with
    | node v =>
      cases h
      exact .inl rfl
    | reference path =>
      unfold follow at h
      split_ifs at h
      split at h
      · rename_i next hnext
        rcases ih h with rfl | hkey
        · exact .inr ⟨_, Entries.mem_of_get? (lookup_eq_ok_iff.mp hnext)⟩
        · exact .inr hkey
      · cases h

/-- A walk that ends with a node does so from less of a trail, and with more steps left. -/
theorem follow_forget (h : follow entries target seen steps x = .ok value) (hseen : seen' ⊆ seen)
    (hsteps : steps ≤ steps') : follow entries target seen' steps' x = .ok value := by
  induction steps generalizing seen seen' steps' x with
  | zero =>
    cases x with
    | node v =>
      cases h
      cases steps' <;> rfl
    | reference path => cases h
  | succ steps ih =>
    obtain ⟨steps', rfl⟩ := Nat.exists_eq_add_one_of_ne_zero (Nat.ne_zero_of_lt hsteps)
    cases x with
    | node v =>
      cases h
      rfl
    | reference path =>
      unfold follow at h ⊢
      split_ifs at h with hagain
      have hnew : ¬ seen'.contains path = true := by
        intro hmem
        exact hagain (List.contains_iff_mem.mpr (hseen (List.contains_iff_mem.mp hmem)))
      rw [if_neg hnew]
      split at h
      · exact ih h (List.cons_subset_cons path hseen) (Nat.le_of_succ_le_succ hsteps)
      · cases h

/-- What a reference comes to, the component that it names comes to. -/
theorem follow_named (h : follow entries target [] (steps + 1) (.reference path) = .ok value) :
    ∃ next, entries.get? (Reference.componentName path target.name) = some next ∧
      follow entries target [] (steps + 1) next = .ok value := by
  unfold follow at h
  split_ifs at h
  split at h
  · rename_i next hnext
    exact ⟨next, lookup_eq_ok_iff.mp hnext,
      follow_forget h (List.nil_subset _) (Nat.le_succ steps)⟩
  · cases h

end Follow

section Parameters

variable {c : Components} {seen seen' : List String} {steps steps' : Nat} {x : RefOr Parameter}
  {p : Parameter} {body : RequestBody} {path : String}

/-- A parameter that stands in its place is followed nowhere. -/
theorem followParameter_node (c : Components) (seen : List String) (steps : Nat) (p : Parameter) :
    c.followParameter seen steps (.node p) = .ok (.parameter p) := by
  unfold followParameter
  cases steps <;> rfl

/-- One step along a reference that does not lead into the request bodies. -/
theorem followParameter_succ (hlead : ¬ Reference.leadsInto path .requestBodies = true) :
    c.followParameter seen (steps + 1) (.reference path) =
      if seen.contains path then .error (.circular path)
      else match lookup c.parameters .parameters path with
        | .error e => .error e
        | .ok next => c.followParameter (path :: seen) steps next := by
  rw [followParameter.eq_def]
  dsimp only
  rw [if_neg hlead]
  split_ifs
  · rfl
  · cases lookup c.parameters .parameters path <;> rfl

/-- Without steps left a reference among the parameters comes to nothing. -/
theorem followParameter_zero (hlead : ¬ Reference.leadsInto path .requestBodies = true)
    {t : ParameterTarget} : c.followParameter seen 0 (.reference path) ≠ .ok t := by
  rw [followParameter.eq_def]
  dsimp only
  rw [if_neg hlead]
  split_ifs
  · exact fun h => by cases h
  · cases lookup c.parameters .parameters path <;> exact fun h => by cases h

/-- A reference into the request bodies is followed there, whatever came before. -/
theorem followParameter_body (hlead : Reference.leadsInto path .requestBodies = true) :
    c.followParameter seen steps (.reference path) =
      (c.resolveRequestBody (.reference path)).map .requestBody := by
  rw [followParameter.eq_def]
  dsimp only
  rw [if_pos hlead]
  cases c.resolveRequestBody (.reference path) <;> rfl

/-- What comes of a reference into the request bodies is no parameter. -/
theorem followParameter_body_ne (hlead : Reference.leadsInto path .requestBodies = true) :
    c.followParameter seen steps (.reference path) ≠ .ok (.parameter p) := by
  intro h
  rw [followParameter_body hlead] at h
  obtain ⟨_, -, hbody⟩ := Except.map_eq_ok_iff.mp h
  cases hbody

/-- A parameter that is found stands in its place or among the components. -/
theorem mem_of_followParameter (h : c.followParameter seen steps x = .ok (.parameter p)) :
    x = .node p ∨ ∃ key, (key, RefOr.node p) ∈ c.parameters := by
  induction steps generalizing seen x with
  | zero =>
    cases x with
    | node p' =>
      rw [followParameter_node] at h
      cases h
      exact .inl rfl
    | reference path =>
      by_cases hlead : Reference.leadsInto path .requestBodies = true
      · exact absurd h (followParameter_body_ne hlead)
      · exact absurd h (followParameter_zero hlead)
  | succ steps ih =>
    cases x with
    | node p' =>
      rw [followParameter_node] at h
      cases h
      exact .inl rfl
    | reference path =>
      by_cases hlead : Reference.leadsInto path .requestBodies = true
      · exact absurd h (followParameter_body_ne hlead)
      · rw [followParameter_succ hlead] at h
        split_ifs at h
        split at h
        · cases h
        · rename_i next hnext
          rcases ih h with rfl | hkey
          · exact .inr ⟨_, Entries.mem_of_get? (lookup_eq_ok_iff.mp hnext)⟩
          · exact .inr hkey

/-- A walk that ends well does so from less of a trail, and with more steps left. -/
theorem followParameter_forget {t : ParameterTarget} (h : c.followParameter seen steps x = .ok t)
    (hseen : seen' ⊆ seen) (hsteps : steps ≤ steps') :
    c.followParameter seen' steps' x = .ok t := by
  induction steps generalizing seen seen' steps' x with
  | zero =>
    cases x with
    | node p' => rwa [followParameter_node] at h ⊢
    | reference path =>
      by_cases hlead : Reference.leadsInto path .requestBodies = true
      · rwa [followParameter_body hlead] at h ⊢
      · exact absurd h (followParameter_zero hlead)
  | succ steps ih =>
    obtain ⟨steps', rfl⟩ := Nat.exists_eq_add_one_of_ne_zero (Nat.ne_zero_of_lt hsteps)
    cases x with
    | node p' => rwa [followParameter_node] at h ⊢
    | reference path =>
      by_cases hlead : Reference.leadsInto path .requestBodies = true
      · rwa [followParameter_body hlead] at h ⊢
      · rw [followParameter_succ hlead] at h ⊢
        split_ifs at h with hagain
        have hnew : ¬ seen'.contains path = true := by
          intro hmem
          exact hagain (List.contains_iff_mem.mpr (hseen (List.contains_iff_mem.mp hmem)))
        rw [if_neg hnew]
        split at h
        · cases h
        · exact ih h (List.cons_subset_cons path hseen) (Nat.le_of_succ_le_succ hsteps)

/-- What a reference to a parameter comes to, the component that it names comes to. -/
theorem resolveParameter_named (hlead : ¬ Reference.leadsInto path .requestBodies = true)
    {t : ParameterTarget} (h : c.resolveParameter (.reference path) = .ok t) :
    ∃ next, c.parameters.get?
        (Reference.componentName path ComponentSection.parameters.name) = some next ∧
      c.resolveParameter next = .ok t := by
  unfold resolveParameter at h ⊢
  rw [followParameter_succ hlead] at h
  split_ifs at h
  split at h
  · cases h
  · rename_i next hnext
    exact ⟨next, lookup_eq_ok_iff.mp hnext,
      followParameter_forget h (List.nil_subset _) (Nat.le_succ _)⟩

/-- What a reference to a request body comes to is what the component comes to. -/
theorem resolveRequestBody_named (h : c.resolveRequestBody (.reference path) = .ok body) :
    ∃ next, c.requestBodies.get?
        (Reference.componentName path ComponentSection.requestBodies.name) = some next ∧
      c.resolveRequestBody next = .ok body :=
  follow_named h

end Parameters

section Collected

variable {c : Components} {source : SourceParameter} {sources : List SourceParameter}

/-- Merging one parameter brings no other. -/
theorem mem_merge {own : SourceParameter}
    (h : source ∈ SourceParameter.merge sources own) : source ∈ sources ∨ source = own := by
  induction sources with
  | nil => exact .inr (List.mem_singleton.mp h)
  | cons s rest ih =>
    rw [SourceParameter.merge] at h
    split_ifs at h
    · rcases List.mem_cons.mp h with rfl | hrest
      · exact .inr rfl
      · exact .inl (.tail _ hrest)
    · rcases List.mem_cons.mp h with rfl | hrest
      · exact .inl List.mem_cons_self
      · exact (ih hrest).imp (.tail _) id

/-- Merging parameters brings no others. -/
theorem mem_foldl_merge {own : List SourceParameter}
    (h : source ∈ own.foldl SourceParameter.merge sources) : source ∈ sources ∨ source ∈ own := by
  induction own generalizing sources with
  | nil => exact .inl h
  | cons s own ih =>
    rcases ih h with hmerged | hown
    · rcases mem_merge hmerged with hold | rfl
      · exact .inl hold
      · exact .inr List.mem_cons_self
    · exact .inr (.tail _ hown)

/-- A parameter of a list of declarations comes from one of them. -/
theorem mem_sourceParameters {declared : List (RefOr Parameter)} {pointer : Pointer}
    (h : c.sourceParameters declared pointer = .ok sources) (hsource : source ∈ sources) :
    ∃ x index block, (x, index) ∈ declared.zipIdx ∧
      c.sourceParameter x (pointer.item index) = .ok block ∧ source ∈ block := by
  obtain ⟨blocks, hblocks, hflat⟩ := Except.bind_eq_ok_iff.mp h
  cases hflat
  obtain ⟨block, hblock, hmem⟩ := List.mem_flatten.mp hsource
  obtain ⟨⟨x, index⟩, hx, hresult⟩ :=
    Build.exists_of_forall₂ (forall₂_of_mapM_ok hblocks) block hblock
  exact ⟨x, index, block, hx, hresult, hmem⟩

/-- A parameter of an operation is declared by its path or by itself, or comes of its request
body. -/
theorem mem_collectParameters {item : PathItem} {operation : Operation}
    {pathPointer pointer : Pointer}
    (h : c.collectParameters item operation pathPointer pointer = .ok sources)
    (hsource : source ∈ sources) :
    (∃ x index block, (x, index) ∈ item.parameters.zipIdx ∧
      c.sourceParameter x ((pathPointer.child "parameters").item index) = .ok block ∧
      source ∈ block) ∨
    (∃ x index block, (x, index) ∈ operation.parameters.zipIdx ∧
      c.sourceParameter x ((pointer.child "parameters").item index) = .ok block ∧
      source ∈ block) ∨
    ∃ declared body block, operation.requestBody = some declared ∧
      c.resolveRequestBody declared = .ok body ∧
      c.recast body (bodyPointer declared pointer) = .ok block ∧ source ∈ block := by
  obtain ⟨shared, hshared, h⟩ := Except.bind_eq_ok_iff.mp h
  obtain ⟨own, hown, h⟩ := Except.bind_eq_ok_iff.mp h
  have hmerged (hmem : source ∈ own.foldl SourceParameter.merge shared) :=
    (mem_foldl_merge hmem).imp (mem_sourceParameters hshared) (mem_sourceParameters hown)
  cases hbody : operation.requestBody with
  | none =>
    rw [hbody] at h
    cases h
    exact (hmerged hsource).imp id .inl
  | some declared =>
    rw [hbody] at h
    obtain ⟨body, hresolved, h⟩ := Except.bind_eq_ok_iff.mp h
    obtain ⟨block, hblock, h⟩ := Except.bind_eq_ok_iff.mp h
    have hsplit : source ∈ own.foldl SourceParameter.merge shared ∨ source ∈ block := by
      split at h
      · rename_i index _
        split_ifs at h
        · cases h
          rcases List.mem_append.mp hsource with hfront | hback
          · rcases List.mem_append.mp hfront with htake | hmem
            · exact .inl (List.mem_of_mem_take htake)
            · exact .inr hmem
          · exact .inl (List.mem_of_mem_drop hback)
        · cases h
          exact List.mem_append.mp hsource
      · cases h
        exact List.mem_append.mp hsource
    rcases hsplit with hmem | hmem
    · exact (hmerged hmem).imp id .inl
    · exact .inr (.inr ⟨declared, body, block, rfl, hresolved, hblock, hmem⟩)

end Collected

end Components

end ApiModel
