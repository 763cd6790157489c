import ApiModel.Proofs.Equality
import ApiModel.Proofs.TypesInUse
/-!
# Composites that are replaced

A node has its slot before its composite is finished, so that what is built below may refer to it;
only then may an equal composite of the same name turn out to exist, and from there on the memo
answers with that one.  What was given out in between keeps the slot.  Whether anything was depends
on which of the two is older.  If the other composite has the older handle, it was finished before
the slot was taken; the two have equal properties, so all their handles are older than the slot too,
and a build that comes out with old handles only has given no new composite a name.  So nobody who
was listed since then holds the slot.  If the other composite is younger, it was built below the
slot, and whoever was built in between may hold the slot for good.
-/

namespace ApiModel

/-- An outline has the handles of its type. -/
theorem ModelType.handles_outline (type : ModelType) : type.outline.handles = type.handles := by
  induction type with
  | primitive type => rfl
  | enum type => rfl
  | sequence element ih => exact ih
  | dictionary value additional ih => exact ih
  | composite id => rfl

namespace Composite

/-- The handles in the types of the properties. -/
def propertyHandles (c : Composite) : List CompositeId :=
  c.properties.flatMap (·.type.handles)

/-- The handles of the properties are those in their types. -/
theorem propertyHandles_eq (c : Composite) :
    c.propertyHandles = c.propertyTypes.flatMap ModelType.handles :=
  (List.flatMap_map _ _ _).symm

/-- Equal composites hold the same handles in the same places. -/
theorem propertyHandles_of_sameShape {a b : Composite} (h : a.sameShape b = true) :
    a.propertyHandles = b.propertyHandles := by
  have houtline (c : Composite) :
      c.propertyHandles = c.outline.properties.flatMap (·.type.handles) := by
    unfold propertyHandles outline
    rw [List.flatMap_map]
    exact List.flatMap_congr fun p _ => (ModelType.handles_outline p.type).symm
  rw [houtline a, houtline b, Composite.sameShape_iff.mp h]

end Composite

namespace BuildState

/-- The memo answers with the handle for some node. -/
def Answered (s : BuildState) (h : CompositeId) : Prop :=
  ∃ id, s.builtNodes.lookup id = some h

/-- The handle stands under some name. -/
def Listed (s : BuildState) (h : CompositeId) : Prop :=
  ∃ name, s.namedTypes.get? name = some h

/-- The slot was taken for a node for which the memo answers with another handle. -/
def Replaced (s : BuildState) (h e : CompositeId) : Prop :=
  h ≠ e ∧ ∃ b ∈ s.begun, b.slot = h ∧ s.builtNodes.lookup b.node.id = some e

/-- Listed composites below the bound hold handles below the bound only. -/
def ClosedBelow (s : BuildState) (k : Nat) : Prop :=
  ∀ {name : String} {c : CompositeId}, s.namedTypes.get? name = some c → c < k →
    Within k (s.model.composite c).propertyHandles

/-- What holds of the handles that are given out, at every moment while types are built.  A listed
composite is the answer for its node, and what its properties hold are answers for their nodes or
slots that gave way to younger composites. -/
structure Orderly (s : BuildState) : Prop where
  named : ∀ {name : String} {h : CompositeId}, s.namedTypes.get? name = some h → h < s.size
  answered : ∀ {id : Pointer} {h : CompositeId}, s.builtNodes.lookup id = some h → h < s.size
  begunNodes : (s.begun.map (·.node.id)).Nodup
  begunSlots : (s.begun.map Begun.slot).Nodup
  begun : ∀ b ∈ s.begun, b.slot < s.size ∧ ∃ h, s.builtNodes.lookup b.node.id = some h
  bearer : ∀ b ∈ s.begun, s.Listed b.slot → s.builtNodes.lookup b.node.id = some b.slot
  held : ∀ {name : String} {c : CompositeId}, s.namedTypes.get? name = some c →
    ∀ h ∈ (s.model.composite c).propertyHandles, s.Answered h ∨ ∃ e, h < e ∧ s.Replaced h e

variable {s t u : BuildState}

/-- A handle that answers for a node goes on answering for some. -/
theorem Answered.extend {h : CompositeId} (hs : s.Answered h) (hst : s.Extends t) :
    t.Answered h := by
  obtain ⟨id, hid⟩ := hs
  exact ⟨id, hst.builtNodes hid⟩

/-- A name that leads to a handle goes on leading there. -/
theorem Listed.extend {h : CompositeId} (hs : s.Listed h) (hst : s.Extends t) : t.Listed h := by
  obtain ⟨name, hname⟩ := hs
  exact ⟨name, hst.named hname⟩

/-- A composite that was replaced stays replaced, by the same one. -/
theorem Replaced.extend {h e : CompositeId} (hs : s.Replaced h e) (hst : s.Extends t) :
    t.Replaced h e := by
  obtain ⟨hne, b, hb, hslot, hlookup⟩ := hs
  exact ⟨hne, b, hst.begun.subset hb, hslot, hst.builtNodes hlookup⟩

/-- While no name is given, closedness below old handles is kept. -/
theorem ClosedBelow.extend {k : Nat} (hs : s.ClosedBelow k) (hst : s.Extends t)
    (hnames : t.namedTypes = s.namedTypes) (hk : k ≤ s.size) : t.ClosedBelow k := by
  intro name c hname hc
  rw [hnames] at hname
  rw [hst.composite (Nat.lt_of_lt_of_le hc hk)]
  exact hs hname hc

namespace Orderly

/-- A composite with a name holds handles that are given out. -/
theorem held_lt (hs : s.Orderly) {name : String} {c : CompositeId}
    (hname : s.namedTypes.get? name = some c) :
    Within s.size (s.model.composite c).propertyHandles := by
  intro h hh
  obtain ⟨id, hid⟩ | ⟨e, hlt, -, b, -, -, hlookup⟩ := hs.held hname h hh
  · exact hs.answered hid
  · exact Nat.lt_trans hlt (hs.answered hlookup)

/-- All that is listed holds handles that were given out. -/
theorem closedBelow_size (hs : s.Orderly) : s.ClosedBelow s.size :=
  fun hname _ => hs.held_lt hname

/-- A slot was taken for one node. -/
theorem begun_of_slot (hs : s.Orderly) {b b' : Begun} (hb : b ∈ s.begun) (hb' : b' ∈ s.begun)
    (hslot : b.slot = b'.slot) : b = b' :=
  List.inj_on_of_nodup_map hs.begunSlots hb hb' hslot

/-- A node took one slot. -/
theorem begun_of_node (hs : s.Orderly) {b b' : Begun} (hb : b ∈ s.begun) (hb' : b' ∈ s.begun)
    (hnode : b.node.id = b'.node.id) : b = b' :=
  List.inj_on_of_nodup_map hs.begunNodes hb hb' hnode

/-- What tells nothing of types is of no concern. -/
theorem same (hs : s.Orderly) (hst : s.SameTypes t) : t.Orderly := by
  have htypes := hst.propertyTypes
  obtain ⟨hsize, -, hnamed, hbuilt, hbegun, -⟩ := hst
  constructor
  case named =>
    rw [hnamed, hsize]
    exact hs.named
  case answered =>
    rw [hbuilt, hsize]
    exact hs.answered
  case begunNodes =>
    rw [hbegun]
    exact hs.begunNodes
  case begunSlots =>
    rw [hbegun]
    exact hs.begunSlots
  case begun =>
    rw [hbegun, hbuilt, hsize]
    exact hs.begun
  case bearer =>
    unfold Listed
    rw [hbegun, hbuilt, hnamed]
    exact hs.bearer
  case held =>
    intro name c hname h hh
    unfold Answered Replaced
    rw [hnamed] at hname
    rw [Composite.propertyHandles_eq, htypes c (hs.named hname),
      ← Composite.propertyHandles_eq] at hh
    rw [hbegun, hbuilt]
    exact hs.held hname h hh

/-- Neither is a composite that has no name. -/
theorem allocated (hs : s.Orderly) (c : Composite) : (s.allocated c).Orderly := by
  have hlt : s.size < (s.allocated c).size := by
    rw [size_allocated]
    exact Nat.lt_succ_self _
  constructor
  case named => exact fun hname => Nat.lt_trans (hs.named hname) hlt
  case answered => exact fun hid => Nat.lt_trans (hs.answered hid) hlt
  case begunNodes => exact hs.begunNodes
  case begunSlots => exact hs.begunSlots
  case begun =>
    intro b hb
    obtain ⟨hslot, hanswer⟩ := hs.begun b hb
    exact ⟨Nat.lt_trans hslot hlt, hanswer⟩
  case bearer => exact hs.bearer
  case held =>
    intro name c' hname h hh
    have hkept : (s.allocated c).model.composite c' = s.model.composite c' :=
      Arena.get_push_of_lt (hs.named hname)
    rw [hkept] at hh
    exact hs.held hname h hh

/-- Beginning a new node keeps a state orderly. -/
theorem reserved (hs : s.Orderly) {node : Located} {name : String}
    (hnew : s.builtNodes.lookup node.id = none) : (s.reserved node name).Orderly := by
  have hgrown : s.Extends (s.reserved node name) := .reserved hnew
  have hlt : s.size < (s.reserved node name).size := by
    rw [size_reserved]
    exact Nat.lt_succ_self _
  have hunlisted : ¬ s.Listed s.size := by
    intro hlisted
    obtain ⟨n, hn⟩ := hlisted
    exact Nat.lt_irrefl _ (hs.named hn)
  constructor
  case named => exact fun hn => Nat.lt_trans (hs.named hn) hlt
  case answered =>
    intro id h hid
    by_cases hnode : id = node.id
    · rw [hnode, lookup_reserved] at hid
      cases hid
      exact hlt
    · rw [lookup_reserved_of_ne hnode] at hid
      exact Nat.lt_trans (hs.answered hid) hlt
  case begunNodes =>
    refine nodup_begun_reserved hs.begunNodes fun b hb hid => ?_
    obtain ⟨h, hh⟩ := (hs.begun b hb).2
    rw [hid, hnew] at hh
    cases hh
  case begunSlots =>
    exact nodup_begun_reserved hs.begunSlots fun b hb => Nat.ne_of_lt (hs.begun b hb).1
  case begun =>
    intro b hb
    obtain hold | rfl := mem_begun_reserved.mp hb
    · obtain ⟨hslot, h, hh⟩ := hs.begun b hold
      exact ⟨Nat.lt_trans hslot hlt, h, hgrown.builtNodes hh⟩
    · exact ⟨hlt, s.size, lookup_reserved s node name⟩
  case bearer =>
    intro b hb hlisted
    obtain hold | rfl := mem_begun_reserved.mp hb
    · exact hgrown.builtNodes (hs.bearer b hold hlisted)
    · exact absurd hlisted hunlisted
  case held =>
    intro n c hn h hh
    rw [hgrown.composite (hs.named hn)] at hh
    obtain hanswered | ⟨e, hyounger, hreplaced⟩ := hs.held hn h hh
    · exact .inl (hanswered.extend hgrown)
    · exact .inr ⟨e, hyounger, hreplaced.extend hgrown⟩

section Registered

variable {node : Located} {slot : CompositeId} {proposed name : String} {composite : Composite}
  {parent : Option String}

/-- A composite under a new name is the answer for its node. -/
theorem registered_new (ht : t.Orderly) (hbegun : ⟨slot, node, proposed⟩ ∈ t.begun)
    (hlookup : t.builtNodes.lookup node.id = some slot) (hunlisted : ¬ t.Listed slot)
    (hheld : ∀ h ∈ composite.propertyHandles, t.Answered h)
    (hfree : t.namedTypes.get? name = none) :
    (t.registered slot node.id composite parent name none).Orderly := by
  have hfits : Build.Fits t parent name none := hfree
  have hslot : slot < t.size := ht.answered hlookup
  have hsize : (t.registered slot node.id composite parent name none).size = t.size :=
    size_registered
  have hnames {n : String} {h : CompositeId}
      (hn : (t.registered slot node.id composite parent name none).namedTypes.get? n = some h) :
      t.namedTypes.get? n = some h ∨ h = slot := by
    obtain hold | ⟨hself, -⟩ := named_of_named_registered hfits hn
    · exact .inl hold
    · exact .inr hself
  constructor
  case named =>
    intro n h hn
    rw [hsize]
    obtain hold | rfl := hnames hn
    · exact ht.named hold
    · exact hslot
  case answered =>
    rw [hsize]
    exact ht.answered
  case begunNodes => exact ht.begunNodes
  case begunSlots => exact ht.begunSlots
  case begun =>
    rw [hsize]
    exact ht.begun
  case bearer =>
    intro b hb hlisted
    obtain ⟨n, hn⟩ := hlisted
    obtain hold | hself := hnames hn
    · exact ht.bearer b hb ⟨n, hold⟩
    · obtain rfl := ht.begun_of_slot hb hbegun hself
      exact hlookup
  case held =>
    intro n c hn h hh
    obtain hold | rfl := hnames hn
    · have hne : c ≠ slot := by
        intro heq
        exact hunlisted ⟨n, heq ▸ hold⟩
      rw [composite_registered_of_ne hne] at hh
      exact ht.held hold h hh
    · rw [composite_registered hslot] at hh
      exact .inl (hheld h hh)

/-- What was an answer stays one, but for the slot, which may give way. -/
theorem answered_registered (hlookup : t.builtNodes.lookup node.id = some slot)
    {existing? : Option CompositeId} {h : CompositeId} (hanswered : t.Answered h) :
    h = slot ∨ (t.registered slot node.id composite parent name existing?).Answered h := by
  obtain ⟨id, hid⟩ := hanswered
  by_cases hnode : id = node.id
  · rw [hnode, hlookup] at hid
    exact .inl (Option.some.inj hid).symm
  · exact .inr ⟨id, (lookup_registered_of_ne hnode).trans hid⟩

/-- A slot that gave way to a composite has done so for good. -/
theorem replaced_registered (ht : t.Orderly) (hbegun : ⟨slot, node, proposed⟩ ∈ t.begun)
    (hlookup : t.builtNodes.lookup node.id = some slot) {existing? : Option CompositeId}
    {h e : CompositeId} (hreplaced : t.Replaced h e) :
    (t.registered slot node.id composite parent name existing?).Replaced h e := by
  obtain ⟨hne, b, hb, hslot, hanswer⟩ := hreplaced
  have hnode : b.node.id ≠ node.id := by
    intro hnode
    rw [hnode, hlookup] at hanswer
    cases hanswer
    obtain rfl := ht.begun_of_node hb hbegun hnode
    exact hne hslot.symm
  exact ⟨hne, b, hb, hslot, (lookup_registered_of_ne hnode).trans hanswer⟩

/-- A composite that gives way to an older one is held by no listed composite; one that gives way to
a younger one may be. -/
theorem registered_existing (ht : t.Orderly) (hbegun : ⟨slot, node, proposed⟩ ∈ t.begun)
    (hlookup : t.builtNodes.lookup node.id = some slot) (hunlisted : ¬ t.Listed slot)
    {e : CompositeId} (he : t.namedTypes.get? name = some e)
    (hparent : t.parents.get? name = parent)
    (hunheld : e < slot → ∀ {n : String} {c : CompositeId}, t.namedTypes.get? n = some c →
      slot ∉ (t.model.composite c).propertyHandles) :
    (t.registered slot node.id composite parent name (some e)).Orderly := by
  have hfits : Build.Fits t parent name (some e) := ⟨he, hparent⟩
  have hsize : (t.registered slot node.id composite parent name (some e)).size = t.size :=
    size_registered
  have hnames {n : String} {h : CompositeId}
      (hn : (t.registered slot node.id composite parent name (some e)).namedTypes.get? n =
        some h) : t.namedTypes.get? n = some h := by
    obtain hold | ⟨rfl, rfl⟩ := named_of_named_registered hfits hn
    · exact hold
    · rw [named_registered] at hn
      exact he.trans hn
  have hself : (t.registered slot node.id composite parent name (some e)).builtNodes.lookup
      node.id = some e := lookup_registered hlookup
  have hne : e ≠ slot := by
    intro heq
    exact hunlisted ⟨name, heq ▸ he⟩
  constructor
  case named =>
    intro n h hn
    rw [hsize]
    exact ht.named (hnames hn)
  case answered =>
    intro id h hid
    rw [hsize]
    obtain ⟨-, heq⟩ | hold := lookup_of_lookup_registered hid
    · cases heq
      exact ht.named he
    · exact ht.answered hold
  case begunNodes => exact ht.begunNodes
  case begunSlots => exact ht.begunSlots
  case begun =>
    intro b hb
    rw [hsize]
    exact ⟨(ht.begun b hb).1, exists_lookup_registered (ht.begun b hb).2⟩
  case bearer =>
    intro b hb hlisted
    obtain ⟨n, hn⟩ := hlisted
    have hbearer := ht.bearer b hb ⟨n, hnames hn⟩
    by_cases hnode : b.node.id = node.id
    · obtain rfl := ht.begun_of_node hb hbegun hnode
      exact absurd ⟨n, hnames hn⟩ hunlisted
    · exact (lookup_registered_of_ne hnode).trans hbearer
  case held =>
    intro n c hn h hh
    have hc := hnames hn
    have hcne : c ≠ slot := by
      intro heq
      exact hunlisted ⟨n, heq ▸ hc⟩
    rw [composite_registered_of_ne hcne] at hh
    obtain hanswered | ⟨e', hlt, hreplaced⟩ := ht.held hc h hh
    · obtain heq | hanswered := answered_registered hlookup hanswered
      · -- the slot itself, which is held since it was taken
        rw [heq] at hh ⊢
        have hyounger : slot < e := by
          by_contra hnot
          have helder : e < slot := Nat.lt_of_le_of_ne (Nat.not_lt.mp hnot) hne
          exact hunheld helder hc hh
        exact .inr ⟨e, hyounger, hne.symm, _, hbegun, rfl, hself⟩
      · exact .inl hanswered
    · exact .inr ⟨e', hlt, replaced_registered ht hbegun hlookup hreplaced⟩

end Registered

end Orderly

/-- What a build that comes out with the given handles leaves behind.  The memo answers with the
handles; what it answers anew is listed; and if all the handles are old, no name was given. -/
structure Delivered (s : BuildState) (handles : List CompositeId) (t : BuildState) : Prop where
  grown : s.Extends t
  orderly : t.Orderly
  answered : ∀ h ∈ handles, t.Answered h
  settled : ∀ {id : Pointer} {h : CompositeId}, t.builtNodes.lookup id = some h →
    s.builtNodes.lookup id = some h ∨ t.Listed h
  calm : ∀ k ≤ s.size, s.ClosedBelow k → Within k handles → t.namedTypes = s.namedTypes

namespace Delivered

/-- Handles that answer already are delivered without a step. -/
theorem refl (hs : s.Orderly) {handles : List CompositeId}
    (hanswered : ∀ h ∈ handles, s.Answered h) : s.Delivered handles s where
  grown := .refl s
  orderly := hs
  answered := hanswered
  settled h := .inl h
  calm _ _ _ _ := rfl

/-- What is delivered in a row is delivered together. -/
theorem trans {hs hs' : List CompositeId} (hst : s.Delivered hs t) (htu : t.Delivered hs' u) :
    s.Delivered (hs ++ hs') u where
  grown := hst.grown.trans htu.grown
  orderly := htu.orderly
  answered h hh := by
    obtain hh | hh := List.mem_append.mp hh
    · exact (hst.answered h hh).extend htu.grown
    · exact htu.answered h hh
  settled hid := by
    obtain hold | hnew := htu.settled hid
    · obtain hs | hlisted := hst.settled hold
      · exact .inl hs
      · exact .inr (hlisted.extend htu.grown)
    · exact .inr hnew
  calm k hk hclosed hwithin := by
    obtain ⟨hfirst, hsecond⟩ := Within.append_iff.mp hwithin
    have hnames := hst.calm k hk hclosed hfirst
    have hclosed' : t.ClosedBelow k := hclosed.extend hst.grown hnames hk
    rw [htu.calm k (hk.trans hst.grown.size_le) hclosed' hsecond, hnames]

/-- A handle that is looked up is of no concern. -/
theorem stray {handles : List CompositeId} (hst : s.Delivered handles t)
    (ids : List CompositeId) : s.Delivered handles { t with strayHandles := ids } where
  grown := hst.grown.trans { Extends.refl t with rest := rfl }
  orderly := hst.orderly.same (.aside rfl List.prefix_rfl)
  answered := hst.answered
  settled := hst.settled
  calm := hst.calm

end Delivered

section Slot

variable {node : Located} {proposed : String} {handles : List CompositeId}
  (hst : (s.reserved node proposed).Delivered handles t)
include hst

/-- While its fields are built, a node is begun, with the slot that it took. -/
theorem Delivered.begun_slot : ⟨s.size, node, proposed⟩ ∈ t.begun :=
  hst.grown.begun.subset (mem_begun_reserved.mpr (.inr rfl))

/-- The memo answers with the slot. -/
theorem Delivered.lookup_slot : t.builtNodes.lookup node.id = some s.size :=
  hst.grown.builtNodes (lookup_reserved s node proposed)

/-- The slot has no name. -/
theorem Delivered.unlisted_slot (hs : s.Orderly) : ¬ t.Listed s.size := by
  intro hlisted
  obtain ⟨n, hn⟩ := hlisted
  obtain hold | hlater := hst.grown.fresh hn
  · exact Nat.lt_irrefl _ (hs.named hold)
  · rw [size_reserved] at hlater
    exact Nat.not_succ_le_self _ hlater

end Slot

section Filled

variable {node : Located} {proposed name : String} {composite : Composite}
  {parent : Option String}

/-- If a composite that is there already has the name, and its handle is old, then no name was given
while the properties of the new one were built. -/
theorem names_of_older (hnew : s.builtNodes.lookup node.id = none)
    (hst : (s.reserved node proposed).Delivered composite.propertyHandles t)
    (hopen : Build.Open t composite parent name) {e : CompositeId}
    (he : t.namedTypes.get? name = some e) {k : Nat} (hk : k ≤ s.size) (hclosed : s.ClosedBelow k)
    (helder : e < k) : t.namedTypes = s.namedTypes := by
  have hreserved : s.Extends (s.reserved node proposed) := .reserved hnew
  have hsize : s.size ≤ (s.reserved node proposed).size := hreserved.size_le
  have hes : e < s.size := Nat.lt_of_lt_of_le helder hk
  have hold : s.namedTypes.get? name = some e := by
    obtain hname | hlater := hst.grown.fresh he
    · exact hname
    · exact absurd hes (Nat.not_lt.mpr (hsize.trans hlater))
  have hkept : t.model.composite e = s.model.composite e :=
    (hreserved.trans hst.grown).composite hes
  -- equal properties hold equal handles, so those of the new composite are old as well
  have hwithin : Within k composite.propertyHandles := by
    have hsame := Composite.propertyHandles_of_sameShape (hopen e he).1
    rw [hkept] at hsame
    exact hsame ▸ hclosed hold helder
  exact hst.calm k (hk.trans hsize) (hclosed.extend hreserved rfl hk) hwithin

/-- A node that is begun delivers its composite: its own slot, or one that was there. -/
theorem Delivered.filled (hs : s.Orderly) (hnew : s.builtNodes.lookup node.id = none)
    (hst : (s.reserved node proposed).Delivered composite.propertyHandles t)
    (hopen : Build.Open t composite parent name) :
    s.Delivered [(t.namedTypes.get? name).getD s.size]
      (t.registered s.size node.id composite parent name (t.namedTypes.get? name)) := by
  have hreserved : s.Extends (s.reserved node proposed) := .reserved hnew
  have hfits := hopen.fits
  have hself : (t.registered s.size node.id composite parent name
      (t.namedTypes.get? name)).builtNodes.lookup node.id =
        some ((t.namedTypes.get? name).getD s.size) := lookup_registered hst.lookup_slot
  constructor
  case grown => exact .filled hnew hst.grown hfits
  case orderly =>
    cases he : t.namedTypes.get? name with
    | none =>
      exact hst.orderly.registered_new hst.begun_slot hst.lookup_slot (hst.unlisted_slot hs)
        hst.answered he
    | some e =>
      refine hst.orderly.registered_existing hst.begun_slot hst.lookup_slot
        (hst.unlisted_slot hs) he (hopen e he).2 ?_
      intro helder n c hn hmem
      have hnames := names_of_older hnew hst hopen he le_rfl hs.closedBelow_size helder
      rw [hnames] at hn
      rw [(hreserved.trans hst.grown).composite (hs.named hn)] at hmem
      exact Nat.lt_irrefl _ (hs.held_lt hn _ hmem)
  case answered =>
    intro h hh
    rw [List.mem_singleton.mp hh]
    exact ⟨node.id, hself⟩
  case settled =>
    intro id h hid
    by_cases hnode : id = node.id
    · rw [hnode, hself] at hid
      exact .inr ⟨name, named_registered.trans hid⟩
    · rw [lookup_registered_of_ne hnode] at hid
      obtain hold | ⟨n, hn⟩ := hst.settled hid
      · rw [lookup_reserved_of_ne hnode] at hold
        exact .inl hold
      · exact .inr ⟨n, named_registered_of_named hfits hn⟩
  case calm =>
    intro k hk hclosed hwithin
    have hlt := hwithin _ List.mem_cons_self
    cases he : t.namedTypes.get? name with
    | none =>
      rw [he] at hlt
      exact absurd hlt (Nat.not_lt.mpr hk)
    | some e =>
      rw [he] at hlt
      have hnames := names_of_older hnew hst hopen he hk hclosed hlt
      change t.namedTypes.insert name e = _
      rw [Entries.insert_of_get? he, hnames]

end Filled

end BuildState

namespace Build

open BuildState

/-- The builder for the nodes below delivers the handles of its type. -/
def BuilderDelivers (inner : TypeBuilder) : Prop :=
  ∀ (x : Located) (name : String) (required : Bool) {s : BuildState}, s.Orderly →
    Ensures (inner x.schema x.id name required) s (fun type t => s.Delivered type.handles t)
      fun _ _ => True

variable {input : BuildInput} {inner : TypeBuilder} {s : BuildState}

/-- A property holds what the type of its field holds. -/
theorem handles_of_finish {c : Components} {x : Located} {name : String} {view : Expanded}
    {f : Field} (hf : f ∈ fields c x name view) {type : ModelType} {p : Property}
    (hp : f.finish type = .ok p) : p.type.handles = type.handles := by
  obtain htype | htype := type_of_finish hf hp
  · rw [htype]
  · rw [htype]
    rfl

/-- The properties of a composite are delivered with the handles in their types. -/
theorem buildFields_delivered (hinner : BuilderDelivers inner) {l : List Field}
    (hfinish : ∀ f ∈ l, ∀ type p, f.finish type = .ok p → p.type.handles = type.handles)
    (hs : s.Orderly) :
    Ensures (l.mapM (buildField inner)) s
      (fun ps t => s.Delivered (ps.flatMap (·.type.handles)) t) fun _ _ => True := by
  induction l generalizing s with
  | nil => exact .refl hs (by simp)
  | cons f l ih =>
    rw [List.mapM_cons, ensures_bind]
    unfold buildField
    rw [ensures_bind]
    refine (hinner f.node f.name f.required hs).mono ?_ fun _ _ _ => trivial
    intro type t hst
    rw [ensures_resolving]
    refine ⟨?_, fun _ _ => trivial⟩
    intro p hp
    rw [ensures_bind]
    have hrest := ih (fun f' hf' => hfinish f' (List.mem_cons_of_mem _ hf')) hst.orderly
    refine hrest.mono ?_ fun _ _ _ => trivial
    intro ps u htu
    rw [ensures_pure, List.flatMap_cons, hfinish f List.mem_cons_self type p hp]
    exact hst.trans htu

/-- A composite is delivered under the handle that answers for its node in the end. -/
theorem buildComposite_delivered (hinner : BuilderDelivers inner) (x : Located) (name : String)
    (hs : s.Orderly) :
    Ensures (buildComposite input.components inner x.schema x.id name) s
      (fun h t => s.Delivered [h] t) fun _ _ => True := by
  refine ensures_buildComposite (fun existing hlookup => ?_) (fun _ _ _ => trivial)
    fun hlookup view _ => ?_
  · refine .refl hs ?_
    intro h hh
    rw [List.mem_singleton.mp hh]
    exact ⟨x.id, hlookup⟩
  · have hfields : Ensures ((fields input.components x name view).mapM (buildField inner))
        (s.reserved x name)
        (fun ps t => (s.reserved x name).Delivered (ps.flatMap (·.type.handles)) t)
        fun _ _ => True :=
      buildFields_delivered hinner (fun f hf _ _ hp => handles_of_finish hf hp)
        (hs.reserved hlookup)
    refine hfields.mono ?_ fun _ _ _ => trivial
    rintro properties t hst composite rfl ids k hleast
    exact Delivered.filled (t := { t with strayHandles := ids }) hs hlookup (hst.stray ids)
      hleast.1

/-- Carrying out a plan delivers the handles of its type. -/
theorem carryOut_delivered (hinner : BuilderDelivers inner) (plan : TypePlan) (hs : s.Orderly) :
    Ensures (carryOut input.components inner plan) s (fun type t => s.Delivered type.handles t)
      fun _ _ => True := by
  cases plan with
  | plain type => exact .refl hs nofun
  | enum declared =>
    rw [carryOut, ensures_bind]
    refine (registerEnum_lists declared s).mono ?_ fun _ _ _ => trivial
    intro e t ht
    obtain rfl | ⟨hnamed, hnew, rfl⟩ := ht
    · exact .refl hs nofun
    · constructor
      case grown => exact (extends_typing input AnyCall).enum hnamed hnew
      case orderly => exact hs.same (.aside rfl (List.prefix_append _ _))
      case answered => exact nofun
      case settled => exact .inl
      case calm => exact fun _ _ _ _ => rfl
  | sequence x name =>
    rw [carryOut, ensures_bind]
    exact (hinner x name false hs).mono (fun _ _ hst => hst) fun _ _ _ => trivial
  | dictionary x name =>
    rw [carryOut, ensures_bind]
    exact (hinner x name false hs).mono (fun _ _ hst => hst) fun _ _ _ => trivial
  | composite x name =>
    rw [carryOut, ensures_bind]
    exact (buildComposite_delivered hinner x name hs).mono (fun _ _ hst => hst)
      fun _ _ _ => trivial

/-- **Every build of a type delivers its handles.** -/
theorem typeBuilder_delivered (input : BuildInput) (layers : Nat) :
    BuilderDelivers (typeBuilder input layers) := by
  induction layers with
  | zero =>
    intro x name required s hs
    exact trivial
  | succ layers ih =>
    intro x name required s hs
    rw [typeBuilder, layer_eq]
    cases planType input x name required with
    | error e => exact trivial
    | ok plan => exact carryOut_delivered ih plan hs

end Build

end ApiModel
