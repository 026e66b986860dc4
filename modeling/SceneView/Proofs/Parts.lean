import SceneView.Proofs.Nesting

/-!
# The parts of a view

An item is an element of a document that an object is built for, and a part is that object. The
parts of a plan are what is built for the items of the document, in document order. Every statement
of a generated class comes from an attribute of the element of a part, from its place, from the first
value of a property or from a deferred group (`Planned.tells`).
-/

open List

namespace SceneView

open Compile

/-- An element with an object of its own. -/
structure Item where
  role : Role
  element : Element
  /-- The deferred groups around the element, the innermost first, if they decide where the object
  is built. -/
  groups? : Option (List String) := none

def textureItems (groups? : Option (List String)) (e : Element) : List Item :=
  match TextureKind.ofTag? e.tag with
  | some kind => [⟨.texture kind, e, groups?⟩]
  | none => []

/-- The items of a material: the textures in its slots follow it. -/
def materialItems (groups? : Option (List String)) (e : Element) : List Item :=
  match MaterialKind.ofTag? e.tag with
  | some kind =>
    ⟨.material kind, e, groups?⟩ ::
      e.children.flatMap fun slot => slot.children.flatMap (textureItems groups?)
  | none => []

def SharedKind.items (e : Element) : SharedKind → List Item
  | material => materialItems none e
  | texture => textureItems none e

/-- What a node stands for, if it has an object of its own. -/
def Node.role? (n : Node) : Option Role :=
  (NodeKind.ofTag? n.element.tag).bind NodeKind.role?

def Node.items (n : Node) : List Item :=
  if NodeKind.ofTag? n.element.tag = some .material then
    n.element.children.flatMap (materialItems (some n.groups))
  else n.role?.toList.map (⟨·, n.element, some n.groups⟩)

mutual

/-- An element and all elements below it. -/
def Element.subtree : Element → List Element
  | ⟨tag, attributes, children, text, line⟩ =>
    ⟨tag, attributes, children, text, line⟩ :: Element.subtrees children

def Element.subtrees : List Element → List Element
  | [] => []
  | e :: es => e.subtree ++ Element.subtrees es

end

/-- The items of a user interface: its controls follow it. -/
def guiItems (e : Element) : List Item :=
  match GuiRoot.ofTag? e.tag with
  | some .fullScreen =>
    ⟨.fullScreen, e, some []⟩ :: (Element.subtrees e.children).map (⟨.control, ·, none⟩)
  | some .onMesh =>
    ⟨.onMesh, e, none⟩ :: (Element.subtrees e.children).map (⟨.control, ·, none⟩)
  | none => []

def sectionItems (e : Element) : List Item :=
  match SectionKind.ofTag? e.tag with
  | some .nodes => (Element.nodesOf [] e.children).flatMap Node.items
  | some .materials => e.children.flatMap fun c => SharedKind.material.items c
  | some .textures => e.children.flatMap fun c => SharedKind.texture.items c
  | some .guis => e.children.flatMap guiItems
  | some .imports | some .properties | none => []

def Document.items (d : Document) : List Item :=
  d.sections.flatMap sectionItems

/-- The part is what is built for an item. -/
structure Part.IsOf (x : Part) (i : Item) : Prop where
  role : x.role = i.role
  element : x.element = i.element
  given : x.object.given = i.element.givenName?
  method : ∀ groups ∈ i.groups?, x.method = groupsMethod groups

lemma forall₂_flatMap {α β γ : Type} {R : β → γ → Prop} {l : List α} {f : α → List β}
    {g : α → List γ} (h : ∀ a ∈ l, List.Forall₂ R (f a) (g a)) :
    List.Forall₂ R (l.flatMap f) (l.flatMap g) := by
  induction l with
  | nil => exact .nil
  | cons a l ih =>
    exact rel_append (h a mem_cons_self) (ih fun b hb => h b (mem_cons_of_mem _ hb))

namespace Part

variable {isMixin : Bool} {site : Site} {x : Part} {role : Role} {e : Element}

lemma IsFor.isOf (hx : x.IsFor isMixin site role e) {groups?}
    (hmethod : ∀ groups ∈ groups?, x.method = groupsMethod groups) : x.IsOf ⟨role, e, groups?⟩ :=
  ⟨hx.role, hx.element, hx.given, hmethod⟩

lemma FillsAll.isOf {kind slots groups?} (hx : x.IsFor isMixin site (.material kind) e)
    (hkind : MaterialKind.ofTag? e.tag = some kind)
    (h : x.FillsAll isMixin site e.children slots)
    (hmethod : ∀ groups ∈ groups?, x.method = groupsMethod groups) :
    List.Forall₂ IsOf (x :: slots.map (·.2)) (materialItems groups? e) := by
  rw [materialItems, hkind]
  refine .cons (hx.isOf hmethod) ?_
  generalize e.children = children at h
  induction h with
  | nil => exact .nil
  | @cons c slot children slots hfills _ ih =>
    obtain ⟨texture, kind, hchildren, htexture, hy⟩ := hfills.texture
    rw [map_cons, flatMap_cons, hchildren, flatMap_singleton, textureItems, htexture]
    exact .cons (hy.isOf fun groups hg => hfills.method.trans (hmethod groups hg)) ih

lemma IsShared.items {kind ensured slots} (h : x.IsShared isMixin kind e ensured slots) :
    List.Forall₂ IsOf (x :: slots.map (·.2)) (kind.items e) := by
  obtain ⟨role, hrole, hx⟩ := h.isFor
  have hslots := h.slots
  cases kind with
  | material =>
    obtain ⟨kind, hkind, rfl⟩ := Option.map_eq_some_iff.1 hrole
    exact hslots.isOf hx hkind fun groups hg => by cases hg
  | texture =>
    obtain ⟨kind, hkind, rfl⟩ := Option.map_eq_some_iff.1 hrole
    cases hslots
    rw [SharedKind.items, textureItems, hkind]
    exact .cons (hx.isOf fun groups hg => by cases hg) .nil

end Part

namespace Station.Fits

variable {isMixin : Bool} {y : Station}

lemma items_node (h : y.Fits (nodeGrowth isMixin)) :
    List.Forall₂ Part.IsOf y.entry.parts y.node.items := by
  obtain ⟨⟨x, bs⟩, above⟩ := y
  have hentry : NodeEntry isMixin above x := h.entry
  change List.Forall₂ Part.IsOf x.parts (Node.items ⟨x.element, groupsAbove above⟩)
  have hmethod : ∀ {part : Part}, part.method = methodBelow above →
      ∀ groups ∈ some (groupsAbove above), part.method = groupsMethod groups := by
    rintro part hpart _ ⟨⟩
    rw [hpart, methodBelow_eq]
  unfold Node.items Node.role?
  cases hentry with
  | @object e kind role x hk hrole hx =>
    rw [if_neg, hk]
    · change List.Forall₂ Part.IsOf [x] (kind.role?.toList.map _)
      rw [hrole]
      exact .cons (hx.isOf (hmethod hx.method)) .nil
    · rw [hk]
      rintro ⟨⟩
      cases hrole
  | material hk hchild hkind hx hslots =>
    rw [if_pos hk, hchild, flatMap_singleton]
    exact hslots.isOf hx.toIsFor hkind (hmethod hx.method)
  | group hk =>
    rw [if_neg (by simp [hk]), hk]
    exact .nil

end Station.Fits

namespace Branch

variable {isMixin : Bool} {method : String}

mutual

lemma map_element_stations : (b : Branch) → (above : List Entry) →
    (∀ y ∈ b.stations above, y.Fits (guiGrowth isMixin method)) →
    (b.stations above).map (·.entry.element) = b.element.subtree
  | .mk x bs, above, h => by
    have hbelow : bs.map element = x.element.children := (h _ mem_cons_self).below
    have hsubtree : x.element.subtree = x.element :: Element.subtrees x.element.children := by
      cases x.element
      rfl
    rw [stations, map_cons, map_element_stationsOf bs _ fun y hy => h y (mem_cons_of_mem _ hy),
      hbelow]
    exact hsubtree.symm

lemma map_element_stationsOf : (bs : List Branch) → (above : List Entry) →
    (∀ y ∈ stationsOf above bs, y.Fits (guiGrowth isMixin method)) →
    (stationsOf above bs).map (·.entry.element) = Element.subtrees (bs.map element)
  | [], _, _ => rfl
  | b :: bs, above, h => by
    rw [stationsOf, map_append, map_element_stations b _ fun y hy => h y (mem_append_left _ hy),
      map_element_stationsOf bs _ fun y hy => h y (mem_append_right _ hy)]
    rfl

end

lemma control_of_mem {x y outer} {bs : List Branch} (hy : y ∈ stationsOf (x :: outer) bs)
    (h : y.Fits (guiGrowth isMixin method)) :
    ∃ part, y.entry.content = .object part [] ∧
      part.BuiltFor isMixin method .control y.entry.element := by
  obtain ⟨inner, habove⟩ := suffix_aboveOf hy
  have hentry : GuiEntry isMixin method y.above y.entry := h.entry
  generalize y.above = above at habove hentry
  generalize y.entry = entry at hentry
  cases hentry with
  | fullScreen | onMesh => cases (append_eq_nil_iff.1 habove).2
  | control hx => exact ⟨_, rfl, hx⟩

lemma items_controls {x outer} {bs : List Branch}
    (h : ∀ y ∈ stationsOf (x :: outer) bs, y.Fits (guiGrowth isMixin method)) :
    List.Forall₂ Part.IsOf ((stationsOf (x :: outer) bs).flatMap (·.entry.parts))
      ((Element.subtrees (bs.map element)).map (⟨.control, ·, none⟩)) := by
  rw [← map_element_stationsOf bs _ h, map_map, map_eq_flatMap]
  refine forall₂_flatMap fun y hy => ?_
  obtain ⟨part, hcontent, hpart⟩ := control_of_mem hy (h y hy)
  rw [Entry.parts, hcontent]
  exact .cons (hpart.isOf fun groups hg => by cases hg) .nil

lemma items_gui {b : Branch} (h : ∀ y ∈ b.stations [], y.Fits (guiGrowth isMixin method)) :
    List.Forall₂ Part.IsOf ((b.stations []).flatMap (·.entry.parts)) (guiItems b.element) := by
  obtain ⟨x, bs⟩ := b
  have hx : Station.Fits (guiGrowth isMixin method) ⟨.mk x bs, []⟩ := h _ mem_cons_self
  have hentry : GuiEntry isMixin method [] x := hx.entry
  have hbelow : bs.map element = x.element.children := hx.below
  have hcontrols := items_controls fun y hy => h y (mem_cons_of_mem _ hy)
  rw [hbelow] at hcontrols
  rw [stations, flatMap_cons]
  change List.Forall₂ Part.IsOf (x.parts ++ _) (guiItems x.element)
  unfold guiItems
  cases hentry with
  | fullScreen hroot hmethod hpart =>
    rw [hroot]
    refine .cons (hpart.isOf fun groups hg => ?_) hcontrols
    cases hg
    exact hpart.method.trans hmethod
  | onMesh hroot _ _ _ _ hpart =>
    rw [hroot]
    exact .cons (hpart.isOf fun groups hg => by cases hg) hcontrols

end Branch

lemma Portion.IsOf.items {isMixin e q} (h : Portion.IsOf isMixin e q) (es : List Event) :
    List.Forall₂ Part.IsOf ((q.pieces isMixin es).flatMap Piece.parts) (sectionItems e) := by
  unfold sectionItems
  cases h with
  | @nodes forest hkind helements hfits =>
    have hparts : ∀ y ∈ Branch.stationsOf [] forest,
        (y.pieces (nodeGrowth isMixin) es).flatMap Piece.parts = y.entry.parts := by
      intro y _
      rw [Station.pieces]
      split <;> exact append_nil _
    rw [hkind, Portion.pieces, flatMap_assoc, flatMap_congr hparts, ← helements]
    change List.Forall₂ _ _ ((Element.nodesOf (groupsAbove []) _).flatMap _)
    rw [← Branch.map_node_stationsOf _ _ hfits, flatMap_map]
    exact forall₂_flatMap fun y hy => (hfits y hy).items_node
  | @guis roots hkind helements hroots =>
    rw [hkind, Portion.pieces, flatMap_assoc, ← helements]
    dsimp only
    rw [flatMap_map]
    refine forall₂_flatMap fun r hr => ?_
    rw [flatMap_map]
    exact Branch.items_gui (hroots r hr).2
  | @shared kind objects hkind hobjects =>
    have hitems : List.Forall₂ Part.IsOf (objects.flatMap fun o => o.part :: o.slots.map (·.2))
        (e.children.flatMap fun c => kind.items c) :=
      rel_flatMap hobjects.flip fun _ _ ho => ho.items
    rw [hkind, Portion.pieces, flatMap_map]
    cases kind <;> exact hitems
  | properties hkind =>
    rw [hkind, Portion.pieces, flatMap_map, flatMap_eq_nil_iff.2 fun _ _ => rfl]
    exact .nil
  | imports hkind =>
    rw [hkind]
    exact .nil

def Role.isShared : Role → Bool
  | material _ | texture _ => true
  | _ => false

/-- Where a part is in a portion. Materials and textures are in nodes and in sections of their own. -/
inductive Part.Lies (isMixin : Bool) (x : Part) : Portion → Prop where
  | node {forest y} :
    y ∈ Branch.stationsOf [] forest →
    y.entry.content = .object x [] →
    y.node.role? = some x.role →
    x.BuiltFor isMixin (methodBelow y.above) x.role y.entry.element →
    Lies isMixin x (.nodes forest)
  | gui {roots r y} :
    r ∈ roots →
    y ∈ r.2.stations [] →
    y.Fits (guiGrowth isMixin r.1) →
    y.entry.content = .object x [] →
    x.role.origin? = some .gui →
    Lies isMixin x (.guis roots)
  | shared {q} :
    x.role.isShared = true →
    Lies isMixin x q

section

variable {isMixin : Bool} {x : Part}

lemma Part.FillsAll.isShared {site els slots} (h : x.FillsAll isMixin site els slots) {y}
    (hy : y ∈ slots.map (·.2)) : y.role.isShared = true := by
  obtain ⟨⟨slot, y⟩, hmem, rfl⟩ := mem_map.1 hy
  obtain ⟨_, hfills⟩ := h.exists_fills hmem
  obtain ⟨_, _, _, _, hfor⟩ := hfills.texture
  rw [hfor.role]
  rfl

lemma Part.IsShared.isShared {kind c ensured slots} (h : x.IsShared isMixin kind c ensured slots) {y}
    (hy : y ∈ x :: slots.map (·.2)) : y.role.isShared = true := by
  obtain rfl | hy := mem_cons.1 hy
  · obtain ⟨role, hrole, hx⟩ := h.isFor
    rw [hx.role]
    cases kind with
    | material | texture =>
      obtain ⟨_, _, rfl⟩ := Option.map_eq_some_iff.1 hrole
      rfl
  · exact h.slots.isShared hy

lemma Station.Fits.lies_node {forest y} (h : y.Fits (nodeGrowth isMixin))
    (hy : y ∈ Branch.stationsOf [] forest) (hx : x ∈ y.entry.parts) :
    x.Lies isMixin (.nodes forest) := by
  have hentry : NodeEntry isMixin y.above y.entry := h.entry
  generalize hy' : y.entry = entry at hentry hx
  cases hentry with
  | @object e kind role part hk hrole hpart =>
    obtain rfl := mem_singleton.1 hx
    rw [← hpart.role] at hrole hpart
    refine .node hy (by rw [hy']) ?_ (by rwa [hy'])
    rw [Node.role?, node, hy', hk]
    exact hrole
  | material _ _ _ hpart hslots =>
    obtain rfl | hx := mem_cons.1 hx
    · refine .shared ?_
      rw [hpart.role]
      rfl
    · exact .shared (hslots.isShared hx)
  | group => cases hx

lemma Station.Fits.lies_gui {roots r y} (h : y.Fits (guiGrowth isMixin r.1)) (hr : r ∈ roots)
    (hy : y ∈ r.2.stations []) (hx : x ∈ y.entry.parts) : x.Lies isMixin (.guis roots) := by
  have hentry : GuiEntry isMixin r.1 y.above y.entry := h.entry
  generalize y.above = above at hentry
  generalize hy' : y.entry = entry at hentry hx
  cases hentry with
  | fullScreen _ _ hpart | onMesh _ _ _ _ _ hpart | control hpart =>
    obtain rfl := mem_singleton.1 hx
    refine .gui hr hy h (by rw [hy']) ?_
    rw [hpart.role]
    rfl

lemma Station.eq_piece {G es p} {y : Station} (hp : p ∈ y.pieces G es) (hx : x ∈ p.parts) :
    p = y.piece G es := by
  obtain hp | hp := mem_append.1 hp
  · split at hp
    · rw [mem_singleton.1 hp] at hx
      cases hx
    · cases hp
  · exact mem_singleton.1 hp

lemma Portion.IsOf.lies {q e es p} (h : Portion.IsOf isMixin e q) (hp : p ∈ q.pieces isMixin es)
    (hx : x ∈ p.parts) : x.Lies isMixin q := by
  cases h with
  | nodes _ _ hfits =>
    obtain ⟨y, hy, hp⟩ := mem_flatMap.1 hp
    obtain rfl := Station.eq_piece hp hx
    exact (hfits y hy).lies_node hy hx
  | guis _ _ hroots =>
    obtain ⟨r, hr, hp⟩ := mem_flatMap.1 hp
    obtain ⟨y, hy, rfl⟩ := mem_map.1 hp
    exact ((hroots r hr).2 y hy).lies_gui hr hy hx
  | shared _ hobjects =>
    obtain ⟨o, ho, rfl⟩ := mem_map.1 hp
    obtain ⟨c, _, hshared⟩ := exists_of_forall₂ hobjects ho
    exact .shared (hshared.isShared hx)
  | properties =>
    obtain ⟨first, _, rfl⟩ := mem_map.1 hp
    cases hx
  | imports =>
    rw [mem_singleton.1 hp] at hx
    cases hx

end

/-- A statement that places an object. -/
inductive Statement.IsPlacing : Statement → Prop where
  | attach {member parent} : IsPlacing (.attach member parent)
  | material {node member} : IsPlacing (.nodeMaterial node (.member member))
  | name {member name} : IsPlacing (.textureName member name)
  | control {parent control} : IsPlacing (.addControl parent control)

lemma Part.isPlacing {place? st} {x : Part} (h : st ∈ x.placing place?) : st.IsPlacing := by
  unfold placing at h
  cases hrole : x.role with
  | transform | shape | model =>
    rw [hrole] at h
    obtain ⟨place, _, rfl⟩ := mem_map.1 h
    exact .attach
  | material =>
    rw [hrole] at h
    obtain ⟨place, _, rfl⟩ := mem_map.1 h
    exact .material
  | texture =>
    rw [hrole] at h
    rw [mem_singleton.1 h]
    exact .name
  | control =>
    rw [hrole] at h
    obtain ⟨place, _, rfl⟩ := mem_map.1 h
    exact .control
  | custom | fullScreen | onMesh =>
    rw [hrole] at h
    cases h

/-- A statement for a part: it builds or places the object, or it is written for an attribute. -/
inductive Part.Tells (isMixin : Bool) (site : Site) (es : List Event) (place? : Option String)
    (x : Part) : Statement → Prop where
  | construct : Tells isMixin site es place? x
      (.construct x.object.storage (x.construction isMixin place?))
  | placing {st} :
    st ∈ x.placing place? →
    Tells isMixin site es place? x st
  | apply {a t} :
    a ∈ x.attributes →
    x.refers? site a = none →
    x.isLink a = false →
    x.role.passes a.name = false →
    x.translate isMixin a = .ok t →
    Tells isMixin site es place? x t.apply
  | bind {a t st} :
    a ∈ x.attributes →
    x.translate isMixin a = .ok t →
    t.bind? = some st →
    Tells isMixin site es place? x st
  | use {u : Use} :
    Tells isMixin site es place? x (u.statement x.object.storage (referenceTo es u.kind u.name))
  | link {a base} :
    a ∈ x.attributes →
    x.isLink a = true →
    base.name = Text.trim a.value →
    .link base ∈ x.notes →
    Tells isMixin site es place? x (.linkWithMesh x.target base.target)

lemma Part.Tells.storage_eq {isMixin site es place? st m v} {x : Part}
    (h : x.Tells isMixin site es place? st) (hst : st = .construct m v) :
    m = x.object.storage := by
  cases h with
  | construct =>
    cases hst
    rfl
  | placing hplacing =>
    subst hst
    cases Part.isPlacing hplacing
  | apply | link => cases hst
  | bind _ _ hbind =>
    obtain ⟨_, _, rfl⟩ := Option.map_eq_some_iff.1 hbind
    cases hst
  | @use u =>
    rw [Use.statement] at hst
    split at hst <;> cases hst

lemma Part.IsFor.tells {isMixin site role e} {x : Part} (hx : x.IsFor isMixin site role e) {es place?}
    {st} (hst : st ∈ x.statements es isMixin place?) : x.Tells isMixin site es place? st := by
  obtain rfl | hst := mem_cons.1 hst
  · exact .construct
  obtain hst | hst := mem_append.1 hst
  · exact .placing hst
  obtain ⟨n, hn, rfl⟩ := mem_map.1 hst
  obtain ⟨nss, hnss, hnotes⟩ := hx.notes
  have hn' := hn
  rw [hnotes] at hn'
  obtain ⟨ns, hns, hmem⟩ := mem_flatten.1 hn'
  obtain ⟨a, ha, hattends⟩ := exists_of_forall₂ hnss hns
  cases hattends with
  | value hrefers hlink ht =>
    obtain hmem | hmem := mem_append.1 hmem
    · split at hmem
      · cases hmem
      · next hpasses =>
        rw [mem_singleton.1 hmem]
        exact .apply ha hrefers hlink (Bool.eq_false_iff.2 hpasses) ht
    · obtain ⟨st, hbind, rfl⟩ := mem_map.1 hmem
      exact .bind ha ht (Option.mem_toList.1 hbind)
  | use =>
    rw [mem_singleton.1 hmem]
    exact .use
  | link hlink hbase =>
    obtain rfl := mem_singleton.1 hmem
    exact .link ha hlink hbase hn

/-- A part with its statements among some statements, and with what it imports among some
changes. -/
structure Part.Posted (isMixin : Bool) (es : List Event) (sts : List Statement) (T : List Effect)
    (site : Site) (place? : Option String) (x : Part) : Prop where
  isFor : x.IsFor isMixin site x.role x.element
  written : x.statements es isMixin place? ⊆ sts
  imported : importing (x.imports isMixin site) ⊆ T

lemma Part.Posted.mono {isMixin es sts sts' T T' site place?} {x : Part}
    (h : x.Posted isMixin es sts T site place?) (hsts : sts ⊆ sts') (hT : T ⊆ T') :
    x.Posted isMixin es sts' T' site place? :=
  ⟨h.isFor, List.Subset.trans h.written hsts, List.Subset.trans h.imported hT⟩

/-- A statement that is not about one object alone. -/
inductive Statement.IsJoint : Statement → Prop where
  | slot {owner slot member} : IsJoint (.slotTexture owner slot (.member member))
  | guard {member} : IsJoint (.guard member)
  | give {member} : IsJoint (.give member)
  | observe {engine path method} : IsJoint (.bindGroup engine path method)
  | leaveIf {flag} : IsJoint (.leaveIf flag)
  | raise {flag} : IsJoint (.raise flag)

/-- The statements of a piece are those of its parts, apart from joint ones. -/
structure Piece.Posts (isMixin : Bool) (es : List Event) (T : List Effect) (p : Piece) : Prop where
  parts : ∀ x ∈ p.parts, ∃ site place?, x.Posted isMixin es p.statements T site place?
  statements : ∀ st ∈ p.statements, st.IsJoint ∨ ∃ x ∈ p.parts, ∃ site place?,
    x.Posted isMixin es p.statements T site place? ∧ st ∈ x.statements es isMixin place?

lemma Piece.Posts.mono {isMixin es T T'} {p : Piece} (h : p.Posts isMixin es T) (hT : T ⊆ T') :
    p.Posts isMixin es T' where
  parts x hx := by
    obtain ⟨site, place?, hposted⟩ := h.parts x hx
    exact ⟨site, place?, hposted.mono (List.Subset.refl _) hT⟩
  statements st hst := by
    refine (h.statements st hst).imp_right ?_
    rintro ⟨x, hx, site, place?, hposted, hst⟩
    exact ⟨x, hx, site, place?, hposted.mono (List.Subset.refl _) hT, hst⟩

namespace Part

variable {isMixin : Bool} {es : List Event} {sts : List Statement} {T : List Effect} {site : Site}
  {x : Part} {role : Role} {e : Element} {place? : Option String} {slots : List (String × Part)}
  {els : List Element}

lemma IsFor.posted (hx : x.IsFor isMixin site role e)
    (hwritten : x.statements es isMixin place? ⊆ sts)
    (himported : importing (x.imports isMixin site) ⊆ T) :
    x.Posted isMixin es sts T site place? := by
  refine ⟨?_, hwritten, himported⟩
  rw [hx.role, hx.element]
  exact hx

lemma FillsAll.posts (hx : x.IsFor isMixin site role e) (h : x.FillsAll isMixin site els slots)
    {method asides} (hsts : x.statementsWith es isMixin place? slots ⊆ sts)
    (hjoint : ∀ st ∈ sts, st.IsJoint ∨ st ∈ x.statementsWith es isMixin place? slots)
    (hT : importing (x.imports isMixin site) ⊆ T)
    (hslots : slots.flatMap (x.slotTrace isMixin site) ⊆ T) :
    Piece.Posts isMixin es T ⟨method, x :: slots.map (·.2), sts, asides⟩ := by
  have hown : x.Posted isMixin es sts T site place? :=
    hx.posted (List.Subset.trans (subset_append_left _ _) hsts) hT
  have hslot : ∀ {slot y}, (slot, y) ∈ slots → y.Posted isMixin es sts T site none := by
    intro slot y hy
    obtain ⟨c, hfills⟩ := h.exists_fills hy
    obtain ⟨texture, kind, _, _, hfor⟩ := hfills.texture
    refine hfor.posted (fun st hst => hsts ?_) fun e he => hslots ?_
    · exact mem_append_right _ (mem_flatMap.2 ⟨_, hy, mem_append_left _ hst⟩)
    · refine mem_flatMap.2 ⟨_, hy, mem_append_left _ (mem_append_right _ ?_)⟩
      exact mem_cons_of_mem _ (mem_cons_of_mem _ (mem_append_left _ he))
  refine ⟨fun y hy => ?_, fun st hst => ?_⟩
  · obtain rfl | hy := mem_cons.1 hy
    · exact ⟨_, _, hown⟩
    · obtain ⟨⟨slot, y⟩, hmem, rfl⟩ := mem_map.1 hy
      exact ⟨_, _, hslot hmem⟩
  · obtain hst | hst := hjoint st hst
    · exact .inl hst
    obtain hst | hst := mem_append.1 hst
    · exact .inr ⟨x, mem_cons_self, _, _, hown, hst⟩
    obtain ⟨⟨slot, y⟩, hmem, hst⟩ := mem_flatMap.1 hst
    obtain hst | hst := mem_append.1 hst
    · exact .inr ⟨y, mem_cons_of_mem _ (mem_map_of_mem hmem), _, _, hslot hmem, hst⟩
    · rw [mem_singleton.1 hst]
      exact .inl .slot

lemma IsShared.posts {kind ensured method asides} (h : x.IsShared isMixin kind e ensured slots)
    (hT : x.sharedTrace isMixin kind e.ownName ensured slots ⊆ T) :
    Piece.Posts isMixin es T
      ⟨method, x :: slots.map (·.2), x.sharedStatements es isMixin ensured slots, asides⟩ := by
  obtain ⟨role, _, hx⟩ := h.isFor
  have hbody : x.rest isMixin (.shared kind e.ownName) none ++
      slots.flatMap (x.slotTrace isMixin (.shared kind e.ownName)) ⊆ T := by
    intro effect he
    exact hT (mem_cons_of_mem _ (mem_cons_of_mem _
      (mem_append_left _ (mem_append_right _ (mem_cons_of_mem _ he)))))
  have hjoint : ∀ st ∈ x.sharedStatements es isMixin ensured slots,
      st.IsJoint ∨ st ∈ x.statementsWith es isMixin none slots := by
    intro st hst
    simp only [sharedStatements, mem_append] at hst
    obtain hst | hst | hst := hst
    · split at hst
      · exact .inl (mem_singleton.1 hst ▸ .guard)
      · cases hst
    · exact .inr hst
    · split at hst
      · exact .inl (mem_singleton.1 hst ▸ .give)
      · cases hst
  refine h.slots.posts hx ?_ hjoint ?_ ?_
  · exact List.Subset.trans (subset_append_left _ _) (subset_append_right _ _)
  · exact List.Subset.trans (subset_append_left _ _)
      (List.Subset.trans (subset_append_left _ _) hbody)
  · exact List.Subset.trans (subset_append_right _ _) hbody

end Part

namespace Branch

variable {G : Growth}

mutual

lemma opening_subset : {b : Branch} → {above : List Entry} → {y : Station} → y ∈ b.stations above →
    y.entry.opening G.isMixin (G.method y.above) (G.place? y.above) ⊆ b.trace G above
  | .mk x bs, above, y, hy => by
    obtain rfl | hy := mem_cons.1 hy
    · exact subset_append_left _ _
    · exact List.Subset.trans (opening_subsetOf hy)
        (List.Subset.trans (subset_append_left _ _) (subset_append_right _ _))

lemma opening_subsetOf : {bs : List Branch} → {above : List Entry} → {y : Station} →
    y ∈ stationsOf above bs →
    y.entry.opening G.isMixin (G.method y.above) (G.place? y.above) ⊆ traceOf G above bs
  | [], _, _, hy => by cases hy
  | b :: bs, above, y, hy => by
    obtain hy | hy := mem_append.1 hy
    · exact List.Subset.trans (opening_subset hy) (subset_append_left _ _)
    · exact List.Subset.trans (opening_subsetOf hy) (subset_append_right _ _)

end

end Branch

section

variable {isMixin : Bool} {es : List Event} {T : List Effect} {y : Station} {p : Piece}

lemma Station.Fits.posts {G : Growth} (h : y.Fits G) (hgroup : y.entry.isGroup = false)
    (hT : y.entry.opening G.isMixin (G.method y.above) (G.place? y.above) ⊆ T) :
    (y.piece G es).Posts G.isMixin es T := by
  obtain ⟨⟨⟨e, content⟩, bs⟩, above⟩ := y
  cases content with
  | group => cases hgroup
  | object part slots =>
    obtain ⟨⟨role, e', hpart⟩, els, hslots⟩ := G.built h.entry part slots rfl
    have htrace : part.trace G.isMixin (.method (G.method above)) (G.place? above) ⊆ T :=
      List.Subset.trans (subset_append_left _ _) hT
    refine hslots.posts hpart.toIsFor (List.Subset.refl _) (fun _ => .inr) (fun effect he => ?_) ?_
    · exact htrace (mem_append_right _ (mem_cons_of_mem _ (mem_cons_of_mem _
        (mem_append_left _ he))))
    · exact List.Subset.trans (subset_append_right _ _) hT

lemma Piece.Posts.joint {method statements asides} (h : ∀ st ∈ statements, st.IsJoint) :
    Piece.Posts isMixin es T ⟨method, [], statements, asides⟩ where
  parts x hx := by cases hx
  statements st hst := .inl (h st hst)

lemma Station.Fits.posts_node (h : y.Fits (nodeGrowth isMixin))
    (hT : y.entry.opening isMixin (methodBelow y.above) (some (parentBelow y.above)) ⊆ T)
    (hp : p ∈ y.pieces (nodeGrowth isMixin) es) : p.Posts isMixin es T := by
  rw [pieces] at hp
  cases hgroup : y.entry.isGroup with
  | false =>
    rw [hgroup] at hp
    rw [mem_singleton.1 hp]
    exact h.posts hgroup hT
  | true =>
    rw [hgroup, if_pos rfl, cons_append, nil_append, mem_cons, mem_singleton] at hp
    obtain rfl | rfl := hp
    · refine .joint fun st hst => ?_
      obtain rfl | hst := mem_cons.1 hst
      · exact .leaveIf
      · exact mem_singleton.1 hst ▸ .raise
    · obtain ⟨_, _, path?, _, hstatements⟩ := h.entry.of_group hgroup
      rw [piece, Entry.parts_group hgroup]
      refine .joint fun st hst => ?_
      rw [statements, nodeGrowth, hstatements] at hst
      obtain ⟨path, _, rfl⟩ := mem_map.1 hst
      exact .observe

lemma Portion.IsOf.posts {q e} (h : Portion.IsOf isMixin e q) (hp : p ∈ q.pieces isMixin es) :
    p.Posts isMixin es (q.trace isMixin) ∨ p.parts = [] ∧ p.method = Builtin.init ∧
      ∃ c ∈ sectionProperties e, c.Starts isMixin p.statements := by
  cases h with
  | nodes _ _ hfits =>
    obtain ⟨y, hy, hp⟩ := mem_flatMap.1 hp
    exact .inl ((hfits y hy).posts_node (Branch.opening_subsetOf (G := nodeGrowth isMixin) hy) hp)
  | guis _ _ hroots =>
    obtain ⟨r, hr, hp⟩ := mem_flatMap.1 hp
    obtain ⟨y, hy, rfl⟩ := mem_map.1 hp
    have hfits := (hroots r hr).2 y hy
    refine .inl (hfits.posts (GuiEntry.isGroup hfits.entry) fun effect he => ?_)
    exact mem_append_right _ (mem_flatMap.2 ⟨r, hr, Branch.opening_subset hy he⟩)
  | @shared kind objects _ hobjects =>
    obtain ⟨o, ho, rfl⟩ := mem_map.1 hp
    obtain ⟨c, _, hshared⟩ := exists_of_forall₂ hobjects ho
    obtain ⟨role, _, hx⟩ := hshared.isFor
    refine .inl (hshared.posts fun effect he => mem_flatMap.2 ⟨o, ho, ?_⟩)
    rwa [SharedObject.trace, SharedObject.name, hx.element]
  | properties hkind helements hfirsts =>
    obtain ⟨first, hfirst, rfl⟩ := mem_map.1 hp
    refine .inr ⟨rfl, rfl, first.1, ?_, hfirsts first hfirst⟩
    rw [sectionProperties, if_pos hkind, ← helements]
    exact mem_map_of_mem hfirst
  | imports =>
    rw [mem_singleton.1 hp]
    exact .inl (.joint fun st hst => by cases hst)

lemma Portion.IsOf.property {q e c} (h : Portion.IsOf isMixin e q) (hc : c ∈ sectionProperties e) :
    importing (c.propertyImports isMixin) ⊆ q.trace isMixin := by
  rw [sectionProperties] at hc
  split at hc
  · next hkind =>
    cases h with
    | properties _ helements =>
      rw [← helements] at hc
      obtain ⟨first, hfirst, rfl⟩ := mem_map.1 hc
      intro effect he
      refine mem_flatMap.2 ⟨first, hfirst, mem_cons_of_mem _ (mem_append_left _ ?_)⟩
      exact mem_append_right _ he
    | nodes hother | guis hother | imports hother =>
      rw [hkind] at hother
      cases hother
    | @shared kind _ hother =>
      rw [hkind] at hother
      cases kind <;> cases hother
  · cases hc

lemma Part.FillsAll.method_eq {site els slots} {x y : Part} (h : x.FillsAll isMixin site els slots)
    (hy : y ∈ x :: slots.map (·.2)) : y.method = x.method := by
  obtain rfl | hy := mem_cons.1 hy
  · rfl
  · obtain ⟨⟨slot, y⟩, hmem, rfl⟩ := mem_map.1 hy
    obtain ⟨_, hfills⟩ := h.exists_fills hmem
    exact hfills.method

lemma Entry.BuiltIn.method_eq {method} {x : Entry} (h : x.BuiltIn isMixin method) {part}
    (hpart : part ∈ x.parts) : part.method = method := by
  obtain ⟨e, content⟩ := x
  cases content with
  | group => cases hpart
  | object first slots =>
    obtain ⟨⟨_, _, hfirst⟩, _, hslots⟩ := h first slots rfl
    exact (hslots.method_eq hpart).trans hfirst.method

lemma Portion.IsOf.method_eq {q e} (h : Portion.IsOf isMixin e q)
    (hensured : ∀ kind objects, q = .shared kind objects → ∀ o ∈ objects,
      o.ensured = usedFirst kind o.name es)
    (hp : p ∈ q.pieces isMixin es) {x} (hx : x ∈ p.parts) : x.method = p.method := by
  cases h with
  | nodes _ _ hfits =>
    obtain ⟨y, hy, hp⟩ := mem_flatMap.1 hp
    obtain rfl := Station.eq_piece hp hx
    exact ((nodeGrowth isMixin).built (hfits y hy).entry).method_eq hx
  | @guis roots _ _ hroots =>
    obtain ⟨r, hr, hp⟩ := mem_flatMap.1 hp
    obtain ⟨y, hy, rfl⟩ := mem_map.1 hp
    exact ((guiGrowth isMixin r.1).built ((hroots r hr).2 y hy).entry).method_eq hx
  | @shared kind objects _ hobjects =>
    obtain ⟨o, ho, rfl⟩ := mem_map.1 hp
    obtain ⟨c, _, hshared⟩ := exists_of_forall₂ hobjects ho
    obtain ⟨role, _, hfor⟩ := hshared.isFor
    rw [hshared.slots.method_eq hx, hshared.method, hensured kind objects rfl o ho,
      SharedObject.piece, buildMethod, SharedObject.name, hfor.element]
  | properties =>
    obtain ⟨first, _, rfl⟩ := mem_map.1 hp
    cases hx
  | imports =>
    rw [mem_singleton.1 hp] at hx
    cases hx

end

lemma Compile.initBody_joint {isMixin st} (h : st ∈ initBody isMixin) :
    st.IsJoint ∨ ∃ code, st = .line code := by
  cases isMixin <;> simp only [initBody, Bool.false_eq_true, if_true, if_false, mem_append, mem_cons,
    not_mem_nil, or_false] at h <;> grind [Statement.IsJoint]

lemma Part.mesh_mem_sights {x : Part} {m} (h : .mesh m ∈ x.sights) :
    x.role.isMesh = true ∧ x.object.given = some m.name ∧ x.mesh = m := by
  have hnotes : .mesh m ∉ x.notes.flatMap Note.sights := by
    intro h
    obtain ⟨n, _, h⟩ := mem_flatMap.1 h
    cases n with
    | statement | use => cases h
    | link => cases mem_singleton.1 h
  simp only [sights, mem_append, mem_cons, mem_map, reduceCtorEq, and_false, exists_false, false_or,
    hnotes, or_false] at h
  split at h
  · next hmesh =>
    cases mem_singleton.1 h
    rw [Bool.and_eq_true] at hmesh
    exact ⟨hmesh.1, if_pos hmesh.2, rfl⟩
  · cases h

lemma Piece.mesh_mem_sights {p : Piece} {m} (h : .mesh m ∈ p.sights) :
    ∃ x ∈ p.parts, x.role.isMesh = true ∧ x.object.given = some m.name ∧ x.mesh = m := by
  obtain h | h := mem_append.1 h
  · obtain ⟨_, _, heq⟩ := mem_map.1 h
    cases heq
  · obtain ⟨x, hx, h⟩ := mem_flatMap.1 h
    exact ⟨x, hx, Part.mesh_mem_sights h⟩

/-- A statement of a class comes from a part, from a property or from a group. -/
inductive Document.Tells (d : Document) (c : ClassDef) (plan : List Portion) (f : String) :
    Statement → Prop where
  | part {x site place? st} :
    x ∈ d.parts plan →
    x.method = f →
    x.Posted d.isMixin d.outline (c.body f) (plan.flatMap (Portion.trace d.isMixin)) site place? →
    x.Tells d.isMixin site d.outline place? st →
    Tells d c plan f st
  | joint {st} :
    st.IsJoint →
    Tells d c plan f st
  | line {code} :
    Tells d c plan f (.line code)
  | initial {e raw v p?} :
    e ∈ d.properties →
    f = Builtin.init →
    e.attr? "default" = some raw →
    (viewBinder d.isMixin).typed e.ownType raw = .ok (v, p?) →
    Tells d c plan f (.initial (storageName e.ownName) v)
  | check {g condition} :
    g ∈ plan.flatMap Portion.groups →
    f = methodBelow g.above →
    Tells d c plan f (.trigger condition (groupMethod g.entry.name))
  | call {code} :
    Tells d c plan f (.callback code)

namespace Planned

variable {d : Document} {c : ClassDef} {plan : List Portion} {x : Part} {st : Statement} {f : String}
  (h : Planned d c plan)
include h

lemma items : List.Forall₂ Part.IsOf (d.parts plan) d.items := by
  rw [Document.parts, Document.pieces, flatMap_assoc]
  exact rel_flatMap h.sections.flip fun _ _ hq => hq.items d.outline

lemma lies (hx : x ∈ d.parts plan) : ∃ q ∈ plan, x.Lies d.isMixin q := by
  obtain ⟨p, hp, hx⟩ := mem_flatMap.1 hx
  obtain ⟨q, hq, hp⟩ := mem_flatMap.1 hp
  obtain ⟨e, he⟩ := h.isOf hq
  exact ⟨q, hq, he.lies hp hx⟩

lemma method_eq {p} (hp : p ∈ d.pieces plan) (hx : x ∈ p.parts) : x.method = p.method := by
  obtain ⟨q, hq, hp⟩ := mem_flatMap.1 hp
  obtain ⟨e, he⟩ := h.isOf hq
  refine he.method_eq (fun kind objects heq o ho => ?_) hp hx
  exact h.ensured (heq ▸ hq) o ho

lemma posts {p} (hp : p ∈ d.pieces plan) :
    p.Posts d.isMixin d.outline (plan.flatMap (Portion.trace d.isMixin)) ∨
      p.parts = [] ∧ p.method = Builtin.init ∧
        ∃ e ∈ d.properties, e.Starts d.isMixin p.statements := by
  obtain ⟨q, hq, hp⟩ := mem_flatMap.1 hp
  obtain ⟨e, he, hportion⟩ := exists_of_forall₂ h.sections hq
  obtain hposts | ⟨hparts, hmethod, e', he', hstarts⟩ := hportion.posts hp
  · exact .inl (hposts.mono fun effect heffect => mem_flatMap.2 ⟨q, hq, heffect⟩)
  · exact .inr ⟨hparts, hmethod, e', mem_flatMap.2 ⟨e, he, he'⟩, hstarts⟩

lemma posted (hx : x ∈ d.parts plan) : ∃ site place?, x.Posted d.isMixin d.outline (c.body x.method)
    (plan.flatMap (Portion.trace d.isMixin)) site place? := by
  obtain ⟨p, hp, hx⟩ := mem_flatMap.1 hx
  obtain hposts | ⟨hparts, _⟩ := h.posts hp
  · obtain ⟨site, place?, hposted⟩ := hposts.parts x hx
    refine ⟨site, place?, hposted.mono ?_ (List.Subset.refl _)⟩
    rw [h.method_eq hp hx]
    exact (h.infix_body hp).subset
  · rw [hparts] at hx
    cases hx

lemma tells (hst : st ∈ c.body f) : d.Tells c plan f st := by
  rw [h.body] at hst
  obtain hst | hst := mem_append.1 hst
  · split at hst
    · obtain hjoint | ⟨code, rfl⟩ := initBody_joint hst
      · exact .joint hjoint
      · exact .line
    · cases hst
  obtain hst | hst := mem_append.1 hst
  · obtain ⟨p, hp, hst⟩ := mem_flatMap.1 hst
    rw [Piece.writes] at hst
    split at hst
    · next hmethod =>
      obtain hposts | ⟨_, hinit, e, he, hstarts⟩ := h.posts hp
      · obtain hjoint | ⟨x, hx, site, place?, hposted, hmem⟩ := hposts.statements st hst
        · exact .joint hjoint
        · have hsub := (h.infix_body hp).subset
          rw [hmethod] at hsub
          exact .part (mem_flatMap.2 ⟨p, hp, hx⟩) ((h.method_eq hp hx).trans hmethod)
            (hposted.mono hsub (List.Subset.refl _)) (hposted.isFor.tells hmem)
      · generalize p.statements = sts at hst hstarts
        cases hstarts with
        | unset => cases hst
        | value hdefault htyped =>
          rw [mem_singleton.1 hst]
          exact .initial he (hmethod.symm.trans hinit) hdefault htyped
    · cases hst
  obtain hst | hst := mem_append.1 hst
  · obtain ⟨g, hg, hst⟩ := mem_flatMap.1 hst
    rw [Station.checks] at hst
    split at hst
    · next hmethod =>
      obtain ⟨condition, _, rfl⟩ := mem_map.1 hst
      exact .check hg hmethod.symm
    · cases hst
  · obtain ⟨g, _, hst⟩ := mem_flatMap.1 hst
    rw [Station.calls] at hst
    split at hst
    · obtain ⟨code, _, rfl⟩ := mem_map.1 hst
      exact .call
    · cases hst

lemma property {e} (he : e ∈ d.properties) :
    importing (e.propertyImports d.isMixin) ⊆ plan.flatMap (Portion.trace d.isMixin) := by
  obtain ⟨s, hsection, he⟩ := mem_flatMap.1 he
  obtain ⟨q, hq, hportion⟩ := exists_of_forall₂ h.sections.flip hsection
  exact fun effect heffect => mem_flatMap.2 ⟨q, hq, hportion.property he heffect⟩

lemma nodup_storage : ((d.parts plan).map (·.object.storage)).Nodup := by
  have hnames : (d.parts plan).map (·.object.storage) =
      ((d.pieces plan).flatMap Piece.names).map storageName := by
    rw [Document.parts, map_flatMap, map_flatMap]
    refine flatMap_congr fun p _ => ?_
    rw [Piece.names, map_map]
    rfl
  rw [hnames]
  exact h.nodup_names.map fun _ _ => storageName_injective

lemma construct_iff (hx : x ∈ d.parts plan) :
    (∃ v, .construct x.object.storage v ∈ c.body f) ↔ f = x.method := by
  constructor
  · rintro ⟨v, hv⟩
    generalize hst : Statement.construct x.object.storage v = st at hv
    cases h.tells hv with
    | part hy hmethod _ htells =>
      have heq : x.object.storage = _ := htells.storage_eq hst.symm
      rw [← hmethod, inj_on_of_nodup_map h.nodup_storage hx hy heq]
    | joint hjoint => subst hst; cases hjoint
    | line | initial | check | call => cases hst
  · rintro rfl
    obtain ⟨site, place?, hposted⟩ := h.posted hx
    exact ⟨_, hposted.written mem_cons_self⟩

lemma exists_mesh (hx : x ∈ d.parts plan) {base} (hfind : .find base ∈ x.sights) :
    ∃ y ∈ d.parts plan, y.role.isMesh = true ∧ y.object.given = some base.name ∧ y.mesh = base := by
  obtain ⟨p, hp, hx⟩ := mem_flatMap.1 hx
  have hsight : .find base ∈ (d.pieces plan).flatMap Piece.sights :=
    mem_flatMap.2 ⟨p, hp, mem_append_right _ (mem_flatMap.2 ⟨x, hx, hfind⟩)⟩
  obtain ⟨front, back, hsplit⟩ := append_of_mem hsight
  have hmesh : .mesh base ∈ (d.pieces plan).flatMap Piece.sights := by
    rw [hsplit]
    exact mem_append_left _ (h.known hsplit)
  obtain ⟨p', hp', hmesh⟩ := mem_flatMap.1 hmesh
  obtain ⟨y, hy, hmesh, hgiven⟩ := Piece.mesh_mem_sights hmesh
  exact ⟨y, mem_flatMap.2 ⟨p', hp', hy⟩, hmesh, hgiven⟩

lemma onMesh (hx : x ∈ d.parts plan) (hrole : x.role = .onMesh) :
    ∃ base raw, x.base? = some base ∧ x.element.attr? "mesh" = some raw ∧
      base.name = Text.trim raw ∧ base.method = x.method := by
  obtain ⟨q, _, hlies⟩ := h.lies hx
  cases hlies with
  | node _ _ hnode =>
    obtain ⟨kind, _, hkind⟩ := Option.bind_eq_some_iff.1 hnode
    rw [hrole] at hkind
    cases kind <;> cases hkind
  | shared hshared =>
    rw [hrole] at hshared
    cases hshared
  | @gui roots r y _ _ hfits hcontent =>
    have hentry : GuiEntry d.isMixin r.1 y.above y.entry := hfits.entry
    generalize y.above = above at hentry
    generalize y.entry = entry at hentry hcontent
    cases hentry with
    | fullScreen _ _ hpart | control hpart =>
      cases hcontent
      cases hpart.role.symm.trans hrole
    | onMesh _ hraw hname hmethod hbase hpart =>
      cases hcontent
      refine ⟨_, _, hbase, ?_, hname, hmethod.trans hpart.method.symm⟩
      rwa [hpart.element]

end Planned

end SceneView
