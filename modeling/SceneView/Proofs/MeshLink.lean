import SceneView.Proofs.Execution
import SceneView.Proofs.MeshGui

/-!
# Links to meshes

A control that is linked with a mesh is built where its user interface is, in the main method or in
the method of the mesh that the user interface is drawn on. The linked mesh may be in any deferred
group. It is sure to be built before the link iff the groups around it are around the user interface
too. Otherwise nothing keeps the link from coming first (`balloonView_links_early`).
-/

open List

namespace SceneView

open Compile Relation

namespace Document

/-- The groups around the mesh of a name, the innermost first. -/
def meshGroups? (d : Document) (name : String) : Option (List String) :=
  (d.nodes.find? fun n => n.role?.any Role.isMesh && n.element.givenName? == some name).map
    (·.groups)

def userInterfaces (d : Document) : List Element :=
  (d.sections.filter fun e => SectionKind.ofTag? e.tag == some .guis).flatMap (·.children)

/-- The groups around the place where a user interface is built. -/
def guiGroups? (d : Document) (e : Element) : Option (List String) :=
  match GuiRoot.ofTag? e.tag with
  | some .fullScreen => some []
  | some .onMesh => (e.attr? "mesh").bind fun raw => d.meshGroups? (Text.trim raw)
  | none => none

/-- A link in the method of a name is that of a control of a user interface in the groups `gs`, to a
mesh in the groups `ms`. -/
inductive Links (d : Document) (f : String) (gs ms : List String) : Target → Target → Prop where
  | intro {root : Element} {x : Part} {a : Attribute} :
    root ∈ d.userInterfaces →
    d.guiGroups? root = some gs →
    f = groupsMethod gs →
    x.element ∈ Element.subtrees root.children →
    x.IsOf { role := .control, element := x.element } →
    a ∈ x.element.attributes →
    a.name = linkAttribute →
    isLiteral a.value = true →
    d.meshGroups? (Text.trim a.value) = some ms →
    Links d f gs ms x.target
      ⟨storageName (Text.trim a.value), isDeferred (groupsMethod ms)⟩

/-- The object of a member is built before the place after the statements `front` of a method: by
one of them; in the main method, which calls groups at its end, if the method is that of a group; or
in the method of a group around the one that the method belongs to. -/
inductive BuiltBefore (d : Document) (c : ClassDef) (member f : String) (front : List Statement) :
    Prop where
  | earlier {v} :
    .construct member v ∈ front →
    BuiltBefore d c member f front
  | main {h v} :
    f = groupMethod h →
    .construct member v ∈ c.body Builtin.init →
    BuiltBefore d c member f front
  | enclosing {g h above v} :
    h :: above ∈ d.groups →
    f = groupMethod h →
    g ∈ above →
    .construct member v ∈ c.body (groupMethod g) →
    BuiltBefore d c member f front

end Document

variable {st : Statement} {d : Document} {f : String} {c : ClassDef}
  {plan : List Portion}

lemma subset_of_append_eq {A B front back} (h : A ++ B = front ++ st :: back) (hst : st ∉ A) :
    A ⊆ front := by
  obtain ⟨rest, rfl, _⟩ | ⟨rest, rfl, hrest⟩ := append_eq_append_iff.1 h
  · exact subset_append_left _ _
  · cases rest with
    | nil => simp
    | cons st' rest =>
      obtain ⟨rfl, _⟩ := List.cons.inj hrest
      exact absurd (mem_append_right _ mem_cons_self) hst

lemma Planned.construct_before_check (h : Planned d c plan) {member front back v}
    (hbody : c.body f = front ++ st :: back) (hst : st.isCheck = true)
    (hmem : .construct member v ∈ c.body f) : .construct member v ∈ front := by
  obtain ⟨first, hfirst, hwires⟩ := h.body_wired f
  have hcheck := h.isCheck_front hwires
  rw [hfirst] at hmem hbody
  refine subset_of_append_eq hbody (fun hst' => ?_) ?_
  · rw [(hcheck st hst').1] at hst
    cases hst
  obtain hmem | hmem := mem_append.1 hmem
  · exact hmem
  obtain hmem | hmem := mem_append.1 hmem
  · cases Planned.isCheck_checks _ hmem
  · cases Planned.isCallback_calls _ hmem

lemma Part.Tells.calls {isMixin site es place?} {x : Part} {f'}
    (h : x.Tells isMixin site es place? st) (hcall : st.calls? = some f') :
    ∃ n, f' = ensureMethod n := by
  cases h with
  | construct | apply | link => cases hcall
  | placing hplacing => cases Part.isPlacing hplacing <;> cases hcall
  | bind _ _ hbind =>
    obtain ⟨_, _, rfl⟩ := Option.map_eq_some_iff.1 hbind
    cases hcall
  | @use u =>
    rw [Use.statement, referenceTo] at hcall
    split at hcall <;> split at hcall <;> cases hcall <;> exact ⟨u.name, rfl⟩

namespace Planned

lemma calls (h : Planned d c plan) {f'} (hst : st ∈ c.body f) (hcall : st.calls? = some f') :
    (∃ n, f' = ensureMethod n) ∨
      ∃ g above, g :: above ∈ d.groups ∧ f = groupsMethod above ∧ f' = groupMethod g ∧
        st.isCheck = true := by
  cases h.tells hst with
  | part _ _ _ htells => exact .inl (htells.calls hcall)
  | joint hjoint => cases hjoint <;> cases hcall
  | line | initial | call => cases hcall
  | @check g condition hg hf =>
    cases hcall
    refine .inr ⟨g.entry.name, groupsAbove g.above, ?_, hf.trans (methodBelow_eq _), rfl, rfl⟩
    rw [← groupsAbove_group (mem_groups.1 hg).2]
    exact h.mem_document_groups.2 ⟨g, hg, rfl⟩

end Planned

lemma Document.BuiltBefore.of_call (hplan : Planned d c plan) {f f' member front back st}
    (hbody : c.body f = front ++ st :: back) (hcall : st.calls? = some f')
    (h : d.BuiltBefore c member f' []) : d.BuiltBefore c member f front := by
  have hst : st ∈ c.body f := by
    rw [hbody]
    exact mem_append_right _ mem_cons_self
  have hgroup : ∀ {g : String}, f' = groupMethod g → ∃ above, g :: above ∈ d.groups ∧
      f = groupsMethod above ∧ st.isCheck = true := by
    rintro g rfl
    obtain ⟨n, heq⟩ | ⟨g', above, hg, hf, heq, hcheck⟩ := hplan.calls hst hcall
    · exact absurd heq.symm (ensureMethod_ne_groupMethod n g)
    · cases groupMethod_injective heq
      exact ⟨above, hg, hf, hcheck⟩
  cases h with
  | earlier hmem => cases hmem
  | main heq hmem =>
    obtain ⟨above, _, rfl, hcheck⟩ := hgroup heq
    cases above with
    | nil => exact .earlier (hplan.construct_before_check hbody hcheck hmem)
    | cons g above => exact .main rfl hmem
  | @enclosing g h outer v hpath heq hg hmem =>
    obtain ⟨above, habove, rfl, hcheck⟩ := hgroup heq
    obtain rfl : outer = above :=
      (List.cons.inj (hplan.groupsMethod_injective (.inr hpath) (.inr habove) rfl)).2
    cases outer with
    | nil => cases hg
    | cons g₀ outer =>
      obtain rfl | hg := mem_cons.1 hg
      · exact .earlier (hplan.construct_before_check hbody hcheck hmem)
      · obtain hnil | houter := hplan.encloses_above (.inr hpath)
        · cases hnil
        · exact .enclosing houter rfl hg hmem

/-- Each method that is running has come to a place such that all that is built before the place is
built. -/
def Execution.Settled (d : Document) (c : ClassDef) (s : Execution) : Prop :=
  ∀ k ∈ s.frames, ∃ f front, c.body f = front ++ k ∧
    ∀ member, d.BuiltBefore c member f front → member ∈ s.built

lemma ClassDef.Runs.settled (hplan : Planned d c plan) {s s'} (h : c.Runs s s')
    (hs : s.Settled d c) : s'.Settled d c := by
  obtain ⟨k, fs, hframes, hnext⟩ := h.frames_eq
  rw [Execution.Settled, hframes, forall_mem_cons] at hs
  obtain ⟨⟨f, front, hbody, hbuilt⟩, hfs⟩ := hs
  have hrest : ∀ k ∈ fs, ∃ f front, c.body f = front ++ k ∧
      ∀ member, d.BuiltBefore c member f front → member ∈ s'.built := by
    intro k hk
    obtain ⟨f, front, hbody, hbuilt⟩ := hfs k hk
    exact ⟨f, front, hbody, fun member hm => h.built_subset (hbuilt member hm)⟩
  obtain hleft | ⟨st, k', rfl, hbuilds, hnext⟩ := hnext
  · rwa [Execution.Settled, hleft]
  have hk' : ∃ f front, c.body f = front ++ k' ∧
      ∀ member, d.BuiltBefore c member f front → member ∈ s'.built := by
    refine ⟨f, front ++ [st], by simpa using hbody, fun member hm => ?_⟩
    cases hm with
    | earlier hmem =>
      obtain hmem | hmem := mem_append.1 hmem
      · exact h.built_subset (hbuilt member (.earlier hmem))
      · obtain rfl := mem_singleton.1 hmem
        exact hbuilds member (by simp)
    | main hf hmem => exact h.built_subset (hbuilt member (.main hf hmem))
    | enclosing hpath hf hg hmem =>
      exact h.built_subset (hbuilt member (.enclosing hpath hf hg hmem))
  obtain hnext | ⟨f', hcall, hnext⟩ := hnext
  · rw [Execution.Settled, hnext, forall_mem_cons]
    exact ⟨hk', hrest⟩
  · rw [Execution.Settled, hnext, forall_mem_cons, forall_mem_cons]
    refine ⟨⟨f', [], rfl, fun member hm => ?_⟩, hk', hrest⟩
    exact h.built_subset (hbuilt member (hm.of_call hplan hbody hcall))

lemma ClassDef.settled_of_start (hplan : Planned d c plan) {s}
    (h : ReflTransGen c.Runs c.start s) : s.Settled d c := by
  induction h with
  | refl =>
    intro k hk
    obtain rfl := mem_singleton.1 hk
    refine ⟨Builtin.init, [], rfl, fun member hm => ?_⟩
    cases hm with
    | earlier hmem => cases hmem
    | main hf _ | enclosing _ hf _ _ => exact absurd hf.symm (groupMethod_ne_init _)
  | tail _ st ih => exact st.settled hplan ih

lemma ClassDef.Passes.of_isOrdinary {c : ClassDef} {avoid} (h : st.isOrdinary = true)
    (hbuilds : ∀ m, avoid m → st.builds m = false) : c.Passes avoid st := by
  obtain hplain | ⟨m, v, rfl⟩ := Statement.plain_or_construct h
  · exact .plain hplain
  · refine .construct fun hm => ?_
    simpa using hbuilds m hm

lemma Station.Fits.exists_isMesh {isMixin} {y : Station} (h : y.Fits (nodeGrowth isMixin))
    (hmesh : y.node.role?.any Role.isMesh = true) : ∃ x, y.IsMesh isMixin x := by
  obtain ⟨⟨x, bs⟩, above⟩ := y
  have hentry : NodeEntry isMixin above x := h.entry
  have hmesh' : ((NodeKind.ofTag? x.element.tag).bind NodeKind.role?).any Role.isMesh = true := hmesh
  cases hentry with
  | @object e kind role x hk hrole hx =>
    have hnode : (NodeKind.ofTag? e.tag).bind NodeKind.role? = some x.role := by
      rw [hk, hx.role]
      exact hrole
    refine ⟨x, rfl, hnode, ?_, hx.role.symm ▸ hx⟩
    rw [hnode] at hmesh'
    exact hmesh'
  | material hk | group hk =>
    rw [hk] at hmesh'
    cases hmesh'

lemma Part.Tells.link_eq {isMixin site es place? control mesh} {x : Part}
    (h : x.Tells isMixin site es place? st) (hst : st = .linkWithMesh control mesh) :
    control = x.target ∧ ∃ a ∈ x.attributes, x.isLink a = true ∧
      ∃ base, base.name = Text.trim a.value ∧ .find base ∈ x.sights ∧ mesh = base.target := by
  cases h with
  | construct | apply => cases hst
  | placing hplacing =>
    subst hst
    cases Part.isPlacing hplacing
  | bind _ _ hbind =>
    obtain ⟨_, _, rfl⟩ := Option.map_eq_some_iff.1 hbind
    cases hst
  | @use u =>
    rw [Use.statement] at hst
    split at hst <;> cases hst
  | @link a base ha hlink hname hnote =>
    cases hst
    refine ⟨rfl, a, ha, hlink, base, hname, ?_, rfl⟩
    refine mem_append_right _ (mem_cons_of_mem _ (mem_append_right _ ?_))
    exact mem_flatMap.2 ⟨_, hnote, mem_cons_self⟩

namespace Planned

variable (h : Planned d c plan)
include h

lemma link_part {p control mesh} (hp : p ∈ d.pieces plan)
    (hst : .linkWithMesh control mesh ∈ p.statements) : ∃ x ∈ p.parts, control = x.target := by
  obtain hposts | ⟨_, _, e, _, hstarts⟩ := h.posts hp
  · obtain hjoint | ⟨x, hx, site, place?, hposted, hmem⟩ := hposts.statements _ hst
    · cases hjoint
    · exact ⟨x, hx, ((hposted.isFor.tells hmem).link_eq rfl).1⟩
  · generalize p.statements = sts at hst hstarts
    cases hstarts <;> simp at hst

lemma link_method {x mesh} (hx : x ∈ d.parts plan) (hst : .linkWithMesh x.target mesh ∈ c.body f) :
    f = x.method := by
  generalize heq : Statement.linkWithMesh x.target mesh = st at hst
  cases h.tells hst with
  | part hz hmethod _ htells =>
    have htarget := congrArg Target.path (htells.link_eq heq.symm).1
    rw [← hmethod, inj_on_of_nodup_map h.nodup_storage hx hz htarget]
  | joint hjoint => subst heq; cases hjoint
  | line | initial | check | call => cases heq

lemma meshGroups {y x name} (hy : y ∈ plan.flatMap Portion.stations) (hx : y.IsMesh d.isMixin x)
    (hgiven : x.object.given = some name) : d.meshGroups? name = some y.node.groups := by
  have hsome : (d.nodes.find? fun n =>
      n.role?.any Role.isMesh && n.element.givenName? == some name).isSome = true := by
    refine List.find?_isSome.2 ⟨y.node, ?_, Bool.and_eq_true_iff.2 ⟨?_, ?_⟩⟩
    · rw [← h.map_node_stations]
      exact mem_map_of_mem hy
    · rw [hx.role]
      exact hx.isMesh
    · rw [beq_iff_eq, ← hgiven, hx.built.given]
      rfl
  obtain ⟨n, hn⟩ := Option.isSome_iff_exists.1 hsome
  have hmem := mem_of_find?_eq_some hn
  rw [← h.map_node_stations] at hmem
  obtain ⟨z, hz, rfl⟩ := mem_map.1 hmem
  have hfound := List.find?_some hn
  rw [Bool.and_eq_true, beq_iff_eq] at hfound
  obtain ⟨x', hx'⟩ := (h.fits hz).exists_isMesh hfound.1
  have hobject : x'.object = x.object :=
    (ObjectName.eq_of_given (hx'.built.given.trans hfound.2)).trans
      (ObjectName.eq_of_given hgiven).symm
  obtain rfl := inj_on_of_nodup_map h.nodup_storage (d.part_mem hz hx'.content)
    (d.part_mem hy hx.content) (congrArg ObjectName.storage hobject)
  have hmethod : groupsMethod (groupsAbove z.above) = groupsMethod (groupsAbove y.above) := by
    rw [← methodBelow_eq, ← methodBelow_eq, ← hx'.built.method, hx.built.method]
  rw [Document.meshGroups?, hn]
  exact congrArg some
    (h.groupsMethod_injective (h.encloses hz suffix_rfl) (h.encloses hy suffix_rfl) hmethod)

end Planned

section

variable {earlier later : List Portion} {front back : List (String × Branch)} {method : String}
  {gui : Branch}
  (h : Planned d c (earlier ++ .guis (front ++ (method, gui) :: back) :: later))
include h

lemma Planned.guiGroups :
    ∃ gs, d.guiGroups? gui.element = some gs ∧ d.Encloses gs ∧ method = groupsMethod gs := by
  obtain ⟨entry, bs⟩ := gui
  have hfits : Station.Fits (guiGrowth d.isMixin method) ⟨.mk entry bs, []⟩ :=
    h.arranged.fits _ mem_cons_self
  have hentry : GuiEntry d.isMixin method [] entry := hfits.entry
  rw [Document.guiGroups?]
  cases hroot : GuiRoot.ofTag? (Branch.mk entry bs).element.tag with
  | none => cases hentry with
    | fullScreen hkind | onMesh hkind => cases hkind.symm.trans hroot
  | some kind =>
    cases kind with
    | fullScreen => cases hentry with
      | fullScreen _ hmethod => exact ⟨[], rfl, .inl rfl, hmethod⟩
      | onMesh hkind => cases hkind.symm.trans hroot
    | onMesh =>
      obtain ⟨y, x, hdrawn⟩ := h.exists_drawnOn hroot
      obtain ⟨raw, hraw, hgiven⟩ := hdrawn.named
      have hy : y ∈ (earlier ++ .guis (front ++ (method, .mk entry bs) :: back) :: later).flatMap
          Portion.stations := by
        rw [flatMap_append]
        exact mem_append_left _ hdrawn.mesh.1
      refine ⟨y.node.groups, ?_, h.encloses hy suffix_rfl, hdrawn.inside⟩
      rw [hraw]
      exact h.meshGroups hy hdrawn.mesh.2 hgiven

lemma Planned.subset_front {y x} (hy : y ∈ gui.stations [])
    (hcontent : y.entry.content = .object x []) {mesh K K'}
    (hbody : c.body f = K ++ .linkWithMesh x.target mesh :: K') : d.written earlier f ⊆ K := by
  obtain ⟨waiting, heq, _⟩ := h.arranged.body f
  rw [heq, ← append_assoc] at hbody
  refine List.Subset.trans (subset_append_right _ _) (subset_of_append_eq hbody fun hmem => ?_)
  obtain hmem | hmem := mem_append.1 hmem
  · split at hmem
    · obtain hjoint | ⟨_, hline⟩ := initBody_joint hmem
      · cases hjoint
      · cases hline
    · cases hmem
  obtain ⟨p, hp, hmem⟩ := mem_flatMap.1 hmem
  rw [Piece.writes] at hmem
  split at hmem
  · have hp' : p ∈ d.pieces (earlier ++ .guis (front ++ (method, gui) :: back) :: later) := by
      rw [Document.pieces, flatMap_append]
      exact mem_append_left _ hp
    obtain ⟨z, hz, htarget⟩ := h.link_part hp' hmem
    have hnodup := h.nodup_storage
    rw [Document.parts, Document.pieces, flatMap_append, flatMap_append, map_append] at hnodup
    refine disjoint_of_nodup_append hnodup (mem_map_of_mem (mem_flatMap.2 ⟨p, hp, hz⟩)) ?_
    rw [← show x.object.storage = z.object.storage from congrArg Target.path htarget]
    refine mem_map_of_mem (f := fun x : Part => x.object.storage) ?_
    rw [flatMap_cons, flatMap_append]
    exact mem_append_left _
      (Portion.mem_guiParts (mem_append_right _ mem_cons_self) hy hcontent)
  · cases hmem

end

lemma Planned.builtBefore_iff (h : Planned d c plan) {y} (hy : y ∈ d.parts plan) {gs ms}
    (hgs : d.Encloses gs) (hms : d.Encloses ms) (hmethod : y.method = groupsMethod ms) {K}
    (hK : K ⊆ c.body (groupsMethod gs))
    (hbuilt : ms = gs → ∃ v, .construct y.object.storage v ∈ K) :
    d.BuiltBefore c y.object.storage (groupsMethod gs) K ↔ ms <:+ gs := by
  have hwhere := fun f => h.construct_iff (f := f) hy
  constructor
  · intro hbefore
    cases hbefore with
    | earlier hmem =>
      have heq := ((hwhere _).1 ⟨_, hK hmem⟩).trans hmethod
      rw [h.groupsMethod_injective hgs hms heq]
    | main hf hmem =>
      have heq := ((hwhere _).1 ⟨_, hmem⟩).trans hmethod
      rw [← h.groupsMethod_injective (.inl rfl) hms heq]
      exact nil_suffix
    | @enclosing g inmost above v hpath hf hg hmem =>
      obtain rfl := h.groupsMethod_injective hgs (.inr hpath) hf
      obtain ⟨inner, outer, rfl⟩ := append_of_mem hg
      have hsuffix : g :: outer <:+ inmost :: (inner ++ g :: outer) :=
        (suffix_append _ _).trans (suffix_cons _ _)
      have heq := ((hwhere _).1 ⟨_, hmem⟩).trans hmethod
      rwa [← h.groupsMethod_injective (h.encloses_of_suffix hgs hsuffix) hms heq]
  · intro hsuffix
    obtain ⟨v, hv⟩ := (hwhere y.method).2 rfl
    rw [hmethod] at hv
    cases gs with
    | nil =>
      obtain ⟨w, hw⟩ := hbuilt (suffix_nil.1 hsuffix)
      exact .earlier hw
    | cons inmost above =>
      obtain heq | hsuffix := suffix_cons_iff.1 hsuffix
      · obtain ⟨w, hw⟩ := hbuilt heq
        exact .earlier hw
      obtain hnil | hpath := hgs
      · cases hnil
      cases ms with
      | nil => exact .main rfl hv
      | cons g outer => exact .enclosing hpath rfl (hsuffix.subset mem_cons_self) hv

/-- A part of a user interface in the groups `gs`, with a mesh of an earlier section in the groups
`ms`. -/
structure Document.Connects (d : Document) (plan : List Portion) (x y : Part)
    (gs ms : List String) : Prop where
  split : ∃ earlier front method gui back later,
    plan = earlier ++ .guis (front ++ (method, gui) :: back) :: later ∧
      (∃ z ∈ gui.stations [], z.entry.content = .object x []) ∧
      ∃ z ∈ earlier.flatMap Portion.stations, z.IsMesh d.isMixin y
  inner : d.Encloses gs ∧ x.method = groupsMethod gs
  outer : d.Encloses ms ∧ y.method = groupsMethod ms

namespace Document.Connects

variable {x y : Part} {gs ms : List String}

lemma mem (h : d.Connects plan x y gs ms) : x ∈ d.parts plan := by
  obtain ⟨_, _, _, _, _, _, rfl, ⟨z, hz, hcontent⟩, _⟩ := h.split
  rw [Document.parts, Document.pieces, flatMap_append, flatMap_cons, flatMap_append, flatMap_append]
  exact mem_append_right _ (mem_append_left _
    (Portion.mem_guiParts (mem_append_right _ mem_cons_self) hz hcontent))

lemma builtBefore_iff (h : d.Connects plan x y gs ms) (hplan : Planned d c plan) {mesh K K'}
    (hbody : c.body x.method = K ++ .linkWithMesh x.target mesh :: K') :
    d.BuiltBefore c y.object.storage x.method K ↔ ms <:+ gs := by
  obtain ⟨earlier, _, _, _, _, _, rfl, ⟨z, hz, hcontent⟩, t, ht, hmesh⟩ := h.split
  rw [h.inner.2] at hbody ⊢
  have hy : y ∈ d.parts earlier := d.part_mem ht hmesh.content
  refine hplan.builtBefore_iff ?_ h.inner.1 h.outer.1 h.outer.2 ?_ fun heq => ?_
  · rw [Document.parts, Document.pieces, flatMap_append, flatMap_append]
    exact mem_append_left _ hy
  · rw [hbody]
    exact subset_append_left _ _
  · obtain ⟨v, rest, hstatements⟩ := hmesh.statements
    refine ⟨v, hplan.subset_front hz hcontent hbody ?_⟩
    rw [← heq, ← h.outer.2]
    refine (hmesh.infix_written ht).subset ?_
    rw [hstatements]
    exact mem_cons_self

end Document.Connects

lemma Branch.control_below {isMixin method} {b : Branch} {y x}
    (h : ∀ y ∈ b.stations [], y.Fits (guiGrowth isMixin method)) (hy : y ∈ b.stations [])
    (hcontent : y.entry.content = .object x []) (hrole : x.role = .control) :
    x.element ∈ Element.subtrees b.element.children ∧
      x.BuiltFor isMixin method .control x.element := by
  obtain ⟨entry, bs⟩ := b
  have hroot : Station.Fits (guiGrowth isMixin method) ⟨.mk entry bs, []⟩ := h _ mem_cons_self
  obtain rfl | hy := mem_cons.1 hy
  · have hentry : GuiEntry isMixin method [] entry := hroot.entry
    cases hentry with
    | fullScreen _ _ hx | onMesh _ _ _ _ _ hx =>
      cases hcontent
      cases hx.role.symm.trans hrole
  · obtain ⟨x', hcontent', hx⟩ := control_of_mem hy (h y (mem_cons_of_mem _ hy))
    obtain ⟨rfl, _⟩ := Content.object.inj (hcontent.symm.trans hcontent')
    have hbelow : bs.map element = entry.element.children := hroot.below
    have helements := map_element_stationsOf bs _ fun y hy => h y (mem_cons_of_mem _ hy)
    rw [hbelow] at helements
    rw [hx.element]
    exact ⟨helements ▸ mem_map_of_mem hy, hx⟩

lemma Part.Lies.exists_gui {isMixin q} {x : Part} (h : x.Lies isMixin q)
    (hrole : x.role = .control) : ∃ roots, q = .guis roots ∧ ∃ r ∈ roots, ∃ y ∈ r.2.stations [],
      y.entry.content = .object x [] := by
  cases h with
  | node _ _ hnode =>
    obtain ⟨kind, _, hkind⟩ := Option.bind_eq_some_iff.1 hnode
    rw [hrole] at hkind
    cases kind <;> cases hkind
  | gui hr hy _ hcontent => exact ⟨_, rfl, _, hr, _, hy, hcontent⟩
  | shared hshared =>
    rw [hrole] at hshared
    cases hshared

lemma Planned.connects (h : Planned d c plan) {control mesh}
    (hst : .linkWithMesh control mesh ∈ c.body f) :
    ∃ x y gs ms, d.Connects plan x y gs ms ∧ d.Links f gs ms control mesh ∧ f = x.method ∧
      control = x.target ∧ mesh.path = y.object.storage := by
  generalize heq : Statement.linkWithMesh control mesh = st at hst
  cases h.tells hst with
  | joint hjoint => subst heq; cases hjoint
  | line | initial | check | call => cases heq
  | @part x _ _ _ hx hmethod _ htells =>
    obtain ⟨rfl, a, ha, hlink, base, hname, hfind, rfl⟩ := htells.link_eq heq.symm
    obtain ⟨hrole, haname, hliteral⟩ : x.role = .control ∧ a.name = linkAttribute ∧
        isLiteral a.value = true := by simpa [Part.isLink] using hlink
    obtain ⟨q, hq, hlies⟩ := h.lies hx
    obtain ⟨roots, rfl, ⟨method, gui⟩, hgui, y, hy, hcontent⟩ := hlies.exists_gui hrole
    obtain ⟨e, he, hportion⟩ := exists_of_forall₂ h.sections hq
    obtain ⟨earlier, later, rfl⟩ := append_of_mem hq
    obtain ⟨z, hz, y', hmesh, hgiven, rfl⟩ := h.found (Portion.mem_guiParts hgui hy hcontent) hfind
    obtain ⟨front, back, rfl⟩ := append_of_mem hgui
    obtain ⟨gs, hgs, hencloses, hinner⟩ := h.guiGroups
    have hz' : z ∈ (earlier ++ .guis (front ++ (method, gui) :: back) :: later).flatMap
        Portion.stations := by
      rw [flatMap_append]
      exact mem_append_left _ hz
    obtain ⟨hbelow, hx⟩ := Branch.control_below h.arranged.fits hy hcontent hrole
    have houter : y'.method = groupsMethod z.node.groups :=
      hmesh.built.method.trans (methodBelow_eq _)
    refine ⟨x, y', gs, z.node.groups,
      ⟨⟨_, _, _, _, _, _, rfl, ⟨y, hy, hcontent⟩, z, hz, hmesh⟩, ⟨hencloses, hx.method.trans hinner⟩,
        h.encloses hz' suffix_rfl, houter⟩, ?_, hmethod.symm, rfl, rfl⟩
    have htarget : y'.mesh.target =
        ⟨storageName (Text.trim a.value), isDeferred (groupsMethod z.node.groups)⟩ := by
      rw [← houter, ← hname]
      rfl
    have hroot : gui.element ∈ d.userInterfaces := by
      cases hportion with
      | guis hkind helements =>
        refine mem_flatMap.2 ⟨e, mem_filter.2 ⟨he, by simp [hkind]⟩, ?_⟩
        rw [← helements]
        exact mem_map_of_mem (f := fun r : String × Branch => r.2.element)
          (mem_append_right _ mem_cons_self)
    rw [htarget]
    refine .intro hroot hgs ?_ hbelow (hx.isOf fun _ hnone => by cases hnone) (mem_filter.1 ha).1
      haname hliteral (h.meshGroups hz' hmesh (hname ▸ hgiven))
    rw [← hmethod, hx.method, hinner]

/-- A link comes from a literal attribute of a control. Its mesh is sure to be built before it iff
the groups around the mesh are around the user interface of the control, and then no run comes to
the link before the mesh is built. -/
theorem link_after_mesh_iff {d : Document} {options : CompileOptions} {c : ClassDef} {f : String}
    {control mesh : Target} {front back : List Statement} (h : d.generated? options = some c)
    (hbody : c.body f = front ++ .linkWithMesh control mesh :: back) :
    ∃ gs ms, d.Links f gs ms control mesh ∧
      (d.BuiltBefore c mesh.path f front ↔ ms <:+ gs) ∧
      (ms <:+ gs → ∀ k fs B R,
        ReflTransGen c.Runs c.start ⟨(.linkWithMesh control mesh :: k) :: fs, B, R⟩ →
          mesh.path ∈ B) := by
  obtain ⟨plan, hplan⟩ := d.planned h
  have hmem : ∀ {f K K'}, c.body f = K ++ .linkWithMesh control mesh :: K' →
      .linkWithMesh control mesh ∈ c.body f := by
    intro f K K' hK
    rw [hK]
    exact List.mem_append_right _ List.mem_cons_self
  obtain ⟨x, y, gs, ms, hconnects, hlinks, rfl, rfl, hpath⟩ := hplan.connects (hmem hbody)
  rw [hpath]
  refine ⟨gs, ms, hlinks, hconnects.builtBefore_iff hplan hbody, ?_⟩
  intro hsuffix k fs B R hrun
  obtain ⟨f, K, hK, hbuilt⟩ := ClassDef.settled_of_start hplan hrun _ List.mem_cons_self
  obtain rfl := hplan.link_method hconnects.mem (hmem hK)
  exact hbuilt _ ((hconnects.builtBefore_iff hplan hK).2 hsuffix)

def signpostView : Document where
  root :=
    { tag := "View"
      attributes := [⟨"name", "V"⟩]
      children :=
        [{ tag := "Nodes"
           children :=
             [{ tag := "DeferredGroup"
                attributes := [⟨"name", "street"⟩, ⟨"initWhen", "\x7bthis.open\x7d"⟩]
                children :=
                  [{ tag := "Box", attributes := [⟨"name", "house"⟩] },
                    { tag := "DeferredGroup"
                      attributes := [⟨"name", "corner"⟩, ⟨"initWhen", "\x7bthis.near\x7d"⟩]
                      children := [{ tag := "Plane", attributes := [⟨"name", "sign"⟩] }] }] }] },
          { tag := "Guis"
            children :=
              [{ tag := "TextureGui"
                 attributes := [⟨"mesh", "sign"⟩]
                 children :=
                   [{ tag := "TextBlock"
                      attributes := [⟨"name", "arrow"⟩, ⟨"linkWithMesh", "house"⟩] }] }] }] }

theorem signpostView_links_late :
    ∃ c control mesh front back, signpostView.generated? {} = some c ∧
      c.body (groupMethod "corner") = front ++ .linkWithMesh control mesh :: back ∧
      ∃ gs ms, signpostView.Links (groupMethod "corner") gs ms control mesh ∧
        (signpostView.BuiltBefore c mesh.path (groupMethod "corner") front ↔ ms <:+ gs) ∧
        (ms <:+ gs → ∀ k fs B R,
          ReflTransGen c.Runs c.start ⟨(.linkWithMesh control mesh :: k) :: fs, B, R⟩ →
            mesh.path ∈ B) := by
  obtain ⟨c, h⟩ := Option.isSome_iff_exists.1
    (show (signpostView.generated? {}).isSome = true by decide +kernel)
  have hlink : ∀ c ∈ signpostView.generated? {}, .linkWithMesh ⟨"x_arrow", true⟩ ⟨"x_house", true⟩ ∈
      c.body (groupMethod "corner") := by decide +kernel
  obtain ⟨front, back, hbody⟩ := List.append_of_mem (hlink c h)
  exact ⟨c, _, _, front, back, h, hbody, link_after_mesh_iff h hbody⟩

def balloonView : Document where
  root :=
    { tag := "View"
      attributes := [⟨"name", "V"⟩]
      children :=
        [{ tag := "Nodes"
           children :=
             [{ tag := "DeferredGroup"
                attributes := [⟨"name", "sky"⟩, ⟨"initWhen", "\x7bthis.open\x7d"⟩]
                children := [{ tag := "Sphere", attributes := [⟨"name", "balloon"⟩] }] }] },
          { tag := "Guis"
            children :=
              [{ tag := "FullScreen"
                 children :=
                   [{ tag := "TextBlock"
                      attributes := [⟨"name", "label"⟩, ⟨"linkWithMesh", "balloon"⟩] }] }] }] }

/-- What the main method of the view runs before the link. -/
def balloonFront : List Statement :=
  [.bindGroup Builtin.engine "this._host.open" (groupMethod "sky"),
    .construct "x_AdvancedDynamicTexture1"
      (.fullScreen guiType "AdvancedDynamicTexture1" Builtin.scene),
    .construct "x_label" (.control "TextBlock" "label"),
    .addControl ⟨"x_AdvancedDynamicTexture1", false⟩ ⟨"x_label", false⟩]

/-- The label is linked with the mesh before the mesh is built. -/
theorem balloonView_links_early :
    ∃ c front back B R, balloonView.generated? {} = some c ∧
      c.body Builtin.init =
        front ++ .linkWithMesh ⟨"x_label", false⟩ ⟨"x_balloon", true⟩ :: back ∧
      ¬ balloonView.BuiltBefore c "x_balloon" Builtin.init front ∧
      ReflTransGen c.Runs c.start
        ⟨[.linkWithMesh ⟨"x_label", false⟩ ⟨"x_balloon", true⟩ :: back], B, R⟩ ∧
      "x_balloon" ∉ B := by
  obtain ⟨c, h⟩ := Option.isSome_iff_exists.1
    (show (balloonView.generated? {}).isSome = true by decide +kernel)
  have hbody : ∀ c ∈ balloonView.generated? {}, c.body Builtin.init =
      (initBody false ++ balloonFront) ++
        [.linkWithMesh ⟨"x_label", false⟩ ⟨"x_balloon", true⟩,
          .trigger "this._host.open" (groupMethod "sky")] := by decide +kernel
  have hordinary : ∀ st ∈ (initBody false).drop 2 ++ balloonFront, st.isOrdinary = true := by
    decide +kernel
  have hbuilds : ∀ st ∈ initBody false ++ balloonFront, st.builds "x_balloon" = false := by
    decide +kernel
  have hpasses : ∀ st ∈ (initBody false).drop 2 ++ balloonFront,
      c.Passes (· = "x_balloon") st := by
    intro st hst
    refine .of_isOrdinary (hordinary st hst) ?_
    rintro _ rfl
    exact hbuilds st (((List.drop_sublist _ _).append_right _).subset hst)
  obtain ⟨B, hB, hrun⟩ := ClassDef.Passes.run hpasses _ [] [Builtin.isInitialized] (B := [])
    (fun _ _ => List.not_mem_nil)
  refine ⟨c, _, _, B, [Builtin.isInitialized], h, hbody c h, ?_, ?_, hB _ rfl⟩
  · intro hbefore
    cases hbefore with
    | earlier hmem => simpa using hbuilds _ hmem
    | main hf _ | enclosing _ hf _ _ => exact absurd hf.symm (groupMethod_ne_init _)
  · rw [ClassDef.start, hbody c h]
    exact .head (.stay List.not_mem_nil) (.head .raise hrun)

end SceneView
