import SceneView.Proofs.Nesting

/-!
# The scene mirrors the document

The objects that a generated class builds form the tree of the document. Every node is placed right
after it is built: below the nearest node around it that is no deferred group, or below the root of
the view. Every control is put into its parent right after it is built. What an object is placed
below is built before it, in the same method or in the one around the groups in between.
-/

open List

namespace SceneView

open List Station

/-- The class builds the object of a member once, in the given method. -/
def ClassDef.BuildsIn (c : ClassDef) (method member : String) : Prop :=
  ∀ m, (c.body m).countP (·.builds member) = if method = m then 1 else 0

/-- The piece builds one object first and then nothing else. -/
structure Piece.Founds (p : Piece) (name : String) (v : Construction) (rest : List Statement) :
    Prop where
  names : p.names = [name]
  statements : p.statements = .construct (storageName name) v :: rest
  nothing : ∀ st ∈ rest, ∀ m, st.builds m = false

def Entry.hasObject (x : Entry) : Bool :=
  match NodeKind.ofTag? x.element.tag with
  | some .deferredGroup | some .material | none => false
  | some _ => true

namespace Planned

variable {d : Document} {c : ClassDef} {plan : List Portion} {Q₁ Q₂ : List Piece} {p : Piece}
  {n : String} {v : Construction} {rest : List Statement}

lemma owned (h : Planned d c plan) (hp : p ∈ d.pieces plan) : p.Owned := by
  obtain ⟨q, hq, hp⟩ := mem_flatMap.1 hp
  obtain ⟨e, he⟩ := h.isOf hq
  exact he.owned hp

lemma not_builds_pieces {qs : List Piece} {n} (hqs : ∀ q ∈ qs, q.Owned)
    (hn : n ∉ qs.flatMap Piece.names) (m : String) :
    (qs.flatMap (Piece.writes m)).countP (·.builds (storageName n)) = 0 := by
  rw [countP_eq_zero]
  intro st hst hbuilds
  obtain ⟨q, hq, hst⟩ := mem_flatMap.1 hst
  rw [Piece.writes] at hst
  split at hst
  · obtain ⟨n', hn', heq⟩ := mem_map.1 (hqs q hq st hst _ hbuilds)
    rw [storageName_injective heq] at hn'
    exact hn (mem_flatMap.2 ⟨q, hq, hn'⟩)
  · cases hst

lemma countP_builds (h : Planned d c plan) (hsplit : d.pieces plan = Q₁ ++ p :: Q₂)
    (hn : n ∈ p.names) (m : String) :
    (c.body m).countP (·.builds (storageName n)) =
      if p.method = m then p.statements.countP (·.builds (storageName n)) else 0 := by
  have hnodup := h.nodup_names
  have howned : ∀ q ∈ Q₁ ++ p :: Q₂, q.Owned := fun q hq => h.owned (hsplit ▸ hq)
  rw [hsplit, flatMap_append, flatMap_cons] at hnodup
  have hbefore : n ∉ Q₁.flatMap Piece.names := fun hmem =>
    (nodup_append.1 hnodup).2.2 n hmem n (mem_append_left _ hn) rfl
  have hafter : n ∉ Q₂.flatMap Piece.names := fun hmem =>
    (nodup_append.1 (nodup_append.1 hnodup).2.1).2.2 n hn n hmem rfl
  have hinit : (if m = Builtin.init then Compile.initBody d.isMixin else []).countP
      (·.builds (storageName n)) = 0 := by
    split
    · exact initBody_not_builds _ _
    · rfl
  have hwaiting : ∀ f, f = checks m ∨ f = calls m →
      ((plan.flatMap Portion.groups).flatMap f).countP (·.builds (storageName n)) = 0 := by
    intro f hf
    rw [countP_eq_zero]
    intro st hst
    obtain ⟨g, _, hst⟩ := mem_flatMap.1 hst
    obtain rfl | rfl := hf <;> simp only [checks, calls] at hst <;> split at hst
    iterate 2
      · obtain ⟨_, _, rfl⟩ := mem_map.1 hst
        simp [Statement.builds]
      · cases hst
  rw [h.body, countP_append, countP_append, countP_append, hinit,
    hwaiting _ (.inl rfl), hwaiting _ (.inr rfl),
    hsplit, flatMap_append, flatMap_cons, countP_append, countP_append,
    not_builds_pieces (fun q hq => howned q (mem_append_left _ hq)) hbefore,
    not_builds_pieces (fun q hq => howned q (by simp [hq])) hafter, Piece.writes]
  split <;> simp

lemma founded (h : Planned d c plan) (hsplit : d.pieces plan = Q₁ ++ p :: Q₂)
    (hp : p.Founds n v rest) :
    c.BuildsIn p.method (storageName n) ∧ ∃ before after,
      c.body p.method = before ++ .construct (storageName n) v :: (rest ++ after) ∧
        Q₁.flatMap (Piece.writes p.method) ⊆ before := by
  constructor
  · intro m
    have hn : n ∈ p.names := hp.names ▸ mem_singleton_self _
    have hone : p.statements.countP (·.builds (storageName n)) = 1 := by
      have hrest : rest.countP (·.builds (storageName n)) = 0 :=
        countP_eq_zero.2 fun st hst => by simp [hp.nothing st hst]
      rw [hp.statements, countP_cons, hrest]
      simp
    rw [h.countP_builds hsplit hn m, hone]
  · refine ⟨_, Q₂.flatMap (Piece.writes p.method) ++
      ((plan.flatMap Portion.groups).flatMap (checks p.method) ++
        (plan.flatMap Portion.groups).flatMap (calls p.method)), ?_,
      subset_append_right
        (if p.method = Builtin.init then Compile.initBody d.isMixin else []) _⟩
    rw [h.body, hsplit, flatMap_append, flatMap_cons, Piece.writes, if_pos rfl, hp.statements]
    simp only [append_assoc, cons_append]

end Planned

def Construction.isFor (type name : String) : Construction → Bool
  | named t n _ | shape t _ n _ | model t _ n _ | control t n => t == type && n == name
  | factory .. | texture .. | fullScreen .. | onMesh .. => false

variable {isMixin : Bool} {above : List Entry} {e : Element} {y : Station}

lemma Part.BuiltFor.founds {method role x place?} (hx : Part.BuiltFor isMixin method role e x)
    (es : List Event) :
    Piece.Founds ⟨method, [x], x.statementsWith es isMixin place? [], []⟩ x.object.name
      (x.construction isMixin place?) (x.placing place? ++ x.notes.map (Note.written es x.target)) where
  names := rfl
  statements := append_nil _
  nothing st hst m := by
    have hwithin := (hx.within_rest hst).builds m
    cases hbuilds : st.builds m with
    | false => rfl
    | true => cases hwithin hbuilds

lemma Part.placed_node {kind role site} {x : Part} (hk : NodeKind.ofTag? e.tag = some kind)
    (hrole : kind.role? = some role) (hx : x.IsFor isMixin site role e) {place} :
    NodeKind.ofTag? e.tag = some .custom ∧ (∃ code options,
        x.construction isMixin (some place) = .factory code options place) ∨
      NodeKind.ofTag? e.tag ≠ some .custom ∧
        (x.construction isMixin (some place)).isFor e.tag x.object.name = true ∧
        x.placing (some place) = [.attach x.object.storage place] := by
  have htag := NodeKind.tag_eq hk
  rw [hk]
  cases kind with
  | custom =>
    cases hrole
    refine .inl ⟨rfl, ?_⟩
    rw [construction, hx.role]
    exact ⟨_, _, rfl⟩
  | transform | shape | model =>
    cases hrole
    refine .inr ⟨by simp, ?_, ?_⟩
    · rw [construction, hx.role]
      simp [Construction.isFor, type, hx.role, Role.typeOf, ← htag, NodeKind.tag]
    · rw [placing, hx.role]
      rfl
  | deferredGroup | material => cases hrole

lemma Station.Fits.founds_node (h : y.Fits (nodeGrowth isMixin))
    (hobject : y.entry.hasObject = true) (es : List Event) :
    ∃ v rest, (y.piece (nodeGrowth isMixin) es).Founds y.entry.name v rest ∧
      (NodeKind.ofTag? y.entry.element.tag = some .custom ∧
          (∃ code options, v = .factory code options (parentBelow y.above)) ∨
        NodeKind.ofTag? y.entry.element.tag ≠ some .custom ∧
          v.isFor y.entry.element.tag y.entry.name = true ∧
          ∃ rest', rest = .attach y.entry.member (parentBelow y.above) :: rest') := by
  obtain ⟨⟨x, bs⟩, above⟩ := y
  have hentry : NodeEntry isMixin above x := h.entry
  cases hentry with
  | object hk hrole hx =>
    refine ⟨_, _, hx.founds es, (Part.placed_node hk hrole hx.toIsFor).imp id ?_⟩
    rintro ⟨hnot, hv, hplacing⟩
    exact ⟨hnot, hv, _, congrArg (· ++ _) hplacing⟩
  | material hk | group hk =>
    have hnone : Entry.hasObject ⟨_, _⟩ = true := hobject
    simp [Entry.hasObject, hk] at hnone

lemma Station.Fits.not_isGroup (h : y.Fits (nodeGrowth isMixin))
    (hobject : y.entry.hasObject = true) : y.entry.isGroup = false := by
  cases hgroup : y.entry.isGroup with
  | false => rfl
  | true => 
    have htag := (NodeEntry.isGroup_iff h.entry).1 hgroup
    simp [Entry.hasObject, htag] at hobject

lemma Station.Fits.hasObject (h : y.Fits (nodeGrowth isMixin)) (hbelow : y.branch.children ≠ [])
    (hgroup : y.entry.isGroup = false) : y.entry.hasObject = true := by
  obtain ⟨⟨x, bs⟩, above⟩ := y
  have hentry : NodeEntry isMixin above x := h.entry
  have hkids : bs.map Branch.element = x.element.nodesIn := h.below
  change x.hasObject = true
  cases hentry with
  | @object _ kind _ _ hk hrole =>
    cases kind with
    | deferredGroup | material => cases hrole
    | _ => simp [Entry.hasObject, hk]
  | material hk =>
    rw [Element.nodesIn, if_pos hk] at hkids
    exact absurd (map_eq_nil_iff.1 hkids) hbelow
  | group => cases hgroup

lemma Station.Fits.founds_gui {method} (h : y.Fits (guiGrowth isMixin method)) (es : List Event) :
    ∃ v rest, (y.piece (guiGrowth isMixin method) es).Founds y.entry.name v rest ∧
      ∀ p outer, y.above = p :: outer → v = .control y.entry.element.tag y.entry.name ∧ ∃ rest',
        rest = .addControl ⟨p.member, isDeferred method⟩ ⟨y.entry.member, isDeferred method⟩ ::
          rest' := by
  obtain ⟨⟨x, bs⟩, above⟩ := y
  have hentry : GuiEntry isMixin method above x := h.entry
  cases hentry with
  | fullScreen _ _ hx | onMesh _ _ _ _ _ hx =>
    refine ⟨_, _, hx.founds es, ?_⟩
    rintro p outer ⟨⟩
  | @control e x parent outer hx =>
    refine ⟨_, _, hx.founds es, ?_⟩
    rintro p outer' ⟨⟩
    refine ⟨?_, x.notes.map (Note.written es x.target), ?_⟩
    · rw [Part.construction, Part.type, hx.role, hx.element]
      rfl
    · rw [Part.placing, hx.role, Part.target, hx.method]
      rfl

/-- The class places the object of a node where the document has the node. `before` is what its
method does until the object is built. -/
structure Station.MirroredIn (c : ClassDef) (x : Station) : Prop where
  once : c.BuildsIn (methodBelow x.above) x.entry.member
  top : (∀ g ∈ x.above, g.isGroup = true) → parentBelow x.above = Builtin.root
  placed : ∃ before v after,
    c.body (methodBelow x.above) = before ++ .construct x.entry.member v :: after ∧
    (NodeKind.ofTag? x.entry.element.tag = some .custom ∧
        (∃ code options, v = .factory code options (parentBelow x.above) ∧
          (Statement.construct x.entry.member v).text = "this." ++ x.entry.member ++ " = (" ++ code ++
            ")(" ++ Construction.factoryOptions options ++ ", this." ++ parentBelow x.above ++ ");") ∨
      NodeKind.ofTag? x.entry.element.tag ≠ some .custom ∧
        v.isFor x.entry.element.tag x.entry.name = true ∧
        ∃ st rest, after = st :: rest ∧ st = .attach x.entry.member (parentBelow x.above) ∧
          st.text = "this." ++ x.entry.member ++ ".parent = this." ++ parentBelow x.above ++ ";") ∧
    ∀ inner p outer, x.above = inner ++ p :: outer → (∀ g ∈ inner, g.isGroup = true) →
      p.isGroup = false → parentBelow x.above = p.seat ∧
        ∃ v', .construct p.member v' ∈ c.body (methodBelow (p :: outer)) ∧
          (inner = [] → .construct p.member v' ∈ before)

/-- The class puts a control into the control or the user interface around it. -/
structure Station.FilledIn (c : ClassDef) (method : String) (x : Station) : Prop where
  once : c.BuildsIn method x.entry.member
  placed : ∀ p outer, x.above = p :: outer → ∃ before st after,
    c.body method = before ++
      .construct x.entry.member (.control x.entry.element.tag x.entry.name) :: st :: after ∧
    st = .addControl ⟨p.member, isDeferred method⟩ ⟨x.entry.member, isDeferred method⟩ ∧
    st.text = "this." ++ p.member ++ (if method = Builtin.init then "" else "!") ++
      ".addControl(this." ++ x.entry.member ++ (if method = Builtin.init then "" else "!") ++ ");" ∧
    ∃ v, .construct p.member v ∈ before

lemma addControl_text (method parent control : String) :
    (Statement.addControl ⟨parent, isDeferred method⟩ ⟨control, isDeferred method⟩).text =
      "this." ++ parent ++ (if method = Builtin.init then "" else "!") ++ ".addControl(this." ++
        control ++ (if method = Builtin.init then "" else "!") ++ ");" := by
  by_cases hinit : method = Builtin.init <;>
    simp [Statement.text, Target.text, bang, isDeferred, hinit, ← String.toList_inj]

lemma parentBelow_groups (h : ∀ g ∈ above, g.isGroup = true) :
    parentBelow above = Builtin.root := by
  have hnone : above.find? (!·.isGroup) = none := by
    rw [find?_eq_none]
    intro g hg
    simp [h g hg]
  rw [parentBelow, hnone]

lemma parentBelow_append {inner outer p} (hinner : ∀ g ∈ inner, g.isGroup = true)
    (hp : p.isGroup = false) : parentBelow (inner ++ p :: outer) = p.seat := by
  induction inner with
  | nil => exact parentBelow_node hp outer
  | cons g inner ih =>
    obtain ⟨hg, hinner⟩ := forall_mem_cons.1 hinner
    rw [cons_append, parentBelow_group hg, ih hinner]

namespace Planned

variable {d : Document} {c : ClassDef} {plan : List Portion}

lemma exists_split {q p P₁ P₂} (hq : q ∈ plan)
    (hpieces : q.pieces d.isMixin d.outline = P₁ ++ p :: P₂) :
    ∃ Q₁ Q₂, d.pieces plan = Q₁ ++ p :: Q₂ ∧ P₁ ⊆ Q₁ := by
  obtain ⟨plan₁, plan₂, rfl⟩ := append_of_mem hq
  refine ⟨d.pieces plan₁ ++ P₁, P₂ ++ d.pieces plan₂, ?_, subset_append_right _ _⟩
  rw [Document.pieces, flatMap_append, flatMap_cons, hpieces]
  simp only [Document.pieces, append_assoc, cons_append]

lemma mirroredIn (h : Planned d c plan) {forest : List Branch} (hforest : .nodes forest ∈ plan) {x}
    (hx : x ∈ Branch.stationsOf [] forest) (hobject : x.entry.hasObject = true) :
    x.MirroredIn c := by
  have hfits : ∀ y ∈ Branch.stationsOf [] forest, y.Fits (nodeGrowth d.isMixin) := by
    obtain ⟨e, he⟩ := h.isOf hforest
    cases he with
    | nodes _ _ hfits => exact hfits
  obtain ⟨S₁, S₂, hsplit⟩ := append_of_mem hx
  have hplain : x.pieces (nodeGrowth d.isMixin) d.outline =
      [x.piece (nodeGrowth d.isMixin) d.outline] := by
    rw [pieces, (hfits x hx).not_isGroup hobject]
    rfl
  have hportion : (Portion.nodes forest).pieces d.isMixin d.outline =
      S₁.flatMap (pieces (nodeGrowth d.isMixin) d.outline) ++
        x.piece (nodeGrowth d.isMixin) d.outline ::
          S₂.flatMap (pieces (nodeGrowth d.isMixin) d.outline) := by
    rw [Portion.pieces, hsplit, flatMap_append, flatMap_cons, hplain]
    rfl
  obtain ⟨Q₁, Q₂, hpieces, hbefore⟩ := exists_split hforest hportion
  obtain ⟨v, rest, hfounds, hplaced⟩ := (hfits x hx).founds_node hobject d.outline
  obtain ⟨honce, before, after, hbody, hsub⟩ := h.founded hpieces hfounds
  refine ⟨honce, parentBelow_groups, before, v, rest ++ after, hbody, ?_, ?_⟩
  · refine hplaced.imp ?_ ?_
    · rintro ⟨hcustom, code, options, rfl⟩
      refine ⟨hcustom, code, options, rfl, ?_⟩
      simp [Statement.text, Construction.text, ← String.toList_inj]
    · rintro ⟨hnot, hv, rest', rfl⟩
      exact ⟨hnot, hv, _, rest' ++ after, rfl, rfl, rfl⟩
  · intro inner p outer habove hinner hp
    refine ⟨habove ▸ parentBelow_append hinner hp, ?_⟩
    obtain hnil | ⟨y, hy, rfl, rfl, hbelow⟩ := Branch.stationsOf_before hsplit
      (habove ▸ suffix_append inner (p :: outer))
    · cases suffix_nil.1 hnil
    have hyforest : y ∈ Branch.stationsOf [] forest := hsplit ▸ mem_append_left _ hy
    have hyobject := (hfits y hyforest).hasObject hbelow hp
    obtain ⟨v', rest', hyfounds, _⟩ := (hfits y hyforest).founds_node hyobject d.outline
    have hst : .construct y.entry.member v' ∈
        (y.piece (nodeGrowth d.isMixin) d.outline).statements :=
      hyfounds.statements ▸ mem_cons_self
    have hpiece : y.piece (nodeGrowth d.isMixin) d.outline ∈ Q₁ :=
      hbefore (mem_flatMap.2 ⟨y, hy, mem_append_right _ (mem_singleton_self _)⟩)
    refine ⟨v', ?_, fun hnil => hsub (mem_flatMap.2 ⟨_, hpiece, Piece.mem_writes hst ?_⟩)⟩
    · rw [methodBelow_node hp]
      exact (h.infix_body (hpieces ▸ mem_append_left _ hpiece)).subset hst
    · change methodBelow y.above = methodBelow x.above
      rw [habove, hnil, nil_append, methodBelow_node hp]

lemma filledIn (h : Planned d c plan) {roots} (hguis : .guis roots ∈ plan) {r} (hr : r ∈ roots) {x}
    (hx : x ∈ r.2.stations []) : x.FilledIn c r.1 := by
  have hfits : ∀ y ∈ r.2.stations [], y.Fits (guiGrowth d.isMixin r.1) := by
    obtain ⟨e, he⟩ := h.isOf hguis
    cases he with
    | guis _ _ hroots => exact (hroots r hr).2
  obtain ⟨R₁, R₂, hroots⟩ := append_of_mem hr
  obtain ⟨S₁, S₂, hsplit⟩ := append_of_mem hx
  have hportion : (Portion.guis roots).pieces d.isMixin d.outline =
      ((Portion.guis R₁).pieces d.isMixin d.outline ++
        S₁.map (piece (guiGrowth d.isMixin r.1) d.outline)) ++
          x.piece (guiGrowth d.isMixin r.1) d.outline ::
            (S₂.map (piece (guiGrowth d.isMixin r.1) d.outline) ++
              (Portion.guis R₂).pieces d.isMixin d.outline) := by
    rw [Portion.pieces, hroots, flatMap_append, flatMap_cons, hsplit]
    simp only [Portion.pieces, map_append, map_cons, append_assoc, cons_append]
  obtain ⟨Q₁, Q₂, hpieces, hbefore⟩ := exists_split hguis hportion
  obtain ⟨v, rest, hfounds, hplaced⟩ := (hfits x hx).founds_gui d.outline
  obtain ⟨honce, before, after, hbody, hsub⟩ := h.founded hpieces hfounds
  refine ⟨honce, fun p outer habove => ?_⟩
  obtain ⟨rfl, rest', rfl⟩ := hplaced p outer habove
  refine ⟨before, _, rest' ++ after, hbody, rfl, addControl_text r.1 _ _, ?_⟩
  have hsuffix : p :: outer <:+ x.above := habove ▸ suffix_rfl
  obtain hnil | ⟨y, hy, rfl, rfl, _⟩ := Branch.stations_before hsplit hsuffix
  · cases suffix_nil.1 hnil
  have hyroot : y ∈ r.2.stations [] := hsplit ▸ mem_append_left _ hy
  obtain ⟨v', rest'', hyfounds, _⟩ := (hfits y hyroot).founds_gui d.outline
  have hpiece : y.piece (guiGrowth d.isMixin r.1) d.outline ∈ Q₁ :=
    hbefore (mem_append_right _ (mem_map_of_mem hy))
  have hst : .construct y.entry.member v' ∈ (y.piece (guiGrowth d.isMixin r.1) d.outline).statements :=
    hyfounds.statements ▸ mem_cons_self
  exact ⟨v', hsub (mem_flatMap.2 ⟨_, hpiece, Piece.mem_writes hst rfl⟩)⟩

end Planned

/-- The object graph of a generated class mirrors the tree of the document. -/
theorem scene_mirrors_document {d : Document} {options : CompileOptions} {c : ClassDef}
    (h : d.generated? options = some c) :
    ∃ plan, Planned d c plan ∧
      (∀ forest, .nodes forest ∈ plan → ∀ x ∈ Branch.stationsOf [] forest,
        x.entry.hasObject = true → x.MirroredIn c) ∧
      ∀ roots, .guis roots ∈ plan → ∀ r ∈ roots, ∀ x ∈ r.2.stations [], x.FilledIn c r.1 := by
  obtain ⟨plan, hplan⟩ := d.planned h
  refine ⟨plan, hplan, ?_, ?_⟩
  · intro forest hforest x hx hobject
    exact hplan.mirroredIn hforest hx hobject
  · intro roots hguis r hr x hx
    exact hplan.filledIn hguis hr hx

def riggedView : Document where
  root :=
    { tag := "View"
      attributes := [⟨"name", "V"⟩]
      children :=
        [{ tag := "Nodes"
           children :=
             [{ tag := "TransformNode"
                attributes := [⟨"name", "rig"⟩]
                children :=
                  [{ tag := "DeferredGroup"
                     attributes := [⟨"name", "late"⟩]
                     children :=
                       [{ tag := "Custom"
                          attributes :=
                            [⟨"name", "door"⟩, ⟨"type", "Door"⟩, ⟨"factory", "makeDoor"⟩,
                              ⟨"attachChildrenTo", "frame"⟩]
                          children :=
                            [{ tag := "Sphere", attributes := [⟨"name", "knob"⟩] }] }] }] }] },
          { tag := "Guis"
            children :=
              [{ tag := "TextureGui"
                 attributes := [⟨"mesh", "door"⟩]
                 children :=
                   [{ tag := "StackPanel"
                      children :=
                        [{ tag := "TextBlock", attributes := [⟨"name", "label"⟩] }] }] }] }] }

/-- The view is accepted, and its class mirrors it. -/
theorem riggedView_mirrored :
    ∃ c, riggedView.generated? {} = some c ∧
      ∃ plan, Planned riggedView c plan ∧
        (∀ forest, .nodes forest ∈ plan → ∀ x ∈ Branch.stationsOf [] forest,
          x.entry.hasObject = true → x.MirroredIn c) ∧
        ∀ roots, .guis roots ∈ plan → ∀ r ∈ roots, ∀ x ∈ r.2.stations [], x.FilledIn c r.1 := by
  obtain ⟨c, h⟩ := Option.isSome_iff_exists.1
    (show (riggedView.generated? {}).isSome = true by decide +kernel)
  exact ⟨c, h, scene_mirrors_document h⟩

end SceneView
