import SceneView.Proofs.Branch
import SceneView.Proofs.Elements

/-!
# The changes of trees

The compilation of a node or of a user interface leaves the trace of a branch: for every element
there is an entry that tells all that is written for it.
-/

open List

namespace SceneView

lemma Value.Binder.name_of_translate {b : Binder} {name raw target options t}
    (h : b.translate name raw target options = .ok t) : t.name = name := by
  simp only [translate, bind, Except.bind] at h
  split at h
  · cases h
  · split at h
    · cases h
      rfl
    · split at h <;> cases h <;> rfl

lemma Part.passed_eq {isMixin : Bool} {x : Part} {ps : List (Attribute × Value.Translated)}
    (h : List.Forall₂ (fun a p => p.1 = a ∧ x.translate isMixin a = .ok p.2) x.attributes ps) :
    x.passed isMixin = (ps.filter fun p => x.role.passes p.1.name).map fun p =>
      (p.1.name, p.2.value) := by
  unfold passed
  generalize x.attributes = as at h
  induction h with
  | nil => rfl
  | @cons a p as ps hp _ ih =>
    obtain ⟨rfl, ht⟩ := hp
    cases hpass : x.role.passes p.1.name with
    | true =>
      simp only [filter_cons, hpass, if_true, filterMap_cons, ht, map_cons, ← ih]
      rfl
    | false =>
      simp only [filter_cons, hpass, Bool.false_eq_true, if_false, ih]

lemma Part.passed_eq_map {isMixin : Bool} {x : Part} {ts : List Value.Translated}
    (hpasses : ∀ name, x.role.passes name = true)
    (h : List.Forall₂ (fun a t => x.translate isMixin a = .ok t) x.attributes ts) :
    x.passed isMixin = ts.map fun t => (t.name, t.value) := by
  unfold passed
  generalize x.attributes = as at h
  induction h with
  | nil => rfl
  | cons ht _ ih =>
    simp only [filter_cons, hpasses, if_true, filterMap_cons, ht, map_cons, ← ih,
      Value.Binder.name_of_translate ht]
    rfl

namespace Compile

open NodeKind

variable {isMixin : Bool} {m : String} {e : Element} {s : Session}

/-- The object of a node is built in its place, and the nodes in it have their place there. -/
def Founds (isMixin : Bool) (p : Placement) (role : Role) (e : Element) (parent : String)
    (T : List Effect) : Prop :=
  ∃ x : Part, parent = e.seat x.object.storage ∧ x.BuiltFor isMixin p.method role e ∧
    T = x.trace isMixin (.method p.method) (some p.parent)

lemma founds {p : Placement} {x : Part} {nss parent T} (names : List (Origin × String))
    (hnss : List.Forall₂ (x.Attends isMixin (.method p.method)) x.attributes nss)
    (hgiven : x.object.given = x.element.givenName?) (hbase : x.base? = none)
    (hm : x.method = p.method) (hparent : parent = x.element.seat x.object.storage)
    (hT : Covers (importing names ++ T)
      ({ x with notes := nss.flatten }.effects isMixin (.method p.method) (some p.parent))) :
    ∃ T', Founds isMixin p x.role x.element parent T' ∧
      Covers (importing names ++ .object x.type x.object (isDeferred x.method) false :: T) T' :=
  ⟨_, ⟨{ x with notes := nss.flatten }, hparent,
    ⟨Part.isFor_of_notes hnss hgiven fun _ => hbase, hm⟩, rfl⟩, Covers.trace { x with notes := nss.flatten } hbase hT⟩

lemma transformNode_writes (hk : ofTag? e.tag = some .transform) (p : Placement) :
    Writes isMixin (.method p.method) p.method (transformNode e p)
      (Founds isMixin p .transform e) := by
  unfold transformNode
  refine .arrange (.bind (addImport_writes _ _) ?_)
  rintro _ _ rfl
  refine declare_writes fun o ho => ?_
  let x : Part := { role := .transform, element := e, object := o, method := p.method }
  refine emit_then (emit_then ?_)
  refine (attributes_writes (x := x) fun a => ?_).bind ?_
  · exact translate_then rfl rfl rfl rfl fun t ht => apply_attended rfl rfl ht rfl
  · rintro _ _ ⟨nss, hnss, rfl⟩
    have hseat := (Element.seat_eq hk (by simp) o.storage).symm
    refine .pure ?_
    rw [append_nil]
    refine founds (x := x) _ hnss ho rfl rfl hseat (.effects ?_ ?_ ?_)
    · simp only [plain_append, plain_importing, plain_emit_cons, plain_notes, nil_append]
      rfl
    · exact subset_append_left ..
    · exact fun _ h => mem_append_right _ (mem_cons_of_mem _ (mem_cons_of_mem _ (mem_append_left _ h)))

lemma shapeAttribute_attended {x : Part} {shape} (hx : x.role = .shape shape) (a : Attribute)
    {t : Value.Translated} (ht : x.translate isMixin a = .ok t) :
    Writes isMixin (.method x.method) x.method (shapeAttribute shape x.object x.method (a, t))
      fun _ T => Attended isMixin (.method x.method) x a [] T := by
  have hrefers : x.refers? (.method x.method) a = materialUse? (.method x.method) x.element a := by
    rw [Part.refers?, hx]
  have hlink : x.isLink a = false := by simp [Part.isLink, hx]
  unfold shapeAttribute
  unfold materialUse? at hrefers
  refine .quiet (isReference_quiet a _) fun b hb => ?_
  rw [← hb] at hrefers
  cases b with
  | true =>
    exact reference_attended
      (u := ⟨.material, Text.trim a.value, .method x.method, none, _⟩) hrefers fun _ => rfl
  | false =>
    have hpasses : x.role.passes a.name = shape.options.contains a.name := by rw [hx, Role.passes]
    simp only [Bool.false_eq_true, if_false]
    split
    · next hoption => exact follow_attended hrefers hlink ht (hpasses.trans hoption)
    · next hoption =>
      exact apply_attended hrefers hlink ht (hpasses.trans (Bool.eq_false_iff.2 hoption))

lemma shapeNode_writes {shape} (hk : ofTag? e.tag = some (.shape shape)) (p : Placement) :
    Writes isMixin (.method p.method) p.method (shapeNode shape e p)
      (Founds isMixin p (.shape shape) e) := by
  unfold shapeNode
  refine .arrange (.bind (addImport_writes _ _) ?_)
  rintro _ _ rfl
  refine declare_writes fun o ho => ?_
  let x : Part := { role := .shape shape, element := e, object := o, method := p.method }
  refine .bind (.mapM (x.constructs isMixin)
    (q := fun a pair => pair.1 = a ∧ x.translate isMixin a = .ok pair.2) fun a _ => ?_) ?_
  · refine (translate_constructs (x := x) rfl rfl).bind ?_
    rintro t T ⟨ht, hT⟩
    exact .pure ⟨⟨rfl, ht⟩, by rw [append_nil, hT]⟩
  rintro pairs T ⟨hpairs, hT⟩
  rw [hT]
  refine emit_then (emit_then (.bind (addMesh_writes o) ?_))
  rintro _ _ rfl
  refine (translated_writes (x := x) hpairs ?_).bind ?_
  · rintro a ⟨_, t⟩ ⟨rfl, ht⟩
    exact shapeAttribute_attended rfl _ ht
  · rintro _ _ ⟨nss, hnss, rfl⟩
    have hseat := (Element.seat_eq hk (by simp) o.storage).symm
    refine .pure ?_
    rw [append_nil]
    refine founds (x := x) _ hnss ho rfl rfl hseat (.effects ?_ ?_ ?_)
    · have hpassed := Part.passed_eq (x := { x with notes := nss.flatten }) hpairs
      simp only [plain_append, plain_importing, plain_emit_cons, plain_notes, plain_mesh,
        nil_append, Part.construction, hpassed]
      rfl
    · exact subset_append_left ..
    · exact fun _ h => mem_append_right _ (mem_append_left _ (needs_subset isMixin (.method p.method) x _ h))

lemma modelNode_writes (hk : ofTag? e.tag = some .model) (p : Placement) :
    Writes isMixin (.method p.method) p.method (modelNode e p) (Founds isMixin p .model e) := by
  unfold modelNode
  refine .arrange (.bind (addImport_writes _ _) ?_)
  rintro _ _ rfl
  refine .quiet (.lift (e.require_answers _)) fun raw hraw => ?_
  refine .look (argument_writes raw true) fun url hurl => declare_writes fun o ho => ?_
  let x : Part := { role := .model, element := e, object := o, method := p.method }
  refine emit_then (emit_then ?_)
  refine (attributes_writes (x := x) fun a => ?_).bind ?_
  · unfold modelAttribute
    refine translate_then rfl rfl rfl rfl fun t ht => ?_
    split
    · next hname => exact follow_attended rfl rfl ht hname
    · next hname => exact apply_attended rfl rfl ht (Bool.eq_false_iff.2 hname)
  · rintro _ _ ⟨nss, hnss, rfl⟩
    have hseat := (Element.seat_eq hk (by simp) o.storage).symm
    refine .pure ?_
    rw [append_nil]
    refine founds (x := x) _ hnss ho rfl rfl hseat (.effects ?_ ?_ ?_)
    · simp [Part.construction, Part.placing, Part.argument, Part.type, Role.typeOf, Role.isMesh,
        Part.target, Except.toOption, x, hraw, hurl]
    · exact subset_append_left ..
    · exact fun _ h => mem_append_right _ (mem_cons_of_mem _ (mem_cons_of_mem _ (mem_append_left _ h)))

lemma customNode_writes (hk : ofTag? e.tag = some .custom) (p : Placement) :
    Writes isMixin (.method p.method) p.method (customNode e p) (Founds isMixin p .custom e) := by
  unfold customNode
  refine .arrange (.quiet (.lift (e.require_answers _)) fun type htype => ?_)
  have hown : e.ownType = Text.trim type := by rw [Element.ownType, htype, Option.getD_some]
  rw [← hown]
  refine .quiet (.lift (e.require_answers _)) fun raw hraw => ?_
  refine .look (argument_writes raw false) fun factory hfactory => declare_writes fun o ho => ?_
  let x : Part := { role := .custom, element := e, object := o, method := p.method }
  refine .bind (.mapM (x.constructs isMixin) (q := fun a t => x.translate isMixin a = .ok t)
    fun a _ => translate_constructs (x := x) rfl rfl) ?_
  rintro options T ⟨hoptions, hT⟩
  rw [hT]
  refine emit_then (.bind (addMesh_writes o) ?_)
  rintro _ _ rfl
  refine (translated_writes (x := x) hoptions fun a t ht => ?_).bind ?_
  · exact follow_attended rfl rfl ht rfl
  · rintro _ _ ⟨nss, hnss, rfl⟩
    have hpassed := Part.passed_eq_map (x := { x with notes := nss.flatten }) (fun _ => rfl) hoptions
    split
    all_goals
      next hattach =>
      refine .pure ?_
      rw [append_nil]
      refine founds (x := x) [] hnss ho rfl rfl ?_ (.effects ?_ (nil_subset _) ?_)
      · rw [Element.seat, hk, hattach]
      · simp only [plain_append, plain_importing, plain_emit_cons, plain_notes, plain_mesh,
          nil_append, Part.construction, hpassed, Part.argument, hraw, hfactory, x]
        rfl
      · exact fun _ h =>
          mem_append_right _ (mem_append_left _ (needs_subset isMixin (.method p.method) x _ h))

lemma putOff_yields {name} (condition : String) (hs : Ready isMixin (.method m) m s)
    (hg : s.core.generated.hasMethod (groupMethod name) = true) :
    Yields (modify fun s =>
        { s with triggers := s.triggers ++ [(m, .trigger condition (groupMethod name))] })
      s fun _ T => T = [.trigger m condition name] := by
  refine .modify (e := .trigger m condition name) ?_ (.step rfl rfl) rfl
  cases hs.leads with
  | method hm => exact .trigger hm hg

lemma groupTrigger_yields {name raw} (hraw : e.attr? "initWhen" = some raw)
    (hs : Ready isMixin (.method m) m s) (hg : s.core.generated.hasMethod (groupMethod name) = true) :
    Yields (groupTrigger name m raw) s fun _ T => ∃ path? check?,
      e.Waits isMixin path? check? ∧
      T = path?.toList.map (fun path => .emit (.method m)
          (.bindGroup Builtin.engine path (groupMethod name))) ++
        check?.toList.map (.trigger m · name) := by
  unfold groupTrigger
  rw [← hs.isMixin]
  refine .ask rfl (.of_ends (Value.bound?_ends _ raw)) fun e? he => ?_
  cases e? with
  | none =>
    refine (putOff_yields _ hs hg).mono fun _ T hT => ?_
    exact ⟨none, _, .literal hraw he, hT⟩
  | some x =>
    have hwaits : e.Waits s.isMixin x.path (some x.code) := .bound hraw he
    dsimp only
    cases hpath : x.path with
    | some path =>
      refine .bind (emit_writes _ s hs) fun _ s2 T tr hT => ?_
      refine (putOff_yields _ (hs.trace tr) (tr.hasMethod hg)).mono fun _ T' hT' => ?_
      rw [hT, hT']
      exact ⟨x.path, _, hwaits, by rw [hpath]; rfl⟩
    | none =>
      refine .quiet (log_quiet _ _) fun _ s2 hc _ => ?_
      refine (putOff_yields _ (hs.of_core hc) (hc ▸ hg)).mono fun _ T hT => ?_
      exact ⟨x.path, _, hwaits, by rw [hpath]; exact hT⟩

lemma modifyClass_modifyClass {β : Type} (f g : ClassDef → ClassDef) (k : PUnit → Compile β) :
    (modifyClass f >>= fun _ => modifyClass g >>= k) = modifyClass (fun c => g (f c)) >>= k :=
  rfl

lemma openGroup_yields (e : Element) (p : Placement) (hs : Ready isMixin (.method p.method) p.method s) :
    Yields (openGroup e p) s fun name T => name = e.ownName ∧ ∃ path? check?,
      e.Waits isMixin path? check? ∧
      T = .group name :: (path?.toList.map (fun path => .emit (.method p.method)
          (.bindGroup Builtin.engine path (groupMethod name))) ++
        check?.toList.map (.trigger p.method · name)) := by
  unfold openGroup
  refine .lift (e.require_answers _).replies fun raw hraw => .get ?_
  have hname : e.ownName = Text.trim raw := (sharedName hraw).1
  rw [hname]
  dsimp only
  split
  · exact .throw_bind rfl
  next hg =>
  rw [modifyClass_modifyClass]
  have st : Step s.core (.group (Text.trim raw)) _ := .group (Bool.eq_false_iff.2 hg)
  refine .modify_bind st rfl (.step rfl rfl) fun s1 hc => ?_
  have tr : Trace s.core [.group (Text.trim raw)] s1.core := hc ▸ st.trace
  cases hwhen : e.attr? "initWhen" with
  | none => exact .pure ⟨rfl, none, none, .never hwhen, rfl⟩
  | some raw' =>
    refine .bind (groupTrigger_yields hwhen (hs.trace tr) ?_) ?_
    · exact (tr.hosts_group mem_cons_self).1
    · rintro _ s2 T _ ⟨path?, check?, hwaits, rfl⟩
      exact .pure ⟨rfl, path?, check?, hwaits, by rw [append_nil]⟩

lemma closeGroup_yields (e : Element) {name} (hmixin : s.isMixin = isMixin)
    (hg : s.core.generated.hasMethod (groupMethod name) = true) :
    Yields (closeGroup e name) s fun _ T => e.Calls isMixin (e.initCall? isMixin) ∧
      T = (e.initCall? isMixin).toList.map (.callback name) := by
  unfold closeGroup Element.initCall?
  cases hinit : e.attr? "onInit" with
  | none => exact .pure ⟨.never hinit, rfl⟩
  | some raw =>
    refine .ask rfl (.of_ends (s.binder.argument_ends raw false)) fun code hcode => ?_
    have hread : (viewBinder isMixin).argument raw false = .ok code := hmixin ▸ hcode
    rw [Option.bind_some, hread]
    exact .modify (.callback hg) (.step rfl rfl) ⟨.once hinit hread, rfl⟩

lemma materialOfNode_writes (e : Element) (p : Placement) :
    Writes isMixin (.method p.method) p.method (materialOfNode e p) fun _ T =>
      ∃ (child : Element) (x : Part) (slots : List (String × Part)) (kind : MaterialKind),
        e.children = [child] ∧ MaterialKind.ofTag? child.tag = some kind ∧
        x.BuiltFor isMixin p.method (.material kind) child ∧
        x.FillsAll isMixin (.method p.method) child.children slots ∧
        T = x.trace isMixin (.method p.method) (some p.parent) ++
          slots.flatMap (x.slotTrace isMixin (.method p.method)) := by
  unfold materialOfNode
  cases p.enclosing? with
  | none => exact .throw rfl
  | some node =>
    dsimp only
    split
    · exact fun _ _ => .throw_bind rfl
    · refine .quiet (.lift e.onlyChild_answers) fun child hchild => ?_
      refine (nodeMaterial_writes child p.parent).mono ?_
      rintro _ _ ⟨x, slots, kind, hkind, hm, hx, hslots, rfl⟩
      exact ⟨child, x, slots, kind, hchild, hkind, ⟨hx, hm⟩, hslots, rfl⟩

lemma nodeKind_answers (e : Element) :
    Answers (nodeKind e) fun kind => ofTag? e.tag = some kind := by
  unfold nodeKind
  split
  · next h => exact .ok h
  · exact .error rfl

lemma nodesIn_eq_children {kind} (hk : ofTag? e.tag = some kind) (hmaterial : kind ≠ .material) :
    e.nodesIn = e.children := by
  rw [Element.nodesIn, hk, if_neg (by simpa using hmaterial)]

lemma Yields.grow {x : Compile String} {p : Placement} {above : List Entry} {kind r}
    (hk : ofTag? e.tag = some kind) (hr : kind.role? = some r)
    (hmethod : p.method = methodBelow above) (hparent : p.parent = parentBelow above)
    (hs : Ready isMixin (.method p.method) p.method s)
    (hx : Writes isMixin (.method p.method) p.method x (Founds isMixin p r e))
    (hinside : ∀ {parent above s'}, p.method = methodBelow above → parent = parentBelow above →
      Ready isMixin (.method p.method) p.method s' →
      Yields (nodes (p.below e parent) e.children) s' fun _ T =>
        Grown (nodeGrowth isMixin) above e.children T) :
    Yields (do let parent ← x; nodes (p.below e parent) e.children) s fun _ T =>
      Grown (nodeGrowth isMixin) above [e] T := by
  refine .bind (hx s hs) ?_
  rintro _ s' _ tr ⟨x, rfl, hx, rfl⟩
  rw [hmethod] at hx
  have hentry : NodeEntry isMixin above ⟨e, .object x []⟩ := .object hk hr hx
  have hmaterial : kind ≠ .material := by
    rintro rfl
    cases hr
  refine (hinside (hmethod.trans (methodBelow_node rfl above).symm)
    (parentBelow_node (x := ⟨e, .object x []⟩) rfl above).symm (hs.trace tr)).mono fun _ T hT => ?_
  rw [← nodesIn_eq_children hk hmaterial] at hT
  have hgrown := Grown.single (G := nodeGrowth isMixin) hentry hT
  rw [Entry.opening_object, Entry.closing_object, append_nil] at hgrown
  rw [hmethod, hparent]
  exact hgrown

mutual

lemma node_yields : (e : Element) → {p : Placement} → {above : List Entry} → {s : Session} →
    p.method = methodBelow above → p.parent = parentBelow above →
    Ready isMixin (.method p.method) p.method s →
    Yields (node p e) s fun _ T => Grown (nodeGrowth isMixin) above [e] T
  | ⟨_, _, children, _, _⟩, p, above, s, hmethod, hparent, hs => by
    unfold node
    refine .located (.lift (nodeKind_answers _).replies fun kind hk => ?_)
    refine .quiet (log_quiet _ _) fun _ s1 hc _ => ?_
    have hs1 := hs.of_core hc
    cases kind with
    | transform =>
      exact .grow hk rfl hmethod hparent hs1 (transformNode_writes hk p)
        fun hm hp hs' => nodes_yields children hm hp hs'
    | shape shape =>
      exact .grow hk rfl hmethod hparent hs1 (shapeNode_writes hk p)
        fun hm hp hs' => nodes_yields children hm hp hs'
    | model =>
      exact .grow hk rfl hmethod hparent hs1 (modelNode_writes hk p)
        fun hm hp hs' => nodes_yields children hm hp hs'
    | custom =>
      exact .grow hk rfl hmethod hparent hs1 (customNode_writes hk p)
        fun hm hp hs' => nodes_yields children hm hp hs'
    | deferredGroup =>
      refine .bind (openGroup_yields _ p hs1) ?_
      rintro _ s2 _ tr1 ⟨rfl, path?, check?, hwaits, rfl⟩
      have hg := tr1.hosts_group mem_cons_self
      -- The nodes of the group are written to its own method.
      have hs2 : Ready isMixin (.method (groupMethod _)) (groupMethod _) s2 :=
        ⟨tr1.sound hs1.sound, .method hg, tr1.isMixin.trans hs1.isMixin⟩
      generalize he : Element.mk _ _ children _ _ = e at *
      let x : Entry := ⟨e, .group path? check? (e.initCall? isMixin)⟩
      have hinside := nodes_yields children (p := { p with method := groupMethod e.ownName })
        (methodBelow_group (x := x) rfl above).symm
        (hparent.trans (parentBelow_group (x := x) rfl above).symm) hs2
      refine .bind hinside fun _ s3 T tr2 hT => ?_
      have hmixin : s3.isMixin = isMixin := tr2.isMixin.trans hs2.isMixin
      refine (closeGroup_yields e hmixin (tr2.hasMethod hg.1)).mono ?_
      rintro _ _ ⟨hcalls, rfl⟩
      have hchildren : e.nodesIn = children := by
        rw [nodesIn_eq_children hk (by simp), ← he]
      have hgrown := Grown.single (G := nodeGrowth isMixin) (x := x) (.group hk hwaits hcalls)
        (hchildren ▸ hT)
      rw [hmethod]
      exact hgrown
    | material =>
      refine (materialOfNode_writes _ p s1 hs1).mono ?_
      rintro _ _ ⟨child, x, slots, kind, hchild, hkind, hx, hslots, rfl⟩
      rw [hmethod] at hx hslots ⊢
      have hentry : NodeEntry isMixin above ⟨_, .object x slots⟩ :=
        .material hk hchild hkind hx hslots
      have hnodes : Element.nodesIn _ = [] := if_pos hk
      have hgrown := Grown.single (G := nodeGrowth isMixin) hentry (hnodes ▸ Grown.nil)
      rw [Entry.closing_object, append_nil, append_nil] at hgrown
      rw [hparent]
      exact hgrown

lemma nodes_yields : (nodes : List Element) → {p : Placement} → {above : List Entry} →
    {s : Session} → p.method = methodBelow above → p.parent = parentBelow above →
    Ready isMixin (.method p.method) p.method s →
    Yields (Compile.nodes p nodes) s fun _ T => Grown (nodeGrowth isMixin) above nodes T
  | [], _, _, _, _, _, _ => .pure .nil
  | e :: rest, p, above, s, hmethod, hparent, hs => by
    refine .bind (node_yields e hmethod hparent hs) fun _ s' T tr hT => ?_
    exact (nodes_yields rest hmethod hparent (hs.trace tr)).mono fun _ T' hT' => hT.append hT'

end

lemma controlAttribute_attended {x : Part} (hx : x.role = .control) (a : Attribute) :
    Writes isMixin (.method x.method) x.method (controlAttribute x.object x.method a)
      fun _ T => Attended isMixin (.method x.method) x a (x.needs isMixin (.method x.method) a) T := by
  have hrefers : x.refers? (.method x.method) a = none := by rw [Part.refers?, hx]
  unfold controlAttribute
  refine .quiet (isReference_quiet a _) fun b hb => ?_
  have hlink : x.isLink a = b := by rw [Part.isLink, hx, hb]; rfl
  cases b with
  | false =>
    refine translate_then hrefers hlink rfl (by rw [Part.options, hx]) fun t ht =>
      apply_attended hrefers hlink ht ?_
    rw [hx]
    rfl
  | true =>
    have hneeds : x.needs isMixin (.method x.method) a = [] := by
      simp [Part.needs, hlink]
    intro s hs
    refine mesh_yields hs.sound fun base hname _ => (emit_writes _ s hs).mono fun _ T hT => ?_
    exact ⟨_, .link hlink hname, by rw [hT, hneeds]; rfl⟩

lemma openControl_writes (e : Element) (parent : String) :
    Writes isMixin (.method m) m (openControl e parent m) fun member T => ∃ x : Part,
      member = x.object.storage ∧ x.BuiltFor isMixin m .control e ∧
        T = x.trace isMixin (.method m) (some parent) := by
  unfold openControl
  refine .arrange (.bind (addImport_writes _ _) ?_)
  rintro _ _ rfl
  refine declare_writes fun o ho => ?_
  let x : Part := { role := .control, element := e, object := o, method := m }
  refine emit_then (emit_then ?_)
  refine (attributes_writes (x := x) fun a => controlAttribute_attended rfl a).bind ?_
  rintro _ _ ⟨nss, hnss, rfl⟩
  refine .pure ?_
  rw [append_nil]
  refine ⟨_, ⟨{ x with notes := nss.flatten }, rfl, ⟨Part.isFor_of_notes hnss ho fun _ => rfl, rfl⟩,
    rfl⟩, Covers.trace { x with notes := nss.flatten } rfl (.effects ?_ ?_ ?_)⟩
  · simp only [plain_append, plain_importing, plain_emit_cons, plain_notes, nil_append]
    rfl
  · exact subset_append_left ..
  · exact fun _ h => mem_append_right _ (mem_cons_of_mem _ (mem_cons_of_mem _ (mem_append_left _ h)))

mutual

lemma control_writes : (e : Element) → (outer : List Entry) → {x : Entry} → {parent : String} →
    parent = x.member →
    Writes isMixin (.method m) m (control parent m e) fun _ T =>
      Grown (guiGrowth isMixin m) (x :: outer) [e] T
  | ⟨tag, attributes, children, text, line⟩, outer, x, _, rfl => by
    unfold control
    refine .located (.bind (openControl_writes _ _) ?_)
    rintro _ _ ⟨y, rfl, hy, rfl⟩
    let z : Entry := ⟨⟨tag, attributes, children, text, line⟩, .object y []⟩
    have hentry : GuiEntry isMixin m (x :: outer) z := .control hy
    have hinside : Writes isMixin (.method m) m (controls y.object.storage m children) fun _ T =>
        Grown (guiGrowth isMixin m) (z :: x :: outer) children T :=
      controls_writes children (x :: outer) rfl
    refine hinside.mono fun _ T hT => ?_
    have hgrown := Grown.single (G := guiGrowth isMixin m) hentry hT
    rwa [Entry.opening_object, Entry.closing_object, append_nil] at hgrown

lemma controls_writes : (controls : List Element) → (outer : List Entry) → {x : Entry} →
    {parent : String} → parent = x.member →
    Writes isMixin (.method m) m (Compile.controls parent m controls) fun _ T =>
      Grown (guiGrowth isMixin m) (x :: outer) controls T
  | [], _, _, _, _ => .pure .nil
  | e :: rest, outer, _, _, hparent => by
    refine .bind (control_writes e outer hparent) fun _ T hT => ?_
    exact (controls_writes rest outer hparent).mono fun _ T' hT' => hT.append hT'

end

/-- The trace is that of a user interface in a method. -/
def DrawnIn (isMixin : Bool) (method : String) (e : Element) (T : List Effect) : Prop :=
  ∃ b : Branch, b.element = e ∧ (∀ y ∈ b.stations [], y.Fits (guiGrowth isMixin method)) ∧
    T = b.trace (guiGrowth isMixin method) []

lemma guiRoot_writes {x : Part} (hx : GuiEntry isMixin m [] ⟨e, .object x []⟩) :
    Writes isMixin (.method m) m (controls x.object.storage m e.children) fun _ T =>
      DrawnIn isMixin m e (x.trace isMixin (.method m) none ++ T) := by
  have hinside : Writes isMixin (.method m) m (controls x.object.storage m e.children) fun _ T =>
      Grown (guiGrowth isMixin m) [⟨e, .object x []⟩] e.children T :=
    controls_writes e.children [] rfl
  refine hinside.mono fun _ T hT => ?_
  obtain ⟨b, helement, hfits, htrace⟩ := Grown.exists_branch (G := guiGrowth isMixin m) hx hT
  rw [Entry.opening_object, Entry.closing_object, append_nil] at htrace
  exact ⟨b, helement, hfits, htrace⟩

lemma guiSize_writes (e : Element) (name : String) :
    Writes isMixin (.method m) m (guiSize e name) fun size T =>
      (∀ x : Part, x.element = e → x.argument isMixin name false = size) ∧ T = [] := by
  unfold guiSize
  cases hattr : e.attr? name with
  | some raw =>
    refine (argument_writes raw false).mono ?_
    rintro size _ ⟨hsize, rfl⟩
    refine ⟨fun x hx => ?_, rfl⟩
    rw [Part.argument, hx, hattr]
    dsimp only
    rw [hsize]
    rfl
  | none =>
    refine .pure ⟨fun x hx => ?_, rfl⟩
    rw [Part.argument, hx, hattr]

lemma fullScreenGui_writes (hroot : GuiRoot.ofTag? e.tag = some .fullScreen) :
    Writes isMixin (.method Builtin.init) Builtin.init (fullScreenGui e) fun _ T =>
      DrawnIn isMixin Builtin.init e T := by
  unfold fullScreenGui
  refine declare_writes fun o ho => .quiet (log_quiet _ _) fun _ _ => emit_then ?_
  let x : Part := { role := .fullScreen, element := e, object := o, method := Builtin.init }
  refine (attributes_writes (x := x) fun a => ?_).bind ?_
  · exact translate_then rfl rfl rfl rfl fun t ht => apply_attended rfl rfl ht rfl
  · rintro _ _ ⟨nss, hnss, rfl⟩
    exact guiRoot_writes (x := { x with notes := nss.flatten })
      (.fullScreen hroot rfl ⟨Part.isFor_of_notes hnss ho fun _ => rfl, rfl⟩)

lemma meshGui_writes {base : Mesh} {raw} (hroot : GuiRoot.ofTag? e.tag = some .onMesh)
    (hraw : e.attr? "mesh" = some raw) (hbase : base.name = Text.trim raw) :
    Writes isMixin (.method base.method) base.method (do
        let width ← guiSize e "width"
        let height ← guiSize e "height"
        let object ← declare guiType (e.attr? "name") base.method
        log .debug ("mesh gui '" ++ object.name ++ "' on '" ++ Text.trim raw ++ "' in " ++ base.method)
        emit base.method (.construct object.storage (.onMesh guiType base.target width height))
        (e.attributesExcept ["name", "mesh", "width", "height"]).forM fun a => do
          apply base.method (← translate a object.storage
            { skipPrimitives := true
              path? := if a.name == "alpha" then some (base.target.part "material") else none
              deferred := isDeferred base.method })
        controls object.storage base.method e.children)
      fun _ T => DrawnIn isMixin base.method e (.find base :: T) := by
  refine .look (guiSize_writes e _) fun width hwidth => ?_
  refine .look (guiSize_writes e _) fun height hheight => ?_
  refine declare_writes fun o ho => .quiet (log_quiet _ _) fun _ _ => emit_then ?_
  let x : Part :=
    { role := .onMesh, element := e, object := o, method := base.method, base? := some base }
  refine (attributes_writes (x := x) fun a => ?_).bind ?_
  · exact translate_then rfl rfl rfl rfl fun t ht => apply_attended rfl rfl ht rfl
  · rintro _ _ ⟨nss, hnss, rfl⟩
    have hx : Part.BuiltFor isMixin base.method .onMesh e { x with notes := nss.flatten } :=
      ⟨Part.isFor_of_notes hnss ho fun h => absurd rfl h, rfl⟩
    refine (guiRoot_writes (.onMesh hroot hraw hbase rfl rfl hx)).mono fun _ T hT => ?_
    rw [Part.trace, Part.effects, Part.construction] at hT
    dsimp only at hT
    rw [hwidth _ rfl, hheight _ rfl] at hT
    exact hT

lemma gui_yields (hs : Sound s.core) (e : Element) :
    Yields (gui e) s fun _ T => ∃ method, IsHost method ∧ DrawnIn s.isMixin method e T := by
  unfold gui
  refine .located ?_
  cases hroot : GuiRoot.ofTag? e.tag with
  | none => exact .throw rfl
  | some root =>
    cases root with
    | fullScreen =>
      exact (fullScreenGui_writes hroot s ⟨hs, .method hs.hosts_init, rfl⟩).mono
        fun _ T hT => ⟨_, hs.hosts_init.2, hT⟩
    | onMesh =>
      dsimp only
      unfold meshGui
      refine .quiet (.lift (e.require_answers _)) fun raw s1 hc hraw => ?_
      refine mesh_yields (hc ▸ hs) fun base hname hbase => ?_
      have hmixin : s1.isMixin = s.isMixin := congrArg Core.isMixin hc
      exact (meshGui_writes hroot hraw hname s1 ⟨hc ▸ hs, .method hbase, hmixin⟩).mono
        fun _ T hT => ⟨_, hbase.2, hT⟩

end Compile

end SceneView
