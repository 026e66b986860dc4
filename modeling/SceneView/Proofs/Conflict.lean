import SceneView.Proofs.Claiming
import SceneView.Proofs.Compilation
import SceneView.Proofs.Holder

/-!
# Conflicts

The names that each element takes are the names that the first look finds in it. So a compilation
stops at a conflict about names only if two elements have the same name, and at a conflict about
slots only if a slot is filled in two ways.
-/

open List

namespace SceneView

def Conflict.isSlot : Conflict → Bool
  | nodeMaterial _ | textureSlot _ _ => true
  | object _ | property _ | sharedObject _ _ | deferredGroup _ | outputFile _ _ _
  | described _ => false

def Fault.isSlot : Fault → Bool
  | conflict cause _ => cause.isSlot
  | _ => false

@[simp]
lemma Fault.isSlot_atLine (line : Nat) (f : Fault) : (f.atLine line).isSlot = f.isSlot := by
  unfold atLine
  split <;> rfl

lemma Fault.isNaming_of_isSlot {f : Fault} (h : f.isSlot = true) : f.isNaming = false := by
  cases f with
  | conflict cause line =>
    cases cause with
    | nodeMaterial | textureSlot => rfl
    | _ => cases h
  | _ => cases h

/-- The conflicts about slots are in `F` if one of the objects gives reason for them. -/
def Allows (F : Fault → Prop) (holders : List Holder) : Prop :=
  (∃ h ∈ holders, h.IsMixed) → ∀ f : Fault, f.isSlot = true → F f

lemma Allows.of_subset {F hs hs'} (h : Allows F hs') (hsub : hs ⊆ hs') : Allows F hs := by
  rintro ⟨x, hx, hmixed⟩
  exact h ⟨x, hsub hx, hmixed⟩

namespace Compile

open Core (Open)

variable {F : Fault → Prop} [Admits F] {m : String}

def trimmedNames (e : Element) : List String :=
  (namesIn e).map Text.trim

def trimmedName (e : Element) : List String :=
  ((e.attr? "name").map Text.trim).toList

lemma trimmedNames_eq (e : Element) :
    trimmedNames e = trimmedName e ++ e.children.flatMap trimmedNames := by
  rw [trimmedNames, namesIn_eq, map_append, map_flatMap, trimmedName, Option.toList_map]
  rfl

lemma map_namesInAll (es : List Element) :
    (namesInAll es).map Text.trim = es.flatMap trimmedNames := by
  rw [namesInAll_eq, map_flatMap]
  rfl

lemma trimmedName_sublist (e : Element) : (trimmedName e).Sublist (trimmedNames e) := by
  rw [trimmedNames_eq]
  exact sublist_append_left _ _

lemma children_sublist (e : Element) :
    (e.children.flatMap trimmedNames).Sublist (trimmedNames e) := by
  rw [trimmedNames_eq]
  exact sublist_append_right _ _

variable {e : Element} {d : Document}

lemma trimmedName_of_attr {raw} (h : e.attr? "name" = some raw) :
    trimmedName e = [Text.trim raw] := by
  rw [trimmedName, h]
  rfl

omit [Admits F] in
lemma declare_takes_own {β : Type} {type method} {f : ObjectName → Compile β}
    (hf : ∀ o, Takes Open F [] (f o)) :
    Takes Open F (trimmedName e) (declare type (e.attr? "name") method >>= f) :=
  append_nil (trimmedName e) ▸ declare_takes hf

lemma buildTexture_takes (e : Element) (kind : TextureKind) (o : ObjectName) :
    Takes Open F [] (buildTexture e kind o m) := by
  unfold buildTexture
  refine .quiet (addImport_quiet _ _) fun _ _ => .quiet (.lift (e.require_answers _)) fun _ _ => ?_
  refine .quiet (argument_quiet _ _) fun _ _ => .emit fun _ => ?_
  refine .emit fun _ => .forM_nil fun a _ => ?_
  unfold textureAttribute
  dsimp only
  split
  · exact .quiet (translate_quiet _ _ _) fun t _ => follow_takes m t
  · exact translate_apply_takes

lemma sharedTexture_takes (e : Element) : Takes Open F (trimmedNames e) (sharedTexture e) := by
  refine Takes.mono ?_ (trimmedName_sublist e)
  unfold sharedTexture
  refine .located (.quiet (.lift (textureKind_answers e _)) fun kind _ => ?_)
  refine .quiet (.lift (e.require_answers _)) fun raw hraw => ?_
  rw [trimmedName_of_attr hraw]
  exact buildShared_takes (Text.trim_trim raw) fun o m => buildTexture_takes e kind o

lemma slotTexture_takes (e : Element) (material slot : String) :
    Takes Open F (trimmedNames e) (slotTexture e material slot m) := by
  refine Takes.mono ?_ (trimmedName_sublist e)
  unfold slotTexture
  refine .located (.quiet (.lift (textureKind_answers e _)) fun kind _ => ?_)
  refine declare_takes_own fun o => ?_
  exact .andThen (buildTexture_takes e kind o) fun _ => emit_takes _ _

lemma materialAttribute_takes (kind : MaterialKind) (o : ObjectName) (a : Attribute) :
    Takes Open F [] (materialAttribute kind o m a) := by
  unfold materialAttribute
  dsimp only
  split
  · refine .quiet (bound?_quiet a.value) fun e? _ => ?_
    cases e? with
    | some _ => exact translate_apply_takes
    | none => exact .andThen (sharedReference_takes _ _) fun _ => emit_takes _ _
  · exact translate_apply_takes

lemma materialSlot_takes {kind} (hk : MaterialKind.ofTag? e.tag = some kind)
    (hF : Allows F (Holder.ofMaterial? e).toList) (o : ObjectName) {child}
    (hchild : child ∈ e.children) :
    Takes Open F (trimmedNames child) (materialSlot e kind o m child) := by
  unfold materialSlot
  dsimp only
  split
  · next hslot =>
    split
    · next hattr =>
      refine .throw_bind (hF ⟨_, by rw [Holder.ofMaterial?, hk]; exact mem_singleton_self _,
        slotOfTag child.tag, ?_, ?_⟩ _ rfl)
      · exact mem_filter.2 ⟨Element.hasAttr_iff.1 hattr, hslot⟩
      · exact mem_filter.2 ⟨mem_map_of_mem hchild, hslot⟩
    · refine .quiet (.lift child.onlyChild_answers) fun texture h => ?_
      refine (slotTexture_takes texture o.storage _).mono ?_
      refine List.Sublist.trans ?_ (children_sublist child)
      rw [h, flatMap_singleton]
  · exact .throw (Admits.other _ rfl)

lemma buildMaterial_takes {kind} (hk : MaterialKind.ofTag? e.tag = some kind)
    (hF : Allows F (Holder.ofMaterial? e).toList) (node? : Option String) (o : ObjectName) :
    Takes Open F (e.children.flatMap trimmedNames) (buildMaterial e kind node? o m) := by
  unfold buildMaterial
  refine .quiet (addImport_quiet _ _) fun _ _ => .emit fun _ => ?_
  have hrest : Takes Open F (e.children.flatMap trimmedNames) (do
      (e.attributesExcept ["name"]).forM (materialAttribute kind o m)
      e.children.forM (materialSlot e kind o m)) := by
    refine .andThen (.forM_nil fun a _ => materialAttribute_takes kind o a) fun _ => ?_
    exact .forM fun child hchild => materialSlot_takes hk hF o hchild
  cases node? with
  | none => exact hrest
  | some node => exact .emit fun _ => hrest

lemma sharedMaterial_takes (hF : Allows F (Holder.ofMaterial? e).toList) :
    Takes Open F (trimmedNames e) (sharedMaterial e) := by
  unfold sharedMaterial
  refine .located (.quiet (.lift (materialKind_answers e _)) fun kind hk => ?_)
  refine .quiet (.lift (e.require_answers _)) fun raw hraw => ?_
  rw [trimmedNames_eq, trimmedName_of_attr hraw]
  exact buildShared_takes (Text.trim_trim raw) fun o m => buildMaterial_takes hk hF none o

lemma nodeMaterial_takes (hF : Allows F (Holder.ofMaterial? e).toList) (node : String) :
    Takes Open F (trimmedNames e) (nodeMaterial e node m) := by
  unfold nodeMaterial
  refine .located (.quiet (.lift (materialKind_answers e _)) fun kind hk => ?_)
  rw [trimmedNames_eq]
  exact declare_takes fun o => buildMaterial_takes hk hF (some node) o

lemma transformNode_takes (e : Element) (p : Placement) :
    Takes Open F (trimmedName e) (transformNode e p) := by
  unfold transformNode
  refine .quiet (addImport_quiet _ _) fun _ _ => declare_takes_own fun o => ?_
  refine .emit fun _ => .emit fun _ => ?_
  refine .andThen (.forM_nil fun a _ => ?_) fun _ => .pure
  exact translate_apply_takes

lemma shapeAttribute_takes (shape : Shape) (o : ObjectName) (pair : Attribute × Value.Translated) :
    Takes Open F [] (shapeAttribute shape o m pair) := by
  obtain ⟨a, t⟩ := pair
  unfold shapeAttribute
  refine .quiet (isReference_quiet a _) fun b _ => ?_
  split
  · exact .andThen (sharedReference_takes _ _) fun _ => emit_takes _ _
  · split
    · exact follow_takes m t
    · exact apply_takes m t

lemma shapeNode_takes (shape : Shape) (e : Element) (p : Placement) :
    Takes Open F (trimmedName e) (shapeNode shape e p) := by
  unfold shapeNode
  refine .quiet (addImport_quiet _ _) fun _ _ => declare_takes_own fun o => ?_
  refine .quiet (.mapM (q := fun _ _ => True) fun a _ => ?_) fun pairs _ => ?_
  · exact (translate_quiet _ _ _).bind fun t _ => .pure trivial
  refine .emit fun _ => .emit fun _ => ?_
  refine .andThen (addMesh_takes _ _) fun _ => ?_
  exact .andThen (.forM_nil fun pair _ => shapeAttribute_takes shape o pair) fun _ => .pure

lemma modelNode_takes (e : Element) (p : Placement) :
    Takes Open F (trimmedName e) (modelNode e p) := by
  unfold modelNode
  refine .quiet (addImport_quiet _ _) fun _ _ => .quiet (.lift (e.require_answers _)) fun _ _ => ?_
  refine .quiet (argument_quiet _ _) fun _ _ => declare_takes_own fun o => ?_
  refine .emit fun _ => .emit fun _ => ?_
  refine .andThen (.forM_nil fun a _ => ?_) fun _ => .pure
  unfold modelAttribute
  refine .quiet (translate_quiet _ _ _) fun t _ => ?_
  split
  · exact follow_takes _ t
  · exact apply_takes _ t

lemma customNode_takes (e : Element) (p : Placement) :
    Takes Open F (trimmedName e) (customNode e p) := by
  unfold customNode
  refine .quiet (.lift (e.require_answers _)) fun _ _ => ?_
  refine .quiet (.lift (e.require_answers _)) fun _ _ => ?_
  refine .quiet (argument_quiet _ _) fun _ _ => declare_takes_own fun o => ?_
  refine .quiet (.mapM (q := fun _ _ => True) fun a _ => translate_quiet _ _ _) fun options _ => ?_
  refine .emit fun _ => .andThen (addMesh_takes _ _) fun _ => ?_
  refine .andThen (.forM_nil fun t _ => follow_takes _ t) fun _ => ?_
  split <;> exact .pure

lemma groupTrigger_takes (name raw : String) : Takes Open F [] (groupTrigger name m raw) := by
  unfold groupTrigger
  have hwait : ∀ condition : String, Takes Open F [] (modify fun s : Session =>
      { s with triggers := s.triggers ++ [(m, .trigger condition (groupMethod name))] }) :=
    fun _ => modify_takes fun s n h => h.of_waiting rfl rfl rfl
  refine .quiet (bound?_quiet raw) fun e? _ => ?_
  cases e? with
  | none => exact hwait _
  | some e =>
    dsimp only
    cases e.path with
    | some path => exact .emit fun _ => hwait _
    | none => exact .quiet (log_quiet _ _) fun _ _ => hwait _

lemma openGroup_takes (e : Element) (p : Placement) :
    Takes Open F (trimmedName e) (openGroup e p) := by
  unfold openGroup
  refine .quiet (.lift (e.require_answers _)) fun raw hraw => ?_
  rw [trimmedName_of_attr hraw]
  intro L s
  rw [run_bind, run_get]
  dsimp only
  split
  · next htaken =>
    refine .error (.inr ⟨rfl, fun hfresh => ?_⟩)
    have hfree := (hfresh.isOpen _ mem_cons_self).group
    exact Bool.false_ne_true (hfree.symm.trans htaken)
  rw [modifyClass_modifyClass, run_bind, modifyClass, run_modify]
  dsimp only
  refine Granted.imp (P := Fresh Open L
    ({ s with generated := s.generated.withGroup (Text.trim raw) } : Session).core) ?_ fun hfresh =>
      hfresh.keep fun n _ hn hopen => hopen.withGroup fun heq => hn (mem_singleton.2 heq)
  refine (?_ : Takes Open F [] _) L
    { s with generated := s.generated.withGroup (Text.trim raw) }
  split
  · exact .andThen (groupTrigger_takes _ _) fun _ => .pure
  · exact .pure

lemma closeGroup_takes (e : Element) (name : String) :
    Takes Open F [] (closeGroup e name) := by
  unfold closeGroup
  split
  · refine .quiet (argument_quiet _ _) fun code _ => ?_
    exact modify_takes fun s n h => h.of_waiting rfl rfl rfl
  · exact .pure

lemma hasAttr_of_ofNode (h : e.hasAttr "material" = true) (hw : wrappersInAll e.children ≠ []) :
    (Holder.ofNode e).IsMixed := by
  obtain ⟨w, hw⟩ := exists_mem_of_ne_nil _ hw
  refine ⟨materialSlotName, ?_, mem_map.2 ⟨w, hw, rfl⟩⟩
  exact mem_filter.2 ⟨Element.hasAttr_iff.1 h, by simp⟩

/-- The material of the enclosing node may be in conflict with elements in the given place. -/
def Placement.Allows (F : Fault → Prop) (p : Placement) (wrappers : List Element) : Prop :=
  wrappers ≠ [] → ∀ node, p.enclosing? = some node → node.hasAttr "material" = true →
    ∀ f : Fault, f.isSlot = true → F f

omit [Admits F] in
lemma Placement.Allows.of_subset {p : Placement} {ws ws'} (h : p.Allows F ws') (hsub : ws ⊆ ws') :
    p.Allows F ws := by
  intro hne
  refine h fun hnil => hne ?_
  rw [hnil] at hsub
  exact subset_nil.1 hsub

omit [Admits F] in
lemma Placement.allows_below (p : Placement) (parent : String)
    (hF : SceneView.Allows F [Holder.ofNode e]) :
    (p.below e parent).Allows F (wrappersInAll e.children) := by
  rintro hne _ ⟨⟩ hattr
  exact hF ⟨_, mem_singleton_self _, hasAttr_of_ofNode hattr hne⟩

lemma materialOfNode_takes {p} (hF : SceneView.Allows F (e.children.filterMap Holder.ofMaterial?))
    (hp : p.Allows F [e]) : Takes Open F (trimmedNames e) (materialOfNode e p) := by
  unfold materialOfNode
  cases hnode : p.enclosing? with
  | none => exact .throw (Admits.other _ rfl)
  | some node =>
    dsimp only
    split
    · next hattr => exact .throw_bind (hp (cons_ne_nil _ _) node hnode hattr _ rfl)
    · refine .quiet (.lift e.onlyChild_answers) fun child h => ?_
      have hsub : (trimmedNames child).Sublist (trimmedNames e) := by
        simpa [h] using children_sublist e
      refine (nodeMaterial_takes (hF.of_subset ?_) _).mono hsub
      rw [h, filterMap_cons]
      cases Holder.ofMaterial? child <;> simp

set_option linter.unusedSectionVars false in
mutual

lemma node_takes (p : Placement) : (e : Element) → SceneView.Allows F (nodeHolders e) →
    p.Allows F (wrappersIn e) → Takes Open F (trimmedNames e) (node p e)
  | ⟨tag, attributes, children, text, line⟩ => by
    intro hF hp
    unfold node
    unfold nodeHolders at hF
    unfold wrappersIn at hp
    refine .located (.quiet (.lift (nodeKind_answers _)) fun kind hk => ?_)
    refine .quiet (log_quiet _ _) fun _ _ => ?_
    dsimp only at hk
    rw [hk] at hF hp
    rw [trimmedNames_eq]
    have below : ∀ parent, SceneView.Allows F
        (Holder.ofNode ⟨tag, attributes, children, text, line⟩ :: nodesHolders children) →
        Takes Open F (children.flatMap trimmedNames)
          (nodes (p.below ⟨tag, attributes, children, text, line⟩ parent) children) := by
      intro parent hF
      refine nodes_takes _ children (hF.of_subset (subset_cons_self _ _)) ?_
      exact p.allows_below parent (hF.of_subset (by simp))
    cases kind with
    | transform => exact (transformNode_takes _ p).bind fun parent => below parent hF
    | shape shape => exact (shapeNode_takes shape _ p).bind fun parent => below parent hF
    | model => exact (modelNode_takes _ p).bind fun parent => below parent hF
    | custom => exact (customNode_takes _ p).bind fun parent => below parent hF
    | deferredGroup =>
      refine (openGroup_takes _ p).bind fun name => ?_
      rw [← append_nil (List.flatMap _ _)]
      refine (nodes_takes { p with method := groupMethod name } children hF hp).bind fun _ => ?_
      exact closeGroup_takes _ name
    | material =>
      rw [← trimmedNames_eq]
      exact materialOfNode_takes hF hp

lemma nodes_takes (p : Placement) : (es : List Element) → SceneView.Allows F (nodesHolders es) →
    p.Allows F (wrappersInAll es) → Takes Open F (es.flatMap trimmedNames) (nodes p es)
  | [] => fun _ _ => .pure
  | e :: es => by
    intro hF hp
    unfold nodesHolders at hF
    unfold wrappersInAll at hp
    refine (node_takes p e (hF.of_subset (subset_append_left _ _))
      (hp.of_subset (subset_append_left _ _))).bind fun _ => ?_
    exact nodes_takes p es (hF.of_subset (subset_append_right _ _))
      (hp.of_subset (subset_append_right _ _))

end

lemma controlAttribute_takes (o : ObjectName) (a : Attribute) :
    Takes Open F [] (controlAttribute o m a) := by
  unfold controlAttribute
  refine .quiet (isReference_quiet a _) fun b _ => ?_
  split
  · exact mesh_takes fun base => emit_takes _ _
  · exact translate_apply_takes

lemma openControl_takes (e : Element) (parent : String) :
    Takes Open F (trimmedName e) (openControl e parent m) := by
  unfold openControl
  refine .quiet (addImport_quiet _ _) fun _ _ => declare_takes_own fun o => ?_
  refine .emit fun _ => .emit fun _ => ?_
  exact .andThen (.forM_nil fun a _ => controlAttribute_takes o a) fun _ => .pure

set_option linter.unusedSectionVars false in
mutual

lemma control_takes (parent : String) : (e : Element) →
    Takes Open F (trimmedNames e) (control parent m e)
  | ⟨tag, attributes, children, text, line⟩ => by
    unfold control
    rw [trimmedNames_eq]
    exact .located ((openControl_takes _ parent).bind fun member => controls_takes member children)

lemma controls_takes (parent : String) : (es : List Element) →
    Takes Open F (es.flatMap trimmedNames) (controls parent m es)
  | [] => .pure
  | e :: es => (control_takes parent e).bind fun _ => controls_takes parent es

end

lemma guiSize_quiet (e : Element) (name : String) : Quiet (guiSize e name) fun _ => True := by
  unfold guiSize
  split
  · exact argument_quiet _ _
  · exact .pure trivial

lemma gui_takes (e : Element) : Takes Open F (trimmedNames e) (gui e) := by
  unfold gui
  refine .located ?_
  rw [trimmedNames_eq]
  split
  · unfold fullScreenGui
    refine declare_takes fun o => .quiet (log_quiet _ _) fun _ _ => ?_
    refine .emit fun _ => ?_
    refine .andThen (.forM_nil fun a _ => ?_) fun _ => controls_takes _ _
    exact translate_apply_takes
  · unfold meshGui
    refine .quiet (.lift (e.require_answers _)) fun raw _ => mesh_takes fun base => ?_
    refine .quiet (guiSize_quiet e _) fun _ _ => .quiet (guiSize_quiet e _) fun _ _ => ?_
    refine declare_takes fun o => .quiet (log_quiet _ _) fun _ _ => ?_
    refine .emit fun _ => ?_
    refine .andThen (.forM_nil fun a _ => ?_) fun _ => controls_takes _ _
    exact translate_apply_takes
  · exact .throw (Admits.other _ rfl)

lemma property_takes (e : Element) : Takes Open F (trimmedNames e) (property e) := by
  refine Takes.mono ?_ (trimmedName_sublist e)
  unfold property
  refine .located (.quiet (.lift (e.require_answers _)) fun raw hraw => ?_)
  refine .quiet (.lift (e.require_answers _)) fun rawType _ => ?_
  rw [trimmedName_of_attr hraw]
  intro L s
  rw [run_bind, run_get]
  dsimp only
  split
  · next htaken =>
    refine .error (.inr ⟨rfl, fun hfresh => ?_⟩)
    have hopen := hfresh.isOpen _ mem_cons_self
    have hmember : s.generated.hasMember _ = false := hopen.member
    have haccessor : s.generated.accessor? _ = none := hopen.accessor
    simp [hmember, haccessor] at htaken
  refine Takes.of_others ?_ L s
  have last : Takes (fun s n => Open s n ∧ n ≠ Text.trim raw) F [] (do
      modifyClass (·.addAccessor
        (propertyAccessor (Text.trim raw) (Text.trim rawType) s.isMixin))
      addImport .utility "isEqual") := by
    refine .andThen (modify_takes fun s n h => ⟨h.1.addAccessor h.2, h.2⟩) fun _ => ?_
    exact .of_quiet (addImport_quiet _ _)
  refine .quiet (log_quiet _ _) fun _ _ => ?_
  refine .andThen (modify_takes fun s n h => ⟨h.1.addMember rfl h.2, h.2⟩) fun _ => ?_
  split
  · refine .quiet (typed_quiet _ _) fun v _ => .andThen ?_ fun _ => last
    exact emit_takes_of (fun h hpush => ⟨h.1.push hpush, h.2⟩) _ _
  · exact last

lemma sectionElement_takes (hF : SceneView.Allows F (sectionHolders e)) (rootTag : String) :
    Takes Open F (e.children.flatMap trimmedNames) (sectionElement rootTag e) := by
  unfold sectionElement
  unfold sectionHolders at hF
  cases hk : SectionKind.ofTag? e.tag with
  | none => exact .throw (Admits.other _ rfl)
  | some kind =>
    rw [hk] at hF
    refine .quiet (log_quiet _ _) fun _ _ => ?_
    cases kind with
    | imports => exact (Takes.modify fun _ => rfl).mono (nil_sublist _)
    | properties => exact .forM fun c _ => property_takes c
    | nodes => exact nodes_takes Placement.top e.children hF fun _ _ h => by cases h
    | materials =>
      refine .forM fun c hc => sharedMaterial_takes (hF.of_subset fun h hh => ?_)
      exact mem_filterMap.2 ⟨c, hc, Option.mem_toList.1 hh⟩
    | textures => exact .forM fun c _ => sharedTexture_takes c
    | guis =>
      unfold guis
      refine .quiet (addImport_quiet _ _) fun _ _ => .quiet (addImport_quiet _ _) fun _ _ => ?_
      exact .forM fun c _ => gui_takes c

lemma flush_takes : Takes Open F [] flush := by
  intro L s
  unfold flush
  rw [run_bind, run_get]
  have emits := Takes.forM_nil (O := Open) (F := F) (l := s.triggers ++ s.callbacks)
    fun p _ => emit_takes p.1 p.2
  refine (emits L { s with triggers := [], callbacks := [] }).imp fun hfresh => ?_
  exact hfresh.keep fun n _ _ hopen => hopen.of_waiting rfl rfl rfl

def Unregistered (s : Core) (n : String) : Prop :=
  ∀ kind, s.shared.find? kind n = none

lemma registerShared_takes (kind : SharedKind) (e : Element) :
    Takes Unregistered F (trimmedNames e) (registerShared kind e) := by
  refine Takes.mono ?_ (trimmedName_sublist e)
  unfold registerShared
  refine .quiet (.lift (e.require_answers _)) fun raw hraw => ?_
  rw [trimmedName_of_attr hraw]
  refine .quiet (log_quiet _ _) fun _ _ => .located fun L s => ?_
  rw [run_bind, run_get]
  dsimp only
  rw [run_bind, run_lift]
  cases hr : s.shared.register kind (Text.trim raw) Builtin.init with
  | error fault =>
    unfold SharedTable.register at hr
    split at hr
    · next entry hentry =>
      cases hr
      refine .error (.inr ⟨rfl, fun hfresh => ?_⟩)
      have hnone := hfresh.isOpen _ mem_cons_self kind
      cases hentry.symm.trans hnone
    · cases hr
  | ok t =>
    refine .ok fun hfresh => hfresh.keep fun n _ hn hopen k => ?_
    obtain ⟨_, _, hfind⟩ := SharedTable.register_eq_ok hr
    refine (hfind k n).trans ?_
    rw [if_neg fun heq => hn (mem_singleton.2 heq.2.symm)]
    exact hopen k

lemma lookAhead_takes (e : Element) :
    Takes Unregistered F (e.children.flatMap trimmedNames) (lookAhead e) := by
  unfold lookAhead
  refine .andThen (modify_takes fun s n h => h) fun _ => ?_
  split
  iterate 2 exact .forM fun c _ => registerShared_takes _ c
  · exact (Takes.modify fun _ => rfl).mono (nil_sublist _)
  · exact Takes.pure.mono (nil_sublist _)

lemma open_of_names {className visibility s} (tr : Course className d.isMixin visibility d.names s)
    {n} (hn : n ∈ d.reserved) :
    s.Open n := by
  have hevents := events_names d
  refine ⟨?_, ?_, ?_, ?_, fun kind e he => ?_⟩
  · rw [tr.mem_reserved, d.flatMap_reserved]
    exact hn
  · rw [← Bool.not_eq_true, ClassDef.hasMember_iff, tr.memberNames, mem_append]
    rintro (hmem | hmem)
    · exact storageName_not_mem_initMembers n _ hmem
    · obtain ⟨x, hx, heq⟩ := mem_filterMap.1 hmem
      cases d.isFirstLook hx <;> cases heq
  · rw [ClassDef.accessor?_eq_none_iff, tr.accessorNames, hevents]
    exact not_mem_nil
  · rw [← Bool.not_eq_true, tr.hasMethod_iff, hevents]
    rintro ⟨sig, hsig, heq⟩
    cases hsig with
    | init => exact groupMethod_ne_init n heq.symm
    | group hmem | ensure hmem => cases hmem
  · rw [tr.table.entry he, hevents]
    rfl

lemma reserved_eq (d : Document) :
    d.reserved = d.sections.flatMap fun e => e.children.flatMap trimmedNames := by
  simp only [Document.reserved, map_flatMap, map_namesInAll]

lemma undeclared_takes : Takes Open F [] (do
    match (← get).shared.undeclared with
    | (kind, name) :: _ => throw (.invalidStructure (.neverTranslated kind.referenceKind name))
    | [] => pure () : Compile Unit) := by
  intro L s
  rw [run_bind, run_get]
  dsimp only
  split
  · exact .error (.inl (Admits.other _ rfl))
  · exact .ok id

lemma document_granted {s : Session} {className visibility}
    (hs : s.core = (start className d.isMixin visibility).core)
    (hF : SceneView.Allows F d.holders) :
    Granted F d.reserved.Nodup ((document d).run.run s).1 True := by
  have sound : Sound s.core := hs ▸ sound_start className d.isMixin visibility
  obtain ⟨T, tr, _, hT⟩ := lookAheads_writes d s ⟨sound, .method sound.hosts_init, rfl⟩
  have first : Takes Unregistered F d.reserved (d.sections.forM lookAhead) := by
    rw [reserved_eq]
    exact .forM fun e _ => lookAhead_takes e
  have rest : Takes Open F d.reserved (do
      d.sections.forM (sectionElement d.root.tag)
      flush
      match (← get).shared.undeclared with
      | (kind, name) :: _ => throw (.invalidStructure (.neverTranslated kind.referenceKind name))
      | [] => pure ()) := by
    rw [← append_nil d.reserved, reserved_eq]
    refine .bind (.forM fun e he => sectionElement_takes (hF.of_subset ?_) _) fun _ => ?_
    · exact fun h hh => mem_flatMap.2 ⟨e, he, hh⟩
    · exact .andThen flush_takes fun _ => undeclared_takes
  have hfirst : Granted F d.reserved.Nodup _ _ := (first [] s).imp fun hd => by
    refine ⟨(append_nil _).symm ▸ hd, fun n _ kind => ?_⟩
    rw [hs]
    rfl
  unfold document
  rw [run_bind]
  generalize (d.sections.forM lookAhead).run.run s = r at tr hT hfirst
  obtain ⟨r, s1⟩ := r
  cases hT with
  | error _ =>
    cases hfirst with
    | error hfault => exact .error hfault
  | ok hT =>
    have course : Course className d.isMixin visibility d.names s1.core := by
      rw [Course, ← hs, ← hT]
      exact tr
    refine Ends.mono ((rest [] s1).imp fun hd => ?_) (fun _ => id) fun _ _ _ => trivial
    rw [append_nil]
    exact ⟨hd, fun n hn => open_of_names course hn⟩

lemma view_granted (hF : SceneView.Allows F d.holders) (className : String)
    (visibility : ClassVisibility) :
    Granted F d.reserved.Nodup
      ((view d className).run.run (start className d.isMixin visibility)).1 True := by
  unfold view
  obtain ⟨s, hrun, hcore⟩ := log_run _ _ _
  rw [run_bind, hrun]
  exact document_granted hcore hF

end Compile

lemma compileDocument_granted {F} [Admits F] {d} (hF : Allows F d.holders)
    (options : CompileOptions) :
    Compile.Granted F d.reserved.Nodup (compileDocument options d).1 True := by
  cases h : d.className with
  | error fault =>
    have hfault : fault.isConflict = false := by
      unfold Document.className at h
      split at h <;> cases h
      rfl
    rw [compileDocument, h]
    exact .error (.inl (Admits.other fault hfault))
  | ok className =>
    rw [compileDocument_eq h]
    have hview := Compile.view_granted hF className options.visibility
    generalize (Compile.view d className).run.run _ = r at hview
    obtain ⟨r, s⟩ := r
    cases hview with
    | ok _ => exact .ok fun _ => trivial
    | error hfault => exact .error hfault

instance : Admits (·.isNaming = false) where
  other f hf := by
    cases f with
    | conflict => cases hf
    | _ => rfl
  located line f hf := (f.isNaming_atLine line).trans hf

/-- If no two elements have the same name, then a compilation stops at no conflict about names. The
names that are made up differ from each other and from every name of the author's, wherever it
stands. Whatever is reserved and stored already, there is a name for every object without one: that
with the first number after the last one of the type that is free. -/
theorem no_naming_conflict {d : Document} (hd : d.reserved.Nodup) :
    (∀ options cause line, (compileDocument options d).1 = .error (.conflict cause line) →
      cause.isNaming = false) ∧
      ((d.reserved ++ d.madeUpNames).Nodup ∧ ∀ options c, d.generated? options = some c →
        ∀ n ∈ d.madeUpNames, c.hasMember (storageName n) = true) ∧
      ∀ (p : NamePool) (c : ClassDef) (type : String) (given? : Option String),
        ObjectName.given? given? = none →
        ∃ k, (p.assignUnused c type given?).1 = ⟨NamePool.numbered type k, false⟩ ∧
          IsLeast {j | p.last type < j ∧ p.IsFree c (NamePool.numbered type j)} k := by
  refine ⟨fun options cause line hfault => ?_, ⟨?_, fun options c hc n hn => ?_⟩,
    fun p c type given? hnone => ?_⟩
  · have hslots : Allows (·.isNaming = false) d.holders := fun _ _ => Fault.isNaming_of_isSlot
    have hgranted := compileDocument_granted hslots options
    rw [hfault] at hgranted
    cases hgranted with
    | error h => exact h.resolve_right fun ⟨_, hnot⟩ => hnot hd
  · exact NamePool.nodup_append_madeUp hd _
  · exact d.hasMember_of_madeUp hc hn
  · obtain ⟨_, _, hgiven, _⟩ | ⟨k, _, hk, hissues⟩ := NamePool.assignUnused_cases rfl
    · cases hnone.symm.trans hgiven
    · exact ⟨k, hk, hissues.least⟩

def crowdedView : Document where
  root :=
    { tag := "View"
      attributes := [⟨"name", "V"⟩]
      children :=
        [{ tag := "Nodes"
           children := List.replicate 11 { tag := "Box" } ++
             [{ tag := "Custom"
                attributes := [⟨"type", "Box1"⟩, ⟨"factory", "\x7bthis.make\x7d"⟩] },
               { tag := "Box", attributes := [⟨"name", "Box3"⟩] }] }] }

/-- The node of the type `Box1` is the thirteenth box and not the eleventh. -/
theorem crowdedView_no_conflict :
    crowdedView.reserved.Nodup ∧
      (∀ cause line, (compileDocument {} crowdedView).1 = .error (.conflict cause line) →
        cause.isNaming = false) ∧
      (crowdedView.reserved ++ crowdedView.madeUpNames).Nodup ∧
      ∃ c, crowdedView.generated? {} = some c ∧ c.hasMember (storageName "Box13") = true := by
  have hd : crowdedView.reserved.Nodup := by decide +kernel
  obtain ⟨c, hc⟩ := Option.isSome_iff_exists.1
    (show (crowdedView.generated? {}).isSome = true by decide +kernel)
  obtain ⟨hfault, ⟨hnodup, hstored⟩, _⟩ := no_naming_conflict hd
  exact ⟨hd, hfault {}, hnodup, c, hc, hstored {} c hc "Box13" (by decide +kernel)⟩

end SceneView
