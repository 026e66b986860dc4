import SceneView.Proofs.Mention
import SceneView.Proofs.Sections

/-!
# Compilation along the mentions of meshes

The compiler stops at a reference to a mesh where the walk along the mentions stops, and with the
same fault (`compileDocument_resolves`). Every action heeds the mentions in the element that it is
for: if it finishes, then the walk comes to the end of them and knows the same meshes.
-/

open List

namespace SceneView

def Session.known (s : Session) : List String :=
  s.meshes.map (·.name)

namespace Compile

variable {α β : Type}

/-- The outcome of a run from `s` agrees with the walk along some mentions: a finished run comes to
the end of it, and a run that stops at a reference to a mesh stops where the walk does. -/
inductive Heeded (ms : List Mention) (p : α → Prop) (s : Session) :
    Except Fault α × Session → Prop where
  | finished {a s'} :
    p a →
    s'.nodeNames = s.nodeNames →
    resolve s.nodeNames s.known ms = .ok s'.known →
    Heeded ms p s (.ok a, s')
  | stopped {f s'} :
    (f.isMesh = true → resolve s.nodeNames s.known ms = .error f) →
    Heeded ms p s (.error f, s')

lemma Heeded.of_resolve {ms ms'} {p : α → Prop} {s s' r} (h : Heeded ms p s r)
    (hnames : s.nodeNames = s'.nodeNames)
    (hwalk : resolve s'.nodeNames s'.known ms' = resolve s.nodeNames s.known ms) :
    Heeded ms' p s' r := by
  cases h with
  | finished ha hnames' hknown => exact .finished ha (hnames'.trans hnames) (hwalk.trans hknown)
  | stopped hfault => exact .stopped fun hmesh => hwalk.trans (hfault hmesh)

/-- An action that heeds some mentions, and finishes with an answer in `p`. -/
def Heeds (ms : List Mention) (x : Compile α) (p : α → Prop) : Prop :=
  ∀ s, Heeded ms p s (x.run.run s)

/-- An action that has nothing to do with meshes. -/
abbrev Mute (x : Compile α) (p : α → Prop) : Prop :=
  Heeds [] x p

namespace Heeds

variable {ms ms' : List Mention} {x : Compile α} {f : α → Compile β} {p : α → Prop} {q : β → Prop}

lemma pure {a} (h : p a) : Mute (pure a) p :=
  fun _ => .finished h rfl rfl

lemma throw {fault} (h : fault.isMesh = false) : Heeds ms (throw fault : Compile α) p :=
  fun _ => .stopped fun hmesh => absurd (hmesh.symm.trans h) (by simp)

lemma of_composed (h : Composed Scope.meshless (fun _ => True) x p) : Mute x p := by
  intro s
  have houtcome := h.outcome s
  generalize x.run.run s = r at houtcome
  cases houtcome with
  | @finished a s' ha hkept =>
    obtain ⟨hnames, hmeshes⟩ := hkept id
    refine .finished ha hnames ?_
    rw [Session.known, Session.known, hmeshes]
    rfl
  | stopped _ _ hmesh => exact .stopped fun h => absurd (h.symm.trans (hmesh id)) (by simp)

lemma append (h : Heeds ms x p) (hf : ∀ a, p a → Heeds ms' (f a) q) :
    Heeds (ms ++ ms') (x >>= f) q := by
  intro s
  have hx := h s
  rw [run_bind]
  generalize x.run.run s = r at hx
  cases hx with
  | @finished a s' ha hnames hwalk =>
    refine (hf a ha s').of_resolve hnames ?_
    rw [resolve_append, hwalk, hnames]
    rfl
  | stopped hfault =>
    refine .stopped fun hmesh => ?_
    rw [resolve_append, hfault hmesh]
    rfl

lemma bind (h : Mute x p) (hf : ∀ a, p a → Heeds ms (f a) q) : Heeds ms (x >>= f) q :=
  append h hf

lemma after (h : Composed Scope.meshless (fun _ => True) x p) (hf : ∀ a, p a → Heeds ms (f a) q) :
    Heeds ms (x >>= f) q :=
  bind (of_composed h) hf

lemma bind_mute (h : Heeds ms x p) (hf : ∀ a, p a → Mute (f a) q) : Heeds ms (x >>= f) q := by
  rw [← append_nil ms]
  exact append h hf

lemma located {line} (h : Heeds ms x p) :
    Heeds (ms.map (Mention.atLine line)) (located line x) p := by
  intro s
  have hx := h s
  change Heeded _ p s ((x.run.run s).1.mapError (Fault.atLine line), (x.run.run s).2)
  generalize x.run.run s = r at hx
  cases hx with
  | finished ha hnames hwalk =>
    refine .finished ha hnames ?_
    rw [resolve_atLine, hwalk]
    rfl
  | stopped hfault =>
    refine .stopped fun hmesh => ?_
    rw [resolve_atLine, hfault (by rwa [Fault.isMesh_atLine] at hmesh)]
    rfl

lemma forM {f : α → Compile PUnit} {m : α → List Mention} {l : List α}
    (h : ∀ a ∈ l, Heeds (m a) (f a) fun _ => True) :
    Heeds (l.flatMap m) (l.forM f) fun _ => True := by
  induction l with
  | nil => exact .pure trivial
  | cons a l ih =>
    exact append (h a mem_cons_self) fun _ _ => ih fun b hb => h b (mem_cons_of_mem _ hb)

end Heeds

lemma mesh_heeds (e : Element) (name : String) :
    Heeds [.asks e name 0] (mesh name) fun _ => True := by
  intro s
  unfold mesh
  rw [run_bind, run_get]
  dsimp only
  split
  · next m hfind =>
    have hname : name ∈ s.known :=
      mem_map.2 ⟨m, mem_of_find?_eq_some hfind, by simpa using List.find?_some hfind⟩
    exact .finished trivial rfl (if_pos hname)
  · next hfind =>
    have hname : name ∉ s.known := by
      intro hmem
      obtain ⟨m, hm, heq⟩ := mem_map.1 hmem
      exact List.find?_eq_none.1 hfind m hm (by simpa using heq)
    split
    · next hnames =>
      refine .stopped fun _ => ?_
      rw [resolve, if_neg hname, if_pos (by simpa using hnames)]
    · next hnames =>
      refine .stopped fun _ => ?_
      rw [resolve, if_neg hname, if_neg (by simpa using hnames)]

lemma addMesh_heeds {o e} (ho : o.given = e.meshName?) (m : String) :
    Heeds [.node e] (addMesh o m) fun _ => True := by
  intro s
  unfold addMesh
  unfold ObjectName.given at ho
  split
  · next hgiven =>
    rw [if_pos hgiven] at ho
    refine .finished trivial rfl ?_
    rw [resolve, ← ho]
    rfl
  · next hgiven =>
    rw [if_neg hgiven] at ho
    refine .finished trivial rfl ?_
    rw [resolve, ← ho]
    rfl

lemma Heeds.node {x} {p : α → Prop} {e} (h : Mute x p) (he : e.meshName? = none) :
    Heeds [.node e] x p := by
  refine fun s => (h s).of_resolve rfl ?_
  simp [resolve, he]

lemma shapeNode_heeds {e shape} (hkind : NodeKind.ofTag? e.tag = some (.shape shape))
    (p : Placement) : Heeds [.node e] (shapeNode shape e p) fun _ => True := by
  have hname : e.meshName? = e.givenName? := by
    rw [Element.meshName?, hkind]
  unfold shapeNode
  refine .after (.addImport _ _) fun _ _ => ?_
  refine .after (declare_composed trivial _) fun o ho => ?_
  refine .after (.mapM (r := fun a pair => pair.1 = a) fun a _ => ?_)
    fun pairs hpairs => ?_
  · exact .bind (translate_composed _ _ _) fun _ _ => .pure rfl
  refine .after (emit_composed _ _) fun _ _ => ?_
  refine .after (emit_composed _ _) fun _ _ => ?_
  refine .bind_mute (addMesh_heeds (ho.trans hname.symm) _) fun _ _ => ?_
  refine .after (.forM fun pair hpair => ?_) fun _ _ => .pure trivial
  obtain ⟨a, t⟩ := pair
  have ha := mem_map_of_mem (f := Prod.fst) hpair
  rw [map_fst_of_forall₂ hpairs] at ha
  exact shapeAttribute_composed trivial (mem_attributes ha) (fun _ _ _ => trivial) shape o t

lemma customNode_heeds {e} (hkind : NodeKind.ofTag? e.tag = some .custom) (p : Placement) :
    Heeds [.node e] (customNode e p) fun _ => True := by
  have hname : e.meshName? = e.givenName? := by
    rw [Element.meshName?, hkind]
  unfold customNode
  refine .after (require_composed trivial _) fun type _ => ?_
  refine .after (require_composed trivial _) fun raw _ => ?_
  refine .after (argument_composed _ _) fun _ _ => ?_
  refine .after (declare_composed trivial _) fun o ho => ?_
  refine .after (.mapM (r := fun _ _ => True) fun a _ => translate_composed _ _ _)
    fun options _ => ?_
  refine .after (emit_composed _ _) fun _ _ => ?_
  refine .bind_mute (addMesh_heeds (ho.trans hname.symm) _) fun _ _ => ?_
  refine .after (.forM fun t _ => follow_composed _ t) fun _ _ => ?_
  split <;> exact .pure trivial

mutual

lemma node_heeds (p : Placement) : (e : Element) → Heeds (nodeMentions e) (node p e) fun _ => True
  | ⟨tag, _, children, _, line⟩ => by
    have hbelow : ∀ p, Heeds (nodesMentions children) (nodes p children) fun _ => True :=
      fun p => nodes_heeds p children
    unfold node
    rw [← nodeMentions_atLine line]
    apply Heeds.located
    refine .after (nodeKind_composed trivial) fun kind hkind => ?_
    refine .after (.log _ _) fun _ _ => ?_
    replace hkind : NodeKind.ofTag? tag = some kind := hkind
    rw [nodeMentions, hkind]
    cases kind with
    | transform =>
      refine .append (.node (.of_composed (transformNode_composed trivial p)) ?_)
        fun _ _ => hbelow _
      rw [Element.meshName?, hkind]
    | shape shape => exact .append (shapeNode_heeds hkind p) fun _ _ => hbelow _
    | model =>
      refine .append (.node (.of_composed (modelNode_composed trivial trivial p)) ?_)
        fun _ _ => hbelow _
      rw [Element.meshName?, hkind]
    | custom => exact .append (customNode_heeds hkind p) fun _ _ => hbelow _
    | deferredGroup =>
      refine .append (.node (.of_composed (openGroup_composed trivial trivial p)) ?_)
        fun name _ => ?_
      · rw [Element.meshName?, hkind]
      · exact .bind_mute (hbelow _) fun _ _ => .of_composed (closeGroup_composed _ name)
    | material =>
      exact .of_composed (materialOfNode_composed trivial trivial hkind p fun _ _ _ => trivial)

lemma nodes_heeds (p : Placement) : (es : List Element) →
    Heeds (nodesMentions es) (nodes p es) fun _ => True
  | [] => .pure trivial
  | e :: es => .append (node_heeds p e) fun _ _ => nodes_heeds p es

end

lemma controlAttribute_heeds (e : Element) (o : ObjectName) (m : String) (a : Attribute) :
    Heeds (if a.name == linkAttribute && isLiteral a.value then [.asks e (Text.trim a.value) 0]
      else []) (controlAttribute o m a) fun _ => True := by
  unfold controlAttribute
  refine .after (isReference_composed _ _) fun isReference hreference => ?_
  rw [← hreference]
  cases isReference with
  | true => exact .bind_mute (mesh_heeds e _) fun _ _ => .of_composed (emit_composed _ _)
  | false => exact .of_composed (translate_apply_composed _ _ _ _)

lemma openControl_heeds (e : Element) (parent m : String) :
    Heeds (linkMentions e) (openControl e parent m) fun _ => True := by
  unfold openControl
  refine .after (.addImport _ _) fun _ _ => ?_
  refine .after (declare_composed trivial _) fun o _ => ?_
  refine .after (emit_composed _ _) fun _ _ => ?_
  refine .after (emit_composed _ _) fun _ _ => ?_
  exact .bind_mute (.forM fun a _ => controlAttribute_heeds e o m a) fun _ _ => .pure trivial

mutual

lemma control_heeds (parent m : String) : (e : Element) →
    Heeds (controlMentions e) (control parent m e) fun _ => True
  | ⟨_, _, children, _, _⟩ => by
    unfold control controlMentions
    apply Heeds.located
    exact .append (openControl_heeds _ parent m) fun member _ => controls_heeds member m children

lemma controls_heeds (parent m : String) : (es : List Element) →
    Heeds (controlsMentions es) (controls parent m es) fun _ => True
  | [] => .pure trivial
  | e :: es => .append (control_heeds parent m e) fun _ _ => controls_heeds parent m es

end

lemma fullScreenGui_heeds (e : Element) :
    Heeds (controlsMentions e.children) (fullScreenGui e) fun _ => True := by
  unfold fullScreenGui
  refine .after (declare_composed trivial _) fun o _ => ?_
  refine .after (.log _ _) fun _ _ => ?_
  refine .after (emit_composed _ _) fun _ _ => ?_
  refine .after (.forM fun a _ => translate_apply_composed _ _ _ _) fun _ _ => ?_
  exact controls_heeds _ _ e.children

lemma meshGui_heeds {e} (hroot : GuiRoot.ofTag? e.tag = some .onMesh) :
    Heeds (rootMentions e ++ controlsMentions e.children) (meshGui e) fun _ => True := by
  unfold meshGui
  refine .after (require_composed trivial _) fun raw hraw => ?_
  have hmentions : rootMentions e = [.asks e (Text.trim raw) 0] := by
    rw [rootMentions, hroot]
    dsimp only
    rw [hraw]
    rfl
  rw [hmentions]
  refine .append (mesh_heeds e _) fun base _ => ?_
  refine .after (guiSize_composed e _) fun width _ => ?_
  refine .after (guiSize_composed e _) fun height _ => ?_
  refine .after (declare_composed trivial _) fun o _ => ?_
  refine .after (.log _ _) fun _ _ => ?_
  refine .after (emit_composed _ _) fun _ _ => ?_
  refine .after (.forM fun a _ => translate_apply_composed _ _ _ _) fun _ _ => ?_
  exact controls_heeds _ _ e.children

lemma gui_heeds (e : Element) : Heeds (guiMentions e) (gui e) fun _ => True := by
  unfold gui guiMentions
  apply Heeds.located
  cases hroot : GuiRoot.ofTag? e.tag with
  | none => exact .throw rfl
  | some root =>
    cases root with
    | fullScreen =>
      rw [rootMentions, hroot]
      exact fullScreenGui_heeds e
    | onMesh => exact meshGui_heeds hroot

lemma sectionElement_heeds (rootTag : String) (e : Element) :
    Heeds (sectionMentions e) (sectionElement rootTag e) fun _ => True := by
  unfold sectionElement sectionMentions
  cases SectionKind.ofTag? e.tag with
  | none => exact .throw rfl
  | some kind =>
    refine .after (.log _ _) fun _ _ => ?_
    cases kind with
    | imports => exact .of_composed .set
    | properties => exact .of_composed (.forM fun c _ => property_composed trivial)
    | nodes => exact nodes_heeds _ e.children
    | materials =>
      exact .of_composed
        (.forM fun c _ => sharedMaterial_composed trivial trivial fun _ _ _ => trivial)
    | textures => exact .of_composed (.forM fun c _ => sharedTexture_composed trivial trivial)
    | guis =>
      refine .after (.addImport _ _) fun _ _ => ?_
      refine .after (.addImport _ _) fun _ _ => ?_
      exact .forM fun c _ => gui_heeds c

mutual

lemma nodeMentions_names : (e : Element) →
    (nodeMentions e).filterMap Mention.nodeName? = nodeNamesIn e
  | ⟨tag, attributes, children, text, line⟩ => by
    rw [nodeMentions, nodeNamesIn]
    split
    · rfl
    · rw [← nodesMentions_names children]
      cases hname : Element.attr? ⟨tag, attributes, children, text, line⟩ "name" <;>
        simp [Mention.nodeName?, hname]

lemma nodesMentions_names : (es : List Element) →
    (nodesMentions es).filterMap Mention.nodeName? = nodeNamesInAll es
  | [] => rfl
  | e :: es => by
    rw [nodesMentions, nodeNamesInAll, filterMap_append, nodeMentions_names e,
      nodesMentions_names es]

end

def Notes (names : List String) (x : Compile Unit) : Prop :=
  ∀ s, Ends (·.isMesh = false) (x.run.run s).1 fun _ =>
    (x.run.run s).2.nodeNames = s.nodeNames ++ names ∧ (x.run.run s).2.known = s.known

namespace Notes

variable {names names' : List String} {x : Compile Unit} {f : Unit → Compile Unit}

lemma of_mute (h : Mute x fun _ => True) : Notes [] x := by
  intro s
  have hx := h s
  generalize x.run.run s = r at hx ⊢
  cases hx with
  | finished _ hnames hknown =>
    refine .ok ⟨hnames.trans (append_nil _).symm, ?_⟩
    exact (Except.ok.inj hknown).symm
  | @stopped fault _ hfault =>
    refine .error ?_
    cases hmesh : fault.isMesh with
    | false => rfl
    | true => cases hfault hmesh

lemma bind (h : Notes names x) (hf : ∀ a, Notes names' (f a)) :
    Notes (names ++ names') (x >>= f) := by
  intro s
  have hx := h s
  rw [run_bind]
  generalize x.run.run s = r at hx ⊢
  obtain ⟨r, s'⟩ := r
  cases hx with
  | error hfault => exact .error hfault
  | @ok a _ hnoted =>
    refine (hf a s').mono (fun _ => id) fun _ hrest => ?_
    rw [← append_assoc, ← hnoted.1, ← hnoted.2]
    exact hrest

lemma forM {f : α → Compile Unit} {m : α → List String} {l : List α}
    (h : ∀ a ∈ l, Notes (m a) (f a)) : Notes (l.flatMap m) (l.forM f) := by
  induction l with
  | nil => exact of_mute (.pure trivial)
  | cons a l ih =>
    exact bind (h a mem_cons_self) fun _ => ih fun b hb => h b (mem_cons_of_mem _ hb)

end Notes

lemma lookAhead_notes (e : Element) :
    Notes ((sectionMentions e).filterMap Mention.nodeName?) (lookAhead e) := by
  unfold lookAhead sectionMentions
  rw [← nil_append (filterMap _ _)]
  refine Notes.bind (.of_mute (.of_composed .set))
    fun _ => ?_
  cases SectionKind.ofTag? e.tag with
  | none => exact .of_mute (.pure trivial)
  | some kind =>
    cases kind with
    | imports | properties => exact .of_mute (.pure trivial)
    | materials | textures =>
      exact .of_mute (.of_composed (.forM fun c _ => registerShared_composed trivial _))
    | nodes =>
      intro s
      rw [nodesMentions_names]
      exact .ok ⟨rfl, rfl⟩
    | guis =>
      have hnone : ∀ m ∈ e.children.flatMap guiMentions, m.nodeName? = none := by
        intro m hm
        obtain ⟨root, _, hm⟩ := mem_flatMap.1 hm
        exact (guiMentions_refer root m hm).nodeName?_eq
      dsimp only
      rw [filterMap_eq_nil_iff.2 hnone]
      exact .of_mute (.pure trivial)

lemma document_resolves {d s} {f : Fault} (h : ((document d).run.run s).1 = .error f)
    (hf : f.isMesh = true) :
    resolve (s.nodeNames ++ d.nodeNames) s.known d.mentions = .error f := by
  have hlook : Notes d.nodeNames (d.sections.forM lookAhead) := by
    rw [Document.nodeNames, Document.mentions, filterMap_flatMap]
    exact .forM fun e _ => lookAhead_notes e
  have hrest : Heeds d.mentions (do
      d.sections.forM (sectionElement d.root.tag)
      finish) fun _ => True :=
    .bind_mute (.forM fun e _ => sectionElement_heeds _ e) fun _ _ => .of_composed finish_composed
  have hdocument : document d = (do
      d.sections.forM lookAhead
      d.sections.forM (sectionElement d.root.tag)
      finish) := rfl
  rw [hdocument, run_bind] at h
  have hnoted := hlook s
  generalize (d.sections.forM lookAhead).run.run s = r at h hnoted
  obtain ⟨r, s'⟩ := r
  cases hnoted with
  | error hfault =>
    cases h
    exact absurd (hf.symm.trans hfault) (by simp)
  | ok hnoted =>
    obtain ⟨hnames, hknown⟩ := hnoted
    have hheeded := hrest s'
    dsimp only at h
    generalize StateT.run (ExceptT.run _) s' = r at h hheeded
    rw [← hnames, ← hknown]
    cases hheeded with
    | finished => cases h
    | stopped hfault =>
      cases h
      exact hfault hf

end Compile

lemma compileDocument_resolves {d options f} (h : (compileDocument options d).1 = .error f)
    (hf : f.isMesh = true) : resolve d.nodeNames [] d.mentions = .error f := by
  cases hname : d.className with
  | error fault =>
    rw [compileDocument, hname] at h
    cases h
    unfold Document.className at hname
    split at hname
    · cases hname
    · cases hname
      cases hf
  | ok className =>
    rw [compileDocument_eq hname] at h
    have hrun : ((Compile.view d className).run.run
        (Compile.start className d.isMixin options.visibility)).1 = .error f := by
      generalize (Compile.view d className).run.run _ = r at h ⊢
      obtain ⟨_ | _, _⟩ := r <;> cases h
      rfl
    exact Compile.document_resolves
      (s := { Compile.start className d.isMixin options.visibility with log := _ }) hrun hf

end SceneView
