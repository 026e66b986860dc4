import SceneView.Proofs.Conflict

/-!
# Slots that are filled twice

A slot holds one value, but a compilation only looks for slots that are filled both by an attribute
and by an element. It stops at these and, where slots are concerned, at nothing else; a slot that is
filled by two elements is assigned twice.
-/

namespace SceneView

open List

namespace Compile

/-- An action that finishes only if the condition holds. -/
def Demands {α : Type} (x : Compile α) (p : Prop) : Prop :=
  ∀ s, Ends (fun _ => True) (x.run.run s).1 fun _ => p

namespace Demands

variable {α β : Type} {x : Compile α} {f : α → Compile β} {p q : Prop}

lemma of_true (h : p) : Demands x p := by
  intro s
  cases (x.run.run s).1 with
  | ok _ => exact .ok h
  | error _ => exact .error trivial

lemma mono (h : Demands x p) (hp : p → q) : Demands x q :=
  fun s => (h s).mono (fun _ => id) fun _ => hp

lemma and (hp : Demands x p) (hq : Demands x q) : Demands x (p ∧ q) := by
  intro s
  have hp := hp s
  have hq := hq s
  generalize (x.run.run s).1 = r at hp hq
  cases hp with
  | ok hp =>
    cases hq with
    | ok hq => exact .ok ⟨hp, hq⟩
  | error _ => exact .error trivial

lemma throw {fault} : Demands (throw fault : Compile α) p :=
  fun _ => .error trivial

lemma throw_bind {fault} : Demands ((MonadExcept.throw fault : Compile α) >>= f) p :=
  fun _ => .error trivial

lemma first (h : Demands x p) : Demands (x >>= f) p := by
  intro s
  have hx := h s
  rw [run_bind]
  generalize x.run.run s = r at hx
  obtain ⟨r, s'⟩ := r
  cases hx with
  | ok hp => exact of_true hp s'
  | error _ => exact .error trivial

lemma rest (h : ∀ a, Demands (f a) p) : Demands (x >>= f) p := by
  intro s
  rw [run_bind]
  generalize x.run.run s = r
  obtain ⟨r, s'⟩ := r
  cases r with
  | ok a => exact h a s'
  | error _ => exact .error trivial

lemma quiet {r} (h : Quiet x r) (hf : ∀ a, r a → Demands (f a) p) : Demands (x >>= f) p := by
  intro s
  have hx := (h s).2.2
  rw [run_bind]
  generalize x.run.run s = y at hx
  obtain ⟨y, s'⟩ := y
  cases hx with
  | ok ha => exact hf _ ha s'
  | error _ => exact .error trivial

lemma located {line} (h : Demands x p) : Demands (located line x) p :=
  fun s => (h s).atLine fun _ => id

lemma forM {f : α → Compile PUnit} {l : List α} {p : α → Prop} (h : ∀ a ∈ l, Demands (f a) (p a)) :
    Demands (l.forM f) (∀ a ∈ l, p a) := by
  induction l with
  | nil => exact of_true nofun
  | cons a l ih =>
    have hhead : Demands ((a :: l).forM f) (p a) := (h a mem_cons_self).first
    have htail : Demands ((a :: l).forM f) (∀ b ∈ l, p b) :=
      rest fun _ => ih fun b hb => h b (mem_cons_of_mem _ hb)
    exact (hhead.and htail).mono fun ⟨ha, hl⟩ => forall_mem_cons.2 ⟨ha, hl⟩

end Demands

/-- No slot is filled in two ways. -/
def Unmixed (holders : List Holder) : Prop :=
  ∀ h ∈ holders, ¬ h.IsMixed

lemma materialSlot_demands (e : Element) (kind : MaterialKind) (o : ObjectName) (m : String)
    (child : Element) :
    Demands (materialSlot e kind o m child) (e.hasAttr (slotOfTag child.tag) = false) := by
  unfold materialSlot
  dsimp only
  split
  · split
    · exact .throw_bind
    · next hattr => exact .of_true (Bool.eq_false_iff.2 hattr)
  · exact .throw

lemma buildMaterial_demands (e : Element) (kind : MaterialKind) (node? : Option String)
    (o : ObjectName) (m : String) :
    Demands (buildMaterial e kind node? o m) (Unmixed (Holder.ofMaterial? e).toList) := by
  have slots : Demands (e.children.forM (materialSlot e kind o m))
      (Unmixed (Holder.ofMaterial? e).toList) := by
    refine (Demands.forM fun child _ => materialSlot_demands e kind o m child).mono fun h => ?_
    rintro holder hholder ⟨slot, hattribute, helement⟩
    obtain ⟨k, _, rfl⟩ := Option.map_eq_some_iff.1 (Option.mem_toList.1 hholder)
    obtain ⟨child, hchild, rfl⟩ := mem_map.1 (mem_filter.1 helement).1
    have hattr := Element.hasAttr_iff.2 (mem_filter.1 hattribute).1
    exact Bool.false_ne_true ((h child hchild).symm.trans hattr)
  unfold buildMaterial
  refine .rest fun _ => .rest fun _ => ?_
  cases node? with
  | none => exact .rest fun _ => slots
  | some node => exact .rest fun _ => .rest fun _ => slots

lemma buildShared_demands {kind type name build p} (h : ∀ o m, Demands (build o m) p) :
    Demands (buildShared kind type name build) p := by
  unfold buildShared
  refine .rest fun s => .rest fun r => ?_
  obtain ⟨site, t⟩ := r
  refine .rest fun _ => .rest fun o => .rest fun _ => .rest fun _ => ?_
  split
  · exact .rest fun _ => (h o _).first
  · exact (h o _).first

lemma sharedMaterial_demands (e : Element) :
    Demands (sharedMaterial e) (Unmixed (Holder.ofMaterial? e).toList) := by
  unfold sharedMaterial
  refine .located (.rest fun kind => .rest fun raw => ?_)
  exact buildShared_demands fun o m => buildMaterial_demands e kind none o m

lemma nodeMaterial_demands (e : Element) (node m : String) :
    Demands (nodeMaterial e node m) (Unmixed (Holder.ofMaterial? e).toList) := by
  unfold nodeMaterial
  refine .located (.rest fun kind => .rest fun o => ?_)
  exact buildMaterial_demands e kind _ o m

/-- If there are elements in the place that give the enclosing node a material, then it has no
attribute for it. -/
def Placement.Clear (p : Placement) (wrappers : List Element) : Prop :=
  wrappers ≠ [] → ∀ node, p.enclosing? = some node → node.hasAttr "material" = false

lemma materialOfNode_demands (e : Element) (p : Placement) :
    Demands (materialOfNode e p)
      (Unmixed (e.children.filterMap Holder.ofMaterial?) ∧ p.Clear [e]) := by
  unfold materialOfNode
  cases hnode : p.enclosing? with
  | none => exact .throw
  | some node =>
    dsimp only
    split
    · exact .throw_bind
    · next hattr =>
      refine .quiet (.lift e.onlyChild_answers) fun child h => ?_
      refine (nodeMaterial_demands child _ _).mono fun hunmixed => ⟨?_, fun _ node' hnode' => ?_⟩
      · intro holder hholder
        obtain ⟨c, hc, hmaterial⟩ := mem_filterMap.1 hholder
        cases mem_singleton.1 (h ▸ hc)
        exact hunmixed holder (Option.mem_toList.2 hmaterial)
      · cases hnode.symm.trans hnode'
        exact Bool.eq_false_iff.2 hattr

lemma unmixed_ofNode {e} {p : Placement} {parent}
    (h : (p.below e parent).Clear (wrappersInAll e.children)) : ¬ (Holder.ofNode e).IsMixed := by
  rintro ⟨slot, hattribute, helement⟩
  obtain ⟨w, hw, rfl⟩ := mem_map.1 helement
  have hattr := Element.hasAttr_iff.2 (mem_filter.1 hattribute).1
  exact Bool.false_ne_true ((h (ne_nil_of_mem hw) e rfl).symm.trans hattr)

lemma Unmixed.append {xs ys} (hx : Unmixed xs) (hy : Unmixed ys) : Unmixed (xs ++ ys) :=
  fun h hh => (mem_append.1 hh).elim (hx h) (hy h)

mutual

lemma node_demands (p : Placement) : (e : Element) →
    Demands (node p e) (Unmixed (nodeHolders e) ∧ p.Clear (wrappersIn e))
  | ⟨tag, attributes, children, text, line⟩ => by
    unfold node nodeHolders wrappersIn
    refine .located (.quiet (.lift (nodeKind_answers _)) fun kind hk => .rest fun _ => ?_)
    dsimp only at hk
    rw [hk]
    have below : ∀ parent, Demands
        (nodes (p.below ⟨tag, attributes, children, text, line⟩ parent) children)
        (Unmixed (Holder.ofNode ⟨tag, attributes, children, text, line⟩ :: nodesHolders children) ∧
          p.Clear []) := by
      intro parent
      refine (nodes_demands _ children).mono fun ⟨hunmixed, hclear⟩ => ⟨?_, fun hne => ?_⟩
      · exact forall_mem_cons.2 ⟨unmixed_ofNode hclear, hunmixed⟩
      · exact absurd rfl hne
    cases kind with
    | transform | shape | model | custom => exact .rest below
    | deferredGroup =>
      exact .rest fun name => (nodes_demands { p with method := groupMethod name } children).first
    | material => exact materialOfNode_demands _ p

lemma nodes_demands (p : Placement) : (es : List Element) →
    Demands (nodes p es) (Unmixed (nodesHolders es) ∧ p.Clear (wrappersInAll es))
  | [] => .of_true ⟨nofun, fun hne => absurd rfl hne⟩
  | e :: es => by
    have hhead : Demands (nodes p (e :: es)) _ := (node_demands p e).first
    have htail : Demands (nodes p (e :: es)) _ := .rest fun _ => nodes_demands p es
    refine (hhead.and htail).mono fun ⟨⟨hunmixed, hclear⟩, hunmixed', hclear'⟩ => ?_
    unfold nodesHolders wrappersInAll
    refine ⟨hunmixed.append hunmixed', fun hne => ?_⟩
    by_cases hw : wrappersIn e = []
    · rw [hw, nil_append] at hne
      exact hclear' hne
    · exact hclear hw

end

lemma sectionElement_demands (rootTag : String) (e : Element) :
    Demands (sectionElement rootTag e) (Unmixed (sectionHolders e)) := by
  have nothing : Unmixed [] := nofun
  unfold sectionElement sectionHolders
  cases SectionKind.ofTag? e.tag with
  | none => exact .throw
  | some kind =>
    refine .rest fun _ => ?_
    cases kind with
    | materials =>
      refine (Demands.forM fun c _ => sharedMaterial_demands c).mono fun h holder hholder => ?_
      obtain ⟨c, hc, hmaterial⟩ := mem_filterMap.1 hholder
      exact h c hc holder (Option.mem_toList.2 hmaterial)
    | nodes => exact (nodes_demands Placement.top e.children).mono And.left
    | imports | properties | textures | guis => exact .of_true nothing

lemma document_demands (d : Document) : Demands (document d) (Unmixed d.holders) := by
  unfold document
  refine .rest fun _ => .first ?_
  refine (Demands.forM fun e _ => sectionElement_demands d.root.tag e).mono ?_
  intro h holder hholder
  obtain ⟨e, he, hmem⟩ := mem_flatMap.1 hholder
  exact h e he holder hmem

lemma view_demands (d : Document) (className : String) :
    Demands (view d className) (Unmixed d.holders) :=
  .rest fun _ => document_demands d

end Compile

lemma compileDocument_demands {options d v} (h : (compileDocument options d).1 = .ok v) :
    Compile.Unmixed d.holders := by
  cases hname : d.className with
  | error fault =>
    rw [compileDocument, hname] at h
    cases h
  | ok className =>
    rw [compileDocument_eq hname] at h
    have hview := Compile.view_demands d className
      (Compile.start className d.isMixin options.visibility)
    generalize (Compile.view d className).run.run _ = r at h hview
    obtain ⟨r, s⟩ := r
    cases hview with
    | ok hunmixed => exact hunmixed
    | error _ => cases h

/-- A fault is about slots only if there is reason for it. -/
def SlotsToBlame (d : Document) (f : Fault) : Prop :=
  f.isSlot = true → ∃ h ∈ d.holders, h.IsMixed

instance (d : Document) : Admits (SlotsToBlame d) where
  other f hf hslot := by
    cases f with
    | conflict => cases hf
    | _ => cases hslot
  located line f hf hslot := hf ((f.isSlot_atLine line).symm.trans hslot)

lemma Holder.nodup_iff {h : Holder} (hh : ¬ h.IsMixed) :
    (h.attributes ++ h.elements).Nodup ↔ h.attributes.Nodup ∧ h.elements.Nodup := by
  rw [nodup_append']
  refine ⟨fun ⟨ha, he, _⟩ => ⟨ha, he⟩, fun ⟨ha, he⟩ => ⟨ha, he, fun slot hattribute helement => ?_⟩⟩
  exact hh ⟨slot, hattribute, helement⟩

/-- No object of an accepted document has a slot that is filled both by an attribute and by an
element, so that all its slots are filled once iff no two of its attributes and no two of its
elements fill the same one. A document with a slot that is filled in both ways is rejected, and a
conflict about slots is found only in such a document. -/
theorem slots_filled (options : CompileOptions) (d : Document) :
    (∀ v, (compileDocument options d).1 = .ok v → ∀ h ∈ d.holders, ¬ h.IsMixed ∧
      ((h.attributes ++ h.elements).Nodup ↔ h.attributes.Nodup ∧ h.elements.Nodup)) ∧
      ((∃ h ∈ d.holders, h.IsMixed) → ∃ fault, (compileDocument options d).1 = .error fault) ∧
      ∀ cause line, (compileDocument options d).1 = .error (.conflict cause line) →
        cause.isSlot = true → ∃ h ∈ d.holders, h.IsMixed := by
  refine ⟨fun v hv h hh => ?_, ?_, fun cause line hfault hslot => ?_⟩
  · have hunmixed := compileDocument_demands hv h hh
    exact ⟨hunmixed, Holder.nodup_iff hunmixed⟩
  · rintro ⟨h, hh, hmixed⟩
    cases hr : (compileDocument options d).1 with
    | error fault => exact ⟨fault, rfl⟩
    | ok v => exact absurd hmixed (compileDocument_demands hr h hh)
  · have hallows : Allows (SlotsToBlame d) d.holders := fun hmixed _ _ _ => hmixed
    have hgranted := compileDocument_granted hallows options
    rw [hfault] at hgranted
    cases hgranted with
    | error h =>
      obtain hblame | ⟨hnaming, _⟩ := h
      · exact hblame hslot
      · have hnot := Fault.isNaming_of_isSlot (f := .conflict cause line) hslot
        exact absurd (hnot.symm.trans hnaming) Bool.false_ne_true

def doubledView : Document where
  root :=
    { tag := "View"
      attributes := [⟨"name", "V"⟩]
      children :=
        [{ tag := "Materials"
           children :=
             [{ tag := "StandardMaterial"
                attributes := [⟨"name", "m"⟩]
                children :=
                  [{ tag := "DiffuseTexture"
                     children := [{ tag := "Texture", attributes := [⟨"url", "a.png"⟩] }] },
                    { tag := "DiffuseTexture"
                      children := [{ tag := "Texture", attributes := [⟨"url", "b.png"⟩] }] }] }] }] }

/-- The document is accepted, and its material has no slot that is filled in two ways. -/
theorem doubledView_filled :
    ∃ v, (compileDocument {} doubledView).1 = .ok v ∧ ∀ h ∈ doubledView.holders, ¬ h.IsMixed ∧
      ((h.attributes ++ h.elements).Nodup ↔ h.attributes.Nodup ∧ h.elements.Nodup) := by
  have haccepted : (compileDocument {} doubledView).1.isOk = true := by decide +kernel
  obtain ⟨v, hv⟩ := exists_of_isOk haccepted
  exact ⟨v, hv, (slots_filled {} doubledView).1 v hv⟩

/-- A document is accepted although two of its elements fill the same slot, and both are
assigned to it. -/
theorem doubledView_assigned_twice :
    (∃ h ∈ doubledView.holders, ¬ (h.attributes ++ h.elements).Nodup) ∧
      ((doubledView.generated? {}).map fun c => ["Texture1", "Texture2"].all fun texture =>
        (c.body Builtin.init).contains (.slotTexture (storageName "m") "diffuseTexture"
          (.member (storageName texture)))) = some true := by
  decide +kernel

end SceneView
