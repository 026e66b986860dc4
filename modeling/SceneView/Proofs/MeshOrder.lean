import SceneView.Proofs.Heed

/-!
# Meshes that are declared too late

A reference to a mesh that does not stand before it is told to be a forward reference if any node
has the name, and to be to nothing otherwise. So a forward reference can be moved behind its mesh
only if one of the nodes of that name can be a mesh; the others, such as transform nodes, may even
stand before the reference.
-/

namespace SceneView

def meshesOf (ms : List Mention) : List String :=
  ms.filterMap Mention.mesh?

def asksOf (ms : List Mention) : List String :=
  ms.filterMap Mention.asked?

lemma meshesOf_append (ms ms' : List Mention) :
    meshesOf (ms ++ ms') = meshesOf ms ++ meshesOf ms' :=
  List.filterMap_append

variable {n : String} {d : Document} {f : Fault}

lemma Mention.nodeName?_of_mesh? {m : Mention} (h : m.mesh? = some n) :
    m.nodeName? = some n := by
  cases m with
  | asks => cases h
  | node e =>
    have hgiven : e.givenName? = some n := by
      rw [mesh?, Element.meshName?] at h
      split at h
      · exact h
      · exact h
      · cases h
    obtain ⟨o, ho, rfl⟩ := Option.map_eq_some_iff.1 hgiven
    exact ObjectName.trim_of_given? ho

lemma Document.nodeNames_of_meshesOf (h : n ∈ meshesOf d.mentions) :
    n ∈ d.nodeNames := by
  obtain ⟨m, hm, hmesh⟩ := List.mem_filterMap.1 h
  exact List.mem_filterMap.2 ⟨m, hm, Mention.nodeName?_of_mesh? hmesh⟩

/-- The mesh that is not known, if a fault is about one. -/
def Fault.unmet? : Fault → Option String
  | reference .mesh n _ | forwardReference .mesh n _ => some n
  | _ => none

lemma Fault.isMesh_of_unmet? (h : f.unmet? = some n) :
    f.isMesh = true := by
  unfold unmet? at h
  split at h
  · rfl
  · rfl
  · cases h

lemma compileDocument_unmet {options} (h : (compileDocument options d).1 = .error f)
    (hf : f.unmet? = some n) :
    ∃ before e line after, d.mentions = before ++ .asks e n line :: after ∧
      n ∉ meshesOf before ∧ asksOf before ⊆ meshesOf before ∧
      f = if n ∈ d.nodeNames then .forwardReference .mesh n line else .reference .mesh n line := by
  obtain ⟨before, e, n', line, after, known, hmentions, hbefore, hn, hfault⟩ :=
    resolve_eq_error (compileDocument_resolves h (Fault.isMesh_of_unmet? hf))
  obtain rfl : n' = n := by
    rw [hfault] at hf
    split at hf <;> exact Option.some.inj hf
  obtain ⟨rfl, hasked⟩ := resolve_eq_ok hbefore
  rw [List.append_nil] at hn hasked
  refine ⟨before, e, line, after, hmentions, fun hmesh => hn (List.mem_reverse.2 hmesh), ?_, hfault⟩
  exact fun m hm => List.mem_reverse.1 (hasked m hm)

lemma compileDocument_met {options before after} (h : (compileDocument options d).1 = .error f)
    (hmentions : d.mentions = before ++ after) (hmesh : n ∈ meshesOf before)
    (hasks : n ∉ asksOf before) : f.unmet? ≠ some n := by
  intro hf
  obtain ⟨front, e, line, back, hsplit, hfront, _⟩ := compileDocument_unmet h hf
  obtain ⟨l, rfl, -⟩ | ⟨l, rfl, hback⟩ := List.append_eq_append_iff.1 (hmentions.symm.trans hsplit)
  · -- The mesh stands before the reference that fails.
    rw [meshesOf_append] at hfront
    exact hfront (List.mem_append_left _ hmesh)
  · -- The reference that fails is the first one after the mesh, or it stands before.
    cases l with
    | nil => exact hfront (by rwa [List.append_nil] at hmesh)
    | cons m l =>
      cases hback
      exact hasks (List.mem_filterMap.2 ⟨.asks e n line, by simp, rfl⟩)

/-- If a compilation stops at a reference to a mesh, then the reference is that of an element of a
user interface, and it is the first one to a mesh that no node before it is. It is told to be a
forward reference iff any node has the name. If one of these nodes can be a mesh, then it follows,
and the reference does not fail in any document where the mesh stands before it as well and no other
references do. -/
theorem forward_reference_iff_named {d : Document} {options : CompileOptions} {f : Fault}
    {n : String} {line : Nat} (h : (compileDocument options d).1 = .error f)
    (hf : f = .forwardReference .mesh n line ∨ f = .reference .mesh n line) :
    ∃ before e after, d.mentions = before ++ .asks e n line :: after ∧
      (∃ g ∈ d.sections, SectionKind.ofTag? g.tag = some .guis ∧
        e ∈ Element.elementsOf g.children) ∧
      e.RefersTo n ∧ (0 < e.line → line = e.line) ∧
      n ∉ meshesOf before ∧ asksOf before ⊆ meshesOf before ∧
      (f = .forwardReference .mesh n line ↔ n ∈ d.nodeNames) ∧
      (n ∈ meshesOf after ↔ n ∈ meshesOf d.mentions) ∧
      (n ∈ meshesOf after → f = .forwardReference .mesh n line) ∧
      ∀ (moved : Document) (options' : CompileOptions) (f' : Fault) before' e' line' after',
        moved.mentions = before' ++ .asks e' n line' :: after' →
        asksOf before' ⊆ asksOf before → n ∈ meshesOf before' →
        (compileDocument options' moved).1 = .error f' → f'.unmet? ≠ some n := by
  have hunmet : f.unmet? = some n := by
    obtain rfl | rfl := hf <;> rfl
  obtain ⟨before, e, line', after, hmentions, hmesh, hasks, hfault⟩ :=
    compileDocument_unmet h hunmet
  obtain rfl : line = line' := by
    split at hfault <;> obtain rfl | rfl := hf <;> cases hfault <;> rfl
  have hforward : f = .forwardReference .mesh n line ↔ n ∈ d.nodeNames := by
    rw [hfault]
    split
    · next hn => simp [hn]
    · next hn => simp [hn]
  have hafter : n ∈ meshesOf after ↔ n ∈ meshesOf d.mentions := by
    rw [hmentions, meshesOf_append, List.mem_append]
    exact ⟨.inr, fun hn => hn.resolve_left hmesh⟩
  have hasked : .asks e n line ∈ d.mentions := by
    rw [hmentions]
    exact List.mem_append_right _ List.mem_cons_self
  obtain ⟨g, hg, hguis, he, hrefers, hline⟩ := d.mem_mentions hasked
  refine ⟨before, e, after, hmentions, ⟨g, hg, hguis, he⟩, hrefers, hline, hmesh, hasks, hforward,
    hafter, fun hn => hforward.2 (d.nodeNames_of_meshesOf (hafter.1 hn)), ?_⟩
  intro moved options' f' before' e' line' after' hmoved hsame hmesh' h'
  exact compileDocument_met h' hmoved hmesh' fun hn => hmesh (hasks (hsame hn))

def wallNodes (line : Nat) : Element where
  tag := "Nodes"
  children :=
    [{ tag := "DeferredGroup"
       attributes := [⟨"name", "room"⟩]
       children := [{ tag := "Plane", attributes := [⟨"name", " wall "⟩], line := line + 2 }]
       line := line + 1 }]
  line

def posterGuis (line : Nat) : Element where
  tag := "Guis"
  children :=
    [{ tag := "FullScreen"
       children :=
         [{ tag := "TextBlock", attributes := [⟨"linkWithMesh", "wall"⟩], line := line + 2 }]
       line := line + 1 }]
  line

def posterView : Document where
  root :=
    { tag := "View"
      attributes := [⟨"name", "V"⟩]
      children := [posterGuis 2, wallNodes 7]
      line := 1 }

def wallView : Document where
  root :=
    { tag := "View"
      attributes := [⟨"name", "V"⟩]
      children := [wallNodes 2, posterGuis 7]
      line := 1 }

theorem posterView_before_wall :
    (compileDocument {} posterView).1 = .error (.forwardReference .mesh "wall" 4) ∧
      ∃ before e after, posterView.mentions = before ++ .asks e "wall" 4 :: after ∧
        e.RefersTo "wall" ∧ "wall" ∉ meshesOf before ∧ "wall" ∈ posterView.nodeNames ∧
        "wall" ∈ meshesOf after ∧
        ∀ f, (compileDocument {} wallView).1 = .error f → f.unmet? ≠ some "wall" := by
  have h : (compileDocument {} posterView).1 = .error (.forwardReference .mesh "wall" 4) := by
    decide +kernel
  obtain ⟨before, e, after, hmentions, -, hrefers, -, hmesh, -, hforward, hafter, -, hmoved⟩ :=
    forward_reference_iff_named h (.inl rfl)
  refine ⟨h, before, e, after, hmentions, hrefers, hmesh, hforward.1 rfl, hafter.2 ?_, ?_⟩
  · decide +kernel
  · have hasks : asksOf (nodesMentions (wallNodes 2).children) = [] := by decide +kernel
    intro f
    refine hmoved wallView {} f (nodesMentions (wallNodes 2).children) _ 9 [] rfl ?_ ?_
    · rw [hasks]
      exact List.nil_subset _
    · decide +kernel

def stageView : Document where
  root :=
    { tag := "View"
      attributes := [⟨"name", "V"⟩]
      children :=
        [{ tag := "Nodes"
           children := [{ tag := "TransformNode", attributes := [⟨"name", "stage"⟩], line := 1 }]
           line := 1 },
          { tag := "Guis"
            children := [{ tag := "TextureGui", attributes := [⟨"mesh", "stage"⟩], line := 1 }]
            line := 1 }]
      line := 1 }

/-- The node is told to be declared too late, although it stands before the user interface and no
node of the view can be a mesh. -/
theorem stageView_told_late :
    (compileDocument {} stageView).1 = .error (.forwardReference .mesh "stage" 1) ∧
      meshesOf stageView.mentions = [] := by
  decide +kernel

end SceneView
