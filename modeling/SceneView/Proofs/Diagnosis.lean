import SceneView.Proofs.Composition

/-!
# Faults and the elements at fault

A fault about an element of a document carries the line of that element: what an action says about
its own element has no line, and gets the one of the innermost element around the action.
`fault_points_at_element` tells for every document that is not accepted which element that is.
-/

namespace SceneView

mutual

def Element.elements : Element → List Element
  | ⟨tag, attributes, children, text, line⟩ =>
    ⟨tag, attributes, children, text, line⟩ :: Element.elementsOf children

def Element.elementsOf : List Element → List Element
  | [] => []
  | e :: es => e.elements ++ Element.elementsOf es

end

def Document.elements (d : Document) : List Element :=
  d.root.elements

namespace Element

lemma mem_elements (e : Element) : e ∈ e.elements := by
  cases e with
  | mk tag attributes children text line =>
    rw [elements]
    exact List.mem_cons_self

lemma mem_elementsOf {e c es} (he : e ∈ es) (hc : c ∈ e.elements) : c ∈ elementsOf es := by
  induction es with
  | nil => cases he
  | cons e' es ih =>
    rw [elementsOf, List.mem_append]
    rcases List.mem_cons.1 he with rfl | he
    · exact .inl hc
    · exact .inr (ih he)

mutual

lemma child_mem_elements {c x : Element} : (e : Element) → x ∈ e.elements → c ∈ x.children →
    c ∈ e.elements
  | ⟨tag, attributes, children, text, line⟩, hx, hc => by
    rw [elements] at hx ⊢
    apply List.mem_cons_of_mem
    rcases List.mem_cons.1 hx with rfl | hx
    · exact mem_elementsOf hc c.mem_elements
    · exact child_mem_elementsOf children hx hc

lemma child_mem_elementsOf {c x : Element} : (es : List Element) → x ∈ elementsOf es →
    c ∈ x.children → c ∈ elementsOf es
  | [], hx, _ => by cases hx
  | e :: es, hx, hc => by
    rw [elementsOf, List.mem_append] at hx ⊢
    rcases hx with hx | hx
    · exact .inl (child_mem_elements e hx hc)
    · exact .inr (child_mem_elementsOf es hx hc)

end

end Element

/-- If all elements of a document have lines, then every fault about an element carries the line of
an element that it is about: one with the tag and without the attribute that is missing, one with
the unknown tag, one with the name that is not found or taken, or one that fills a place twice. A
root without a name for the class is blamed for it, also if it has a blank name. -/
theorem fault_points_at_element {d : Document} {options : CompileOptions} {f : Fault}
    (hlines : ∀ e ∈ d.elements, 0 < e.line) (h : (compileDocument options d).1 = .error f)
    (hplaced : f.isPlaced = true) :
    ∃ e ∈ d.elements, f.line? = some e.line ∧
      (f.Concerns e ∨
        e = d.root ∧ d.className? = none ∧ f = .missingAttribute e.tag "name" e.line) := by
  have hroot : d.root ∈ d.elements := d.root.mem_elements
  unfold compileDocument at h
  cases hname : d.className with
  | error fault =>
    rw [hname] at h
    cases h
    unfold Document.className at hname
    split at hname
    · cases hname
    · next hnone =>
      cases hname
      exact ⟨d.root, hroot, if_pos (hlines _ hroot), .inr ⟨rfl, hnone, rfl⟩⟩
  | ok className =>
    rw [hname] at h
    dsimp only at h
    let S : Compile.Scope :=
      { Compile.Scope.whole with
        elements := (· ∈ d.elements)
        child := fun he hc => Element.child_mem_elements d.root he hc }
    have hcomposed : Compile.Composed S (fun _ => False) (do
        Compile.log .debug ("translating view '" ++ className ++ "' (mixin: " ++
          (if d.isMixin then "true" else "false") ++ ")")
        Compile.document d) fun _ => True := by
      refine .bind (.log _ _) fun _ _ => Compile.document_composed trivial (fun e he => ?_)
        (fun _ _ _ _ _ _ => trivial) fun _ _ _ => trivial
      exact Element.child_mem_elements d.root hroot he
    have houtcome := hcomposed.outcome (Compile.start className d.isMixin options.visibility)
    split at h
    · next hrun =>
      cases h
      rw [hrun] at houtcome
      cases houtcome with
      | stopped htold =>
        cases htold with
        | nothing hf => exact absurd (hf.symm.trans hplaced) Bool.false_ne_true
        | placed he hline hconcerns => exact ⟨_, he, hline (hlines _ he), .inl hconcerns⟩
        | unplaced how _ _ => exact how.elim
    · cases h

def strayView : Document where
  root :=
    { tag := "View"
      attributes := [⟨"name", "V"⟩]
      line := 1
      children :=
        [{ tag := "Nodes"
           line := 2
           children :=
             [{ tag := "DeferredGroup"
                attributes := [⟨"name", "g"⟩]
                line := 3
                children :=
                  [{ tag := "Box"
                     attributes := [⟨"size", "2"⟩, ⟨"material", " m "⟩]
                     line := 4 }] }] }] }

/-- The fault is that of the box, with the line of the box. -/
theorem strayView_points_at_box :
    (∀ e ∈ strayView.elements, 0 < e.line) ∧
      (compileDocument {} strayView).1 = .error (.reference .material "m" 4) ∧
      ∃ e ∈ strayView.elements, (Fault.reference .material "m" 4).line? = some e.line ∧
        ((Fault.reference .material "m" 4).Concerns e ∨
          e = strayView.root ∧ strayView.className? = none ∧
            Fault.reference .material "m" 4 = .missingAttribute e.tag "name" e.line) := by
  have hlines : ∀ e ∈ strayView.elements, 0 < e.line := by decide
  have hfault : (compileDocument {} strayView).1 = .error (.reference .material "m" 4) := by
    decide +kernel
  exact ⟨hlines, hfault, fault_points_at_element hlines hfault rfl⟩

end SceneView
