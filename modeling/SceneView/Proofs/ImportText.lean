import SceneView.Proofs.ImportGroups
import SceneView.Proofs.Markup.Source

/-!
# Import lines of the author

A module begins with the lines that the author writes in its import sections. The text of a section
comes in runs, with comments, literal data and the like between them, and each run is trimmed before
it is added to the others. So a line does not end where only trimmed white space breaks it.
-/

namespace SceneView

namespace Markup

/-- The inside of the element, if it has two tags and is an import section. -/
def ElementSource.importContent? : ElementSource → Option ContentSource
  | .empty _ _ => none
  | .full tag _ content _ _ _ =>
    if SectionKind.ofTag? tag.element.tag = some .imports then some content else none

def ContentSource.importContents : ContentSource → List ContentSource
  | .last _ => []
  | .aside _ _ rest => rest.importContents
  | .child _ x rest => x.importContent?.toList ++ rest.importContents

def DocumentSource.importContents (t : DocumentSource) : List ContentSource :=
  match t.root with
  | .empty _ _ => []
  | .full _ _ content _ _ _ => content.importContents

/-- The lines of the trimmed runs and of the literal data. -/
def ContentSource.lines (c : ContentSource) : List String :=
  Text.trimmedLines (String.ofList c.text)

lemma ElementSource.sectionLines_element (x : ElementSource) (before : List Char) :
    sectionLines (x.element before) = x.importContent?.toList.flatMap ContentSource.lines := by
  cases x with
  | empty tag nonempty =>
    have htext : tag.element.text = "" := (readTag_bare tag.read).2.1
    rw [element, sectionLines, htext, importContent?]
    split <;> rfl
  | full tag endsOpen content closing closed named =>
    rw [element, sectionLines, importContent?]
    split
    · exact (List.append_nil _).symm
    · rfl

lemma ContentSource.sectionLines_elements (c : ContentSource) (before : List Char) :
    (c.elements before).flatMap sectionLines = c.importContents.flatMap ContentSource.lines := by
  cases c with
  | last run => rfl
  | aside run a rest => exact rest.sectionLines_elements _
  | child run x rest =>
    rw [elements, importContents, List.flatMap_cons, x.sectionLines_element,
      rest.sectionLines_elements, List.flatMap_append]

lemma DocumentSource.sectionLines_document (t : DocumentSource) :
    t.document.sections.flatMap sectionLines = t.importContents.flatMap ContentSource.lines := by
  obtain ⟨before, root, after⟩ := t
  cases root with
  | empty tag nonempty =>
    have hchildren : tag.element.children = [] := (readTag_bare tag.read).1
    rw [document, Document.sections, ElementSource.element, hchildren]
    rfl
  | full tag endsOpen content closing closed named => exact content.sectionLines_elements _

lemma sectionLines_relinedAll (f : Nat → Nat) (es : List Element) :
    (Element.relinedAll f es).flatMap sectionLines = es.flatMap sectionLines := by
  induction es with
  | nil => rfl
  | cons e es ih =>
    rw [Element.relinedAll, List.flatMap_cons, List.flatMap_cons, ih]
    cases e
    rfl

lemma sectionLines_relined (f : Nat → Nat) (e : Element) :
    (Document.sections ⟨e.relined f⟩).flatMap sectionLines =
      (Document.sections ⟨e⟩).flatMap sectionLines := by
  cases e
  exact sectionLines_relinedAll f _

lemma exists_source_sections {s d} (h : readDocument s = .ok d) :
    ∃ t : DocumentSource, t.chars = (Reader.ofText s.toList).rest ∧
      d.sections.flatMap sectionLines = t.document.sections.flatMap sectionLines := by
  obtain ⟨t, ht, hroot⟩ := exists_source_of_read h
  refine ⟨t, ht, ?_⟩
  rw [← sectionLines_relined (fun _ => 0) d.root, hroot, sectionLines_relined]

end Markup

open Markup

/-- The author's lines in a compiled module are those of the text of its import sections, where each
run between comments, instructions, literal data and elements is trimmed before they are joined. -/
theorem import_lines {options : CompileOptions} {source : String} {v : CompiledView}
    (h : (compileView options source).1 = .ok v) :
    ∃ (t : DocumentSource) (d : Document) (s : Session),
      t.chars = (Reader.ofText source.toList).rest ∧ readDocument source = .ok d ∧
      d.session? options = some s ∧
      v.code = "\n".intercalate (t.importContents.flatMap ContentSource.lines ++
        s.origins.map fun origin =>
          importLine (options.libraries.module origin) (s.imports.group origin)) ++ "\n\n" ++
            s.generated.text := by
  rw [compileView] at h
  cases hd : readDocument source with
  | error found =>
    rw [hd] at h
    cases h
  | ok d =>
    rw [hd] at h
    obtain ⟨s, hs, hcode⟩ := code_of_compile h
    obtain ⟨t, ht, hsections⟩ := exists_source_sections hd
    refine ⟨t, d, s, ht, rfl, hs, ?_⟩
    rw [hcode, hsections, t.sectionLines_document]

/-- A view with a comment between the lines of its import section. -/
def joinedText : String :=
  "<View name='V'><Imports>import 'a';\n<!-- b -->\nimport 'c';</Imports></View>"

def joinedDocument : Document where
  root :=
    { tag := "View"
      attributes := [⟨"name", "V"⟩]
      children := [{ tag := "Imports", text := "import 'a';import 'c';", line := 1 }]
      line := 1 }

lemma joinedText_compiles :
    ∃ v, (compileView {} joinedText).1 = .ok v ∧ (compileDocument {} joinedDocument).1 = .ok v := by
  have hread : readDocument joinedText = .ok joinedDocument := by
    rw [readDocument, Text.toList_toUTF8]
    rfl
  have hcompiles : (compileDocument {} joinedDocument).1.isOk = true := by decide +kernel
  obtain ⟨v, hv⟩ := exists_of_isOk hcompiles
  rw [compileView, hread]
  exact ⟨v, hv, hv⟩

theorem import_lines_joined :
    ∃ v, (compileView {} joinedText).1 = .ok v ∧
      ∃ (t : DocumentSource) (d : Document) (s : Session),
        t.chars = (Reader.ofText joinedText.toList).rest ∧ readDocument joinedText = .ok d ∧
        d.session? {} = some s ∧
        v.code = "\n".intercalate (t.importContents.flatMap ContentSource.lines ++
          s.origins.map fun origin =>
            importLine (({} : CompileOptions).libraries.module origin) (s.imports.group origin)) ++
              "\n\n" ++ s.generated.text := by
  obtain ⟨v, hv, -⟩ := joinedText_compiles
  exact ⟨v, hv, import_lines hv⟩

/-- The two lines of the author, which a comment divides, come out as one. -/
theorem imports_joined :
    ∃ v groups text, (compileView {} joinedText).1 = .ok v ∧
      v.code = "\n".intercalate ("import 'a';import 'c';" :: groups) ++ "\n\n" ++ text := by
  obtain ⟨v, hv, hcompiled⟩ := joinedText_compiles
  obtain ⟨s, -, hcode⟩ := code_of_compile hcompiled
  have hlines : joinedDocument.sections.flatMap sectionLines = ["import 'a';import 'c';"] := by
    decide
  rw [hlines, List.singleton_append] at hcode
  exact ⟨v, _, _, hv, hcode⟩

end SceneView
