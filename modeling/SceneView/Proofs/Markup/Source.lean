import SceneView.Proofs.Markup.Lines

/-!
# Sources of documents

The texts that are read as documents: a root element with white space and asides around it, whose
content is made of runs of text, asides and further elements. A source knows its characters, the
tags in it with what stands before each of them, and the tree that it stands for. Every text that is
read has a source that stands for what is read: `Closes` says of the rest of a text that it is the
rest of one, given what is built so far, and is carried back from the end over each event.
-/

open List

namespace SceneView.Markup

/-- A run of text between other markup, with the text that it stands for. -/
structure Run where
  chars : List Char
  plain : '<' ∉ chars
  text : List Char
  read : unescape (Text.trimBy isSpace chars) = .ok text

/-- A tag that opens an element, with the element apart from its content. -/
structure ElementTag extends OpenTag where
  element : Element
  read : readTag 0 chars = .ok element

mutual

/-- An element in one tag, or between two tags of one name. -/
inductive ElementSource where
  | empty (tag : ElementTag) (nonempty : tag.chars ≠ [])
  | full (tag : ElementTag) (endsOpen : EndsOpen tag.chars) (content : ContentSource)
      (closing : List Char) (closed : TagBody closing)
      (named : closingName closing = tagName tag.chars)

/-- The inside of an element: runs of text with an aside or an element between any two of them. -/
inductive ContentSource where
  | last (run : Run)
  | aside (run : Run) (a : Aside) (rest : ContentSource)
  | child (run : Run) (e : ElementSource) (rest : ContentSource)

end

open ContentSource

/-- What stands before or after the root. -/
inductive Margin where
  | last (s : Space)
  | aside (s : Space) (a : Aside) (rest : Margin)

/-- A root with what stands around it. -/
structure DocumentSource where
  before : Margin
  root : ElementSource
  after : Margin

mutual

def ElementSource.chars : ElementSource → List Char
  | .empty tag _ => '<' :: (tag.chars ++ ['/', '>'])
  | .full tag _ content closing _ _ => tag.opening ++ (content.chars ++ closingTag closing)

def ContentSource.chars : ContentSource → List Char
  | .last run => run.chars
  | .aside run a rest => run.chars ++ (a.chars ++ rest.chars)
  | .child run e rest => run.chars ++ (e.chars ++ rest.chars)

end

def Margin.chars : Margin → List Char
  | .last s => s.chars
  | .aside s a rest => s.chars ++ (a.chars ++ rest.chars)

def DocumentSource.chars (t : DocumentSource) : List Char :=
  t.before.chars ++ (t.root.chars ++ t.after.chars)

/-- The text and literal data directly in the content. -/
def ContentSource.text : ContentSource → List Char
  | .last run => run.text
  | .aside run a rest => run.text ++ (a.content ++ rest.text)
  | .child run _ rest => run.text ++ rest.text

def lineAfter (before : List Char) : Nat :=
  1 + before.count '\n'

mutual

/-- The element that is written after the given characters. -/
def ElementSource.element (before : List Char) : ElementSource → Element
  | .empty tag _ => { tag.element with line := lineAfter before }
  | .full tag _ content _ _ _ =>
    { tag.element with
      line := lineAfter before
      children := content.elements (before ++ tag.opening)
      text := String.ofList content.text }

def ContentSource.elements (before : List Char) : ContentSource → List Element
  | .last _ => []
  | .aside run a rest => rest.elements (before ++ (run.chars ++ a.chars))
  | .child run e rest =>
    e.element (before ++ run.chars) :: rest.elements (before ++ (run.chars ++ e.chars))

end

def DocumentSource.document (t : DocumentSource) : Document :=
  ⟨t.root.element t.before.chars⟩

mutual

/-- The tags that open elements, each after the characters before it. -/
def ElementSource.tags (before : List Char) : ElementSource → List (List Char × ElementTag)
  | .empty tag _ => [(before, tag)]
  | .full tag _ content _ _ _ => (before, tag) :: content.tags (before ++ tag.opening)

def ContentSource.tags (before : List Char) : ContentSource → List (List Char × ElementTag)
  | .last _ => []
  | .aside run a rest => rest.tags (before ++ (run.chars ++ a.chars))
  | .child run e rest =>
    e.tags (before ++ run.chars) ++ rest.tags (before ++ (run.chars ++ e.chars))

end

def DocumentSource.tags (t : DocumentSource) : List (List Char × ElementTag) :=
  t.root.tags t.before.chars

lemma Space.mark_not_mem (s : Space) : '<' ∉ s.chars :=
  fun hmem => absurd (s.blank _ hmem) (by decide)

lemma trimBy_space_append (s : Space) {cs} (h : StartsFirm cs) :
    Text.trimBy isSpace (s.chars ++ cs) = trimEnd cs := by
  rw [Text.trimBy, dropWhile_space, h.dropWhile_eq, trimEnd]

lemma unescape_space (s : Space) : unescape (Text.trimBy isSpace s.chars) = .ok [] := by
  have htrim := @trimBy_space_append s [] nofun
  rw [append_nil] at htrim
  rw [htrim]
  rfl

/-- White space is a run without text. -/
def Run.ofSpace (s : Space) : Run where
  chars := s.chars
  plain := s.mark_not_mem
  text := []
  read := unescape_space s

lemma Run.eq_nil (run : Run) {cs} (h : ∀ c ∈ (run.chars ++ cs).head?, c = '<') :
    run.chars = [] ∧ run.text = [] := by
  obtain ⟨chars, plain, text, read⟩ := run
  cases chars with
  | nil =>
    cases read
    exact ⟨rfl, rfl⟩
  | cons c chars =>
    cases h c rfl
    exact absurd mem_cons_self plain

/-- The element with the content that is written after the given characters. -/
def ContentSource.addTo (before : List Char) (c : ContentSource) (e : Element) : Element :=
  { e with
    children := e.children ++ c.elements before
    text := e.text ++ String.ofList c.text }

namespace ContentSource

lemma addTo_last (s : Space) (before : List Char) (e : Element) :
    (last (.ofSpace s)).addTo before e = e := by
  cases e
  simp [addTo, elements, text, Run.ofSpace]

lemma addTo_aside (s : Space) (a : Aside) (c : ContentSource) (before : List Char) (e : Element) :
    (aside (.ofSpace s) a c).addTo before e =
      c.addTo (before ++ (s.chars ++ a.chars))
        { e with text := e.text ++ String.ofList a.content } := by
  simp [addTo, elements, text, Run.ofSpace, String.append_assoc]

lemma addTo_child (s : Space) (x : ElementSource) (c : ContentSource) (before : List Char)
    (e : Element) :
    (child (.ofSpace s) x c).addTo before e =
      c.addTo (before ++ (s.chars ++ x.chars)) (e.withChild (x.element (before ++ s.chars))) := by
  simp [addTo, elements, text, Run.ofSpace, Element.withChild]

def withRun (run : Run) : ContentSource → ContentSource
  | last _ => last run
  | aside _ a rest => aside run a rest
  | child _ e rest => child run e rest

lemma withRun_spec {c : ContentSource} {rest} (h : ∀ d ∈ (c.chars ++ '<' :: rest).head?, d = '<')
    (run : Run) (before : List Char) (e : Element) :
    (c.withRun run).chars = run.chars ++ c.chars ∧
      (c.withRun run).addTo before e =
        c.addTo (before ++ run.chars) { e with text := e.text ++ String.ofList run.text } := by
  cases c with
  | last run' =>
    obtain ⟨hchars, htext⟩ := run'.eq_nil h
    simp [withRun, chars, addTo, elements, text, hchars, htext]
  | aside run' | child run' =>
    rw [chars, append_assoc] at h
    obtain ⟨hchars, htext⟩ := run'.eq_nil h
    simp [withRun, chars, addTo, elements, text, hchars, htext, String.append_assoc]

end ContentSource

lemma readTag_bare {line content e} (h : readTag line content = .ok e) :
    e.children = [] ∧ e.text = "" ∧ e.line = line ∧
      ∀ line', readTag line' content = .ok { e with line := line' } := by
  rw [readTag] at h
  cases hattributes : readAttributes (byteCount content) (content.length + 1) []
      ⟨byteCount (tagName content), content.drop (tagName content).length⟩ with
  | error fault =>
    rw [hattributes] at h
    cases h
  | ok attributes =>
    rw [hattributes] at h
    cases h
    refine ⟨rfl, rfl, rfl, fun line' => ?_⟩
    rw [readTag, hattributes]
    rfl

lemma ElementTag.exists_of_read {tag line e} (h : readTag line tag.chars = .ok e) :
    ∃ t : ElementTag, t.toOpenTag = tag ∧ e = { t.element with line } := by
  obtain ⟨-, -, hline, hread⟩ := readTag_bare h
  refine ⟨⟨tag, { e with line := 0 }, hread 0⟩, rfl, ?_⟩
  cases e
  cases hline
  rfl

lemma ElementSource.element_full (tag : ElementTag) (endsOpen : EndsOpen tag.chars)
    (content : ContentSource) {closing} (closed : TagBody closing)
    (named : closingName closing = tagName tag.chars) (before : List Char) :
    (ElementSource.full tag endsOpen content closing closed named).element before =
      content.addTo (before ++ tag.opening) { tag.element with line := lineAfter before } := by
  obtain ⟨hchildren, htext, -⟩ := readTag_bare tag.read
  simp [ElementSource.element, addTo, hchildren, htext]

/-- With this built and these names open, after the characters before, the characters are the rest
of a document. -/
inductive Closes : Builder → List (List Char) → List Char → List Char → Document → Prop where
  | margin (before : List Char) (root : Element) (m : Margin) :
      Closes ⟨[], some root⟩ [] before m.chars ⟨root⟩
  | root (before : List Char) (m : Margin) (x : ElementSource) (m' : Margin) :
      Closes ⟨[], none⟩ [] before (m.chars ++ (x.chars ++ m'.chars))
        ⟨x.element (before ++ m.chars)⟩
  | content {e : Element} {outer : List Element} {root : Option Element} {b : Builder}
      {name closing before rest : List Char} {opened : List (List Char)} {d : Document}
      (content : ContentSource) (closed : TagBody closing) (named : closingName closing = name)
      (hattach : Builder.attach ⟨outer, root⟩ (content.addTo before e) = .ok b)
      (h : Closes b opened (before ++ (content.chars ++ closingTag closing)) rest d) :
      Closes ⟨e :: outer, root⟩ (name :: opened) before
        (content.chars ++ (closingTag closing ++ rest)) d

namespace Builder

lemma step_aside (a : Aside) (line : Nat) (e : Element) (outer : List Element)
    (root : Option Element) :
    step ⟨e :: outer, root⟩ line a.event =
      .ok ⟨{ e with text := e.text ++ String.ofList a.content } :: outer, root⟩ := by
  cases a with
  | data body closed => rfl
  | _ =>
    cases e
    dsimp only [Aside.content]
    rw [String.ofList_nil, String.append_empty]
    rfl

lemma step_aside_outside (a : Aside) (line : Nat) (root : Option Element) :
    step ⟨[], root⟩ line a.event = .ok ⟨[], root⟩ := by
  cases a <;> rfl

lemma step_text_eq_ok {b b' : Builder} {line raw} (h : b.step line (.text raw) = .ok b') :
    ∃ text e outer, unescape raw = .ok text ∧ b = ⟨e :: outer, b.root⟩ ∧
      b' = ⟨{ e with text := e.text ++ String.ofList text } :: outer, b.root⟩ := by
  obtain ⟨stack, root⟩ := b
  rw [step] at h
  cases hraw : unescape raw with
  | error fault =>
    rw [hraw] at h
    cases h
  | ok text =>
    rw [hraw] at h
    cases stack with
    | nil => cases h
    | cons e outer =>
      cases h
      exact ⟨text, e, outer, rfl, rfl, rfl⟩

lemma step_start_eq_ok {b b' : Builder} {line content} (h : b.step line (.start content) = .ok b') :
    ∃ e, readTag line content = .ok e ∧ b' = ⟨e :: b.stack, b.root⟩ := by
  rw [step] at h
  cases hread : readTag line content with
  | error fault =>
    rw [hread] at h
    cases h
  | ok e =>
    rw [hread] at h
    cases h
    exact ⟨e, rfl, rfl⟩

lemma step_empty_eq_ok {b b' : Builder} {line content} (h : b.step line (.empty content) = .ok b') :
    ∃ e, readTag line content = .ok e ∧ b.attach e = .ok b' := by
  rw [step] at h
  cases hread : readTag line content with
  | error fault =>
    rw [hread] at h
    cases h
  | ok e =>
    rw [hread] at h
    exact ⟨e, rfl, h⟩

lemma length_stack_of_attach {b b' : Builder} {e} (h : b.attach e = .ok b') :
    b'.stack.length = b.stack.length := by
  obtain ⟨stack, root⟩ := b
  cases stack with
  | cons parent outer =>
    cases h
    rfl
  | nil =>
    cases root with
    | none =>
      cases h
      rfl
    | some root => cases h

lemma fits_of_step {b b' : Builder} {line cs rest event opened opened'}
    (h : Lexeme cs rest event opened opened') (hstep : b.step line event = .ok b')
    (hfits : b.stack.length = opened.length) : b'.stack.length = opened'.length := by
  cases h with
  | text firm nonempty plain ends =>
    obtain ⟨text, e, outer, -, hb, rfl⟩ := step_text_eq_ok hstep
    rw [hb] at hfits
    exact hfits
  | aside a =>
    obtain ⟨stack, root⟩ := b
    cases stack with
    | nil =>
      rw [step_aside_outside] at hstep
      cases hstep
      exact hfits
    | cons e outer =>
      rw [step_aside] at hstep
      cases hstep
      exact hfits
  | start tag endsOpen =>
    obtain ⟨e, -, rfl⟩ := step_start_eq_ok hstep
    exact congrArg (· + 1) hfits
  | empty tag nonempty =>
    obtain ⟨e, -, hattach⟩ := step_empty_eq_ok hstep
    exact (length_stack_of_attach hattach).trans hfits
  | close closed =>
    obtain ⟨stack, root⟩ := b
    cases stack with
    | nil => cases hfits
    | cons e outer => exact (length_stack_of_attach hstep).trans (Nat.succ.inj hfits)

end Builder

namespace Closes

variable {b b' : Builder} {opened opened' : List (List Char)} {before rest : List Char}
  {d : Document} {line : Nat}

lemma text {e : Element} {outer : List Element} {root : Option Element} (run : Run)
    (hrest : ∀ c ∈ rest.head?, c = '<')
    (h : Closes ⟨{ e with text := e.text ++ String.ofList run.text } :: outer, root⟩ opened
      (before ++ run.chars) rest d) :
    Closes ⟨e :: outer, root⟩ opened before (run.chars ++ rest) d := by
  cases h with
  | content c closed named hattach h =>
    obtain ⟨hchars, hadd⟩ := withRun_spec hrest run before e
    rw [← hadd] at hattach
    rw [← append_assoc, ← hchars]
    refine .content (c.withRun run) closed named hattach ?_
    simpa [hchars] using h

lemma aside (s : Space) (a : Aside) (hstep : b.step line a.event = .ok b')
    (h : Closes b' opened (before ++ (s.chars ++ a.chars)) rest d) :
    Closes b opened before (s.chars ++ (a.chars ++ rest)) d := by
  obtain ⟨stack, root⟩ := b
  cases stack with
  | nil =>
    rw [Builder.step_aside_outside] at hstep
    cases hstep
    cases h with
    | margin _ root m => exact .margin before root (.aside s a m)
    | root _ m x m' => simpa [Margin.chars] using Closes.root before (.aside s a m) x m'
  | cons e outer =>
    rw [Builder.step_aside] at hstep
    cases hstep
    cases h with
    | content c closed named hattach h =>
      rw [← addTo_aside] at hattach
      have hcloses := Closes.content (.aside (.ofSpace s) a c) closed named hattach
        (by simpa [chars, Run.ofSpace] using h)
      simpa [chars, Run.ofSpace] using hcloses

lemma element (s : Space) (x : ElementSource)
    (hattach : b.attach (x.element (before ++ s.chars)) = .ok b')
    (h : Closes b' opened (before ++ (s.chars ++ x.chars)) rest d) :
    Closes b opened before (s.chars ++ (x.chars ++ rest)) d := by
  obtain ⟨stack, root⟩ := b
  cases stack with
  | nil =>
    cases root with
    | some root => cases hattach
    | none =>
      cases hattach
      cases h with
      | margin _ root m => exact .root before (.last s) x m
  | cons e outer =>
    cases hattach
    cases h with
    | content c closed named hattach h =>
      rw [← addTo_child] at hattach
      have hcloses := Closes.content (.child (.ofSpace s) x c) closed named hattach
        (by simpa [chars, Run.ofSpace] using h)
      simpa [chars, Run.ofSpace] using hcloses

lemma lexeme (s : Space) {cs : List Char} {event} (hlexeme : Lexeme cs rest event opened opened')
    (hline : cs.head? = some '<' → line = lineAfter (before ++ s.chars))
    (hstep : b.step line event = .ok b') (hfits : b.stack.length = opened.length)
    (h : Closes b' opened' (before ++ (s.chars ++ cs)) rest d) :
    Closes b opened before (s.chars ++ (cs ++ rest)) d := by
  cases hlexeme with
  | text firm nonempty plain ends =>
    obtain ⟨text, e, outer, hread, hb, rfl⟩ := Builder.step_text_eq_ok hstep
    rw [hb]
    have hplain : '<' ∉ s.chars ++ cs := fun hmem => (mem_append.1 hmem).elim s.mark_not_mem plain
    let run : Run := ⟨s.chars ++ cs, hplain, text, by rw [trimBy_space_append s firm, hread]⟩
    rw [← append_assoc]
    exact Closes.text run ends h
  | aside a => exact Closes.aside s a hstep h
  | start tag endsOpen =>
    cases hline rfl
    obtain ⟨e, hread, rfl⟩ := Builder.step_start_eq_ok hstep
    obtain ⟨tag, rfl, rfl⟩ := ElementTag.exists_of_read hread
    cases h with
    | content c closed named hattach h =>
      have helement := ElementSource.element_full tag endsOpen c closed named (before ++ s.chars)
      rw [append_assoc] at helement
      have hcloses := Closes.element s (.full tag endsOpen c _ closed named)
        (by rw [helement]; exact hattach) (by simpa [ElementSource.chars] using h)
      simpa [ElementSource.chars] using hcloses
  | empty tag nonempty =>
    cases hline rfl
    obtain ⟨e, hread, hattach⟩ := Builder.step_empty_eq_ok hstep
    obtain ⟨tag, rfl, rfl⟩ := ElementTag.exists_of_read hread
    exact Closes.element s (.empty tag nonempty) hattach h
  | close closed =>
    obtain ⟨stack, root⟩ := b
    cases stack with
    | nil => cases hfits
    | cons e outer =>
      have hattach : Builder.attach ⟨outer, root⟩
          ((last (.ofSpace s)).addTo before e) = .ok b' := by
        rw [addTo_last]
        exact hstep
      exact Closes.content _ closed rfl hattach h

end Closes

lemma length_utf8 (cs : List Char) :
    (cs.flatMap String.utf8EncodeChar).length = byteCount cs := by
  induction cs with
  | nil => rfl
  | cons c cs ih =>
    rw [flatMap_cons, length_append, String.length_utf8EncodeChar, ih, byteCount_cons]

lemma lineOf_utf8 (before rest : List Char) :
    Text.lineOf ((before ++ rest).flatMap String.utf8EncodeChar) (byteCount before) =
      lineAfter before := by
  rw [flatMap_append, Text.lineOf, ← length_utf8, take_left, lineAfter]
  exact congrArg (1 + ·) (Text.count_utf8 (a := '\n') (by decide) before)

lemma markFrom_utf8 (before : List Char) (s : Space) (rest : List Char) :
    markFrom ((before ++ (s.chars ++ '<' :: rest)).flatMap String.utf8EncodeChar)
        (byteCount before) = byteCount (before ++ s.chars) := by
  have hdrop : ((before ++ (s.chars ++ '<' :: rest)).flatMap String.utf8EncodeChar).drop
      (byteCount before) = (s.chars ++ '<' :: rest).flatMap String.utf8EncodeChar := by
    rw [flatMap_append, ← length_utf8, drop_left]
  have hfirst : ((s.chars ++ '<' :: rest).flatMap String.utf8EncodeChar).idxOf? 0x3C =
      some (byteCount s.chars) := by
    have hnone : (s.chars.flatMap String.utf8EncodeChar).findIdx? (· == 0x3C) = none := by
      rw [findIdx?_eq_none_iff]
      intro b hb
      rw [beq_eq_false_iff_ne]
      rintro rfl
      exact s.mark_not_mem ((Text.mem_utf8_iff (a := '<') (by decide) s.chars).1 hb)
    rw [idxOf?, flatMap_append, findIdx?_append, hnone, Option.none_or,
      ← length_utf8]
    have hmark : (('<' :: rest).flatMap String.utf8EncodeChar).findIdx? (· == 0x3C) = some 0 := rfl
    rw [hmark, Option.map_some, Nat.zero_add]
  have hle : ¬ ((before ++ (s.chars ++ '<' :: rest)).flatMap String.utf8EncodeChar).length <
      byteCount before := by
    rw [length_utf8, byteCount_append]
    omega
  rw [markFrom, if_neg hle]
  dsimp only
  rw [hdrop, Text.head_utf8, if_neg Bool.false_ne_true, hfirst, Option.getD_some, byteCount_append]

lemma lineOf_markFrom (before : List Char) (s : Space) (cs rest : List Char)
    (hmark : cs.head? = some '<') :
    let bytes := (before ++ (s.chars ++ (cs ++ rest))).flatMap String.utf8EncodeChar
    Text.lineOf bytes (markFrom bytes (byteCount before)) = lineAfter (before ++ s.chars) := by
  obtain ⟨chars, rfl⟩ := List.head?_eq_some_iff.1 hmark
  dsimp only
  rw [cons_append, markFrom_utf8, ← append_assoc, lineOf_utf8]

lemma closes_of_readEvents {before rest : List Char} {opened : List (List Char)} {fuel : Nat}
    {lines : Text.LineCounter} {b : Builder} {d : Document}
    (hlines : lines.Stands ((before ++ rest).flatMap String.utf8EncodeChar))
    (hfits : b.stack.length = opened.length)
    (h : readEvents ((before ++ rest).flatMap String.utf8EncodeChar) fuel lines
      ⟨rest, byteCount before, opened⟩ b = .ok d) :
    Closes b opened before rest d := by
  induction fuel generalizing before rest opened lines b with
  | zero => cases h
  | succ fuel ih =>
    rw [readEvents] at h
    cases hnext : Reader.next ⟨rest, byteCount before, opened⟩ with
    | error found =>
      rw [hnext] at h
      cases h
    | ok result =>
      obtain ⟨event, rest', offset', opened'⟩ := result
      rw [hnext] at h
      obtain ⟨s, ⟨rfl, hrest⟩ | ⟨cs, hrest, hoffset, hlexeme⟩⟩ := Reader.exists_lexeme hnext
      · obtain ⟨stack, root⟩ := b
        cases stack with
        | cons e outer => cases h
        | nil =>
          cases root with
          | none => cases h
          | some root =>
            cases length_eq_zero_iff.1 hfits.symm
            cases hrest
            cases h
            exact .margin before root (.last s)
      · dsimp only at hrest hoffset hlexeme h
        subst hrest
        rw [if_neg hlexeme.ne_finish] at h
        obtain ⟨hlineAt, hlines'⟩ := hlines.lineAt (markFrom _ (byteCount before))
        rw [hlineAt] at h
        split at h
        · cases h
        · next b' hstep =>
          have hfits' := Builder.fits_of_step hlexeme hstep hfits
          apply Closes.lexeme s hlexeme (lineOf_markFrom before s cs rest') hstep hfits
          rw [← byteCount_space, Nat.add_assoc, ← byteCount_append, ← byteCount_append] at hoffset
          have hsplit : before ++ (s.chars ++ (cs ++ rest')) =
              (before ++ (s.chars ++ cs)) ++ rest' := by
            simp only [append_assoc]
          rw [hsplit] at hlines' h
          exact ih hlines' hfits' (hoffset ▸ h)

lemma exists_source {cs : List Char} {fuel : Nat} {d : Document}
    (h : readEvents (cs.flatMap String.utf8EncodeChar) fuel
      (.ofBytes (cs.flatMap String.utf8EncodeChar)) ⟨cs, 0, []⟩ .start = .ok d) :
    ∃ t : DocumentSource, t.chars = cs ∧ t.document = d := by
  have hcloses : Closes .start [] [] cs d := closes_of_readEvents (.ofBytes _) rfl h
  cases hcloses with
  | root _ m x m' => exact ⟨⟨m, x, m'⟩, rfl, rfl⟩

lemma exists_source_of_read {s d} (h : readDocument s = .ok d) :
    ∃ t : DocumentSource, t.chars = (Reader.ofText s.toList).rest ∧
      d.root.relined (fun _ => 0) = t.document.root.relined fun _ => 0 := by
  generalize hcs : (Reader.ofText s.toList).rest = cs
  have hreader : Reader.ofText s.toList = ⟨cs, 0, []⟩ := by
    rw [← hcs]
    cases s.toList <;> rfl
  rw [readDocument_eq, hreader] at h
  have hread := @readEvents_eq _ _ _ ⟨cs, 0, []⟩ (.ofBytes (cs.flatMap String.utf8EncodeChar))
    (Nat.lt_succ_self cs.length) .start
  cases houtcome : readPlaces ⟨cs, 0, []⟩ .start with
  | error found =>
    rw [houtcome] at h
    cases h
  | ok d₀ =>
    rw [houtcome] at h hread
    cases h
    obtain ⟨t, ht, hdocument⟩ := exists_source hread
    refine ⟨t, ht, ?_⟩
    rw [hdocument, Element.relined_relined, Element.relined_relined]
    rfl

/-- In the text the tag stands after the given characters, and the element is the one that it opens,
on the line of its opening mark. -/
structure IsOpenedBy (source : List Char) (e : Element) (p : List Char × ElementTag) : Prop where
  stands : p.1 ++ '<' :: p.2.chars <+: source
  tag_eq : e.tag = p.2.element.tag
  attributes_eq : e.attributes = p.2.element.attributes
  line_eq : e.line = 1 + p.1.count '\n'

mutual

lemma ElementSource.isOpenedBy (x : ElementSource) (before after : List Char) {source}
    (hsource : source = before ++ (x.chars ++ after)) :
    List.Forall₂ (IsOpenedBy source) (x.element before).inOrder (x.tags before) := by
  match x with
  | .empty tag nonempty =>
    have hstands : before ++ '<' :: tag.chars <+: source := by
      rw [hsource, ElementSource.chars]
      exact ⟨'/' :: '>' :: after, by simp⟩
    rw [ElementSource.element, Element.inOrder, (readTag_bare tag.read).1, ElementSource.tags]
    exact .cons ⟨hstands, rfl, rfl, rfl⟩ .nil
  | .full tag endsOpen content closing closed named =>
    have hstands : before ++ '<' :: tag.chars <+: source := by
      rw [hsource, ElementSource.chars, OpenTag.opening]
      exact ⟨'>' :: (content.chars ++ (closingTag closing ++ after)), by simp⟩
    rw [ElementSource.element, Element.inOrder, ElementSource.tags]
    refine .cons ⟨hstands, rfl, rfl, rfl⟩ ?_
    apply content.isOpenedBy _ (closingTag closing ++ after)
    rw [hsource, ElementSource.chars]
    simp

lemma ContentSource.isOpenedBy (c : ContentSource) (before after : List Char) {source}
    (hsource : source = before ++ (c.chars ++ after)) :
    List.Forall₂ (IsOpenedBy source) (Element.allInOrder (c.elements before)) (c.tags before) := by
  match c with
  | .last run => exact .nil
  | .aside run a content =>
    rw [elements, tags]
    apply content.isOpenedBy _ after
    rw [hsource, chars]
    simp
  | .child run x content =>
    rw [elements, tags, Element.allInOrder]
    apply rel_append
    · apply x.isOpenedBy _ (content.chars ++ after)
      rw [hsource, chars]
      simp
    · apply content.isOpenedBy _ after
      rw [hsource, chars]
      simp

end

/-- A document that is read is the one that a source of the text stands for. Its elements in order
are those that the tags of the source open, each on the line of its tag, whatever comes before. -/
theorem element_lines {source : String} {d : Document}
    (hmark : source.toList.head? ≠ some '\uFEFF') (h : readDocument source = .ok d) :
    ∃ t : DocumentSource, t.chars = source.toList ∧ t.document = d ∧
      List.Forall₂ (IsOpenedBy source.toList) d.root.inOrder t.tags := by
  rw [readDocument, Text.toList_toUTF8, Reader.ofText_unmarked hmark] at h
  obtain ⟨t, ht, rfl⟩ := exists_source h
  exact ⟨t, ht, rfl, t.root.isOpenedBy t.before.chars t.after.chars ht.symm⟩

/-- A document with line feeds in a comment, in a tag and in literal data. -/
def crowdedSource : String :=
  "<a>x<!--<\n--><b\n/><![CDATA[<\n]]>\n<c/></a>"

theorem crowdedSource_lines :
    crowdedSource.toList.head? ≠ some '\uFEFF' ∧
      ∃ d, readDocument crowdedSource = .ok d ∧ d.root.inOrder.map (·.line) = [1, 2, 5] ∧
        ∃ t : DocumentSource, t.chars = crowdedSource.toList ∧ t.document = d ∧
          List.Forall₂ (IsOpenedBy crowdedSource.toList) d.root.inOrder t.tags := by
  have hmark : crowdedSource.toList.head? ≠ some '\uFEFF' := by decide
  have hlines : ((readDocument crowdedSource).map fun d => d.root.inOrder.map (·.line)) =
      .ok [1, 2, 5] := by
    decide +kernel
  cases hd : readDocument crowdedSource with
  | error fault =>
    rw [hd] at hlines
    cases hlines
  | ok d =>
    rw [hd] at hlines
    exact ⟨hmark, d, rfl, Except.ok.inj hlines, element_lines hmark hd⟩

end SceneView.Markup
